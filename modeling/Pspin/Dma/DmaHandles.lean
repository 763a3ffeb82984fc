import Mathlib.Data.List.Pairwise
import Pspin.Dma.SpinDma

/-! # Handles of DMA transfers

A handle is the number of its transfer modulo `2 ^ 32`, and `done_id` is the number of transfers
that are complete modulo `2 ^ 32`: the id that a core reads is that of the transfer which its read
starts, however many others are started around it.
-/

namespace Pspin

open Clocked

/-! ## One core -/

namespace SpinDmaPos

open PulpClusterFrontendRegs

variable {Core : Type} {position : SpinDmaPos Core} {gnt waits ready : Bool}
  {rData size handle : Word} {xfer : XferId Core} {xfer? : XferId Core → Option Word}
  {call : Option (SpinDmaCall Core)}

/-- A transfer that is described moves something. -/
def Moves : SpinDmaPos Core → Prop
  | srcAddr _ _ size => 0 < size
  | dstAddr _ size => 0 < size
  | numBytes size => 0 < size
  | _ => True

/-- A read of `done_id` about a variable and the handle in it. -/
def Asks (position : SpinDmaPos Core) (xfer : XferId Core) (handle : Word) : Prop :=
  ∃ waits, position = doneId waits xfer handle ∨ position = compare waits xfer handle

/-- A call starts with the address of a transfer that moves something, or with a read of `done_id`
    about a handle that is there. -/
theorem start_cases (xfer? : XferId Core → Option Word) (call : Option (SpinDmaCall Core)) :
    start xfer? call = idle ∨
    (∃ source dest size, start xfer? call = srcAddr source dest size ∧ 0 < size) ∨
    ∃ waits xfer handle, start xfer? call = doneId waits xfer handle ∧ xfer? xfer = some handle := by
  rcases call with _ | call
  · exact .inl rfl
  -- waiting and testing both return at once where no transfer was started
  have reads (waits : Bool) (xfer : XferId Core) :
      ((xfer? xfer).map (doneId waits xfer)).getD idle = idle ∨
      ∃ handle, ((xfer? xfer).map (doneId waits xfer)).getD idle = doneId waits xfer handle ∧
        xfer? xfer = some handle := by
    cases xfer? xfer with
    | none => exact .inl rfl
    | some handle => exact .inr ⟨handle, rfl, rfl⟩
  cases call with
  | dma source dest size =>
    rw [start]
    split
    next some_ => exact .inr (.inl ⟨source, dest, size, rfl, some_⟩)
    next => exact .inl rfl
  | wait xfer =>
    refine (reads true xfer).imp_right fun read => .inr ?_
    obtain ⟨handle, read⟩ := read
    exact ⟨true, xfer, handle, read⟩
  | test xfer =>
    refine (reads false xfer).imp_right fun read => .inr ?_
    obtain ⟨handle, read⟩ := read
    exact ⟨false, xfer, handle, read⟩

theorem moves_start : (start xfer? call).Moves := by
  obtain starts | ⟨source, dest, size, starts, some_⟩ | ⟨waits, xfer, handle, starts, -⟩ :=
    start_cases xfer? call <;> rw [starts]
  · trivial
  · exact some_
  · trivial

theorem asks_start (asks : (start xfer? call).Asks xfer handle) : xfer? xfer = some handle := by
  obtain ⟨waits, asks⟩ := asks
  obtain starts | ⟨source, dest, size, starts, -⟩ | ⟨waits', xfer', handle', starts, found⟩ :=
    start_cases xfer? call <;> rw [starts] at asks
  · simp at asks
  · simp at asks
  · simp only [doneId.injEq, reduceCtorEq, or_false] at asks
    obtain ⟨-, rfl, rfl⟩ := asks
    exact found

theorem Moves.next (moves : position.Moves) : (position.next gnt rData).Moves := by
  cases position with
  | srcAddr source dest size => cases gnt <;> exact moves
  | dstAddr dest size => cases gnt <;> exact moves
  | numBytes size =>
    cases gnt with
    | false => exact moves
    | true => trivial
  | tfId => cases gnt <;> trivial
  | doneId waits xfer handle => cases gnt <;> trivial
  | compare waits xfer handle =>
    rw [SpinDmaPos.next]
    split <;> trivial
  | idle => trivial
  | launched => trivial

theorem Asks.of_next (asks : (position.next gnt rData).Asks xfer handle) :
    position.Asks xfer handle := by
  obtain ⟨waits, asks⟩ := asks
  -- only a wait goes on asking after a comparison
  cases position with
  | doneId waits' xfer' handle' =>
    cases gnt with
    | false => exact ⟨waits, asks⟩
    | true =>
      simp only [SpinDmaPos.next, if_true, reduceCtorEq, compare.injEq, false_or] at asks
      obtain ⟨-, rfl, rfl⟩ := asks
      exact ⟨waits', .inl rfl⟩
  | compare waits' xfer' handle' =>
    rw [SpinDmaPos.next] at asks
    split at asks
    · simp only [doneId.injEq, reduceCtorEq, or_false] at asks
      obtain ⟨-, rfl, rfl⟩ := asks
      exact ⟨waits', .inr rfl⟩
    · simp at asks
  | _ => cases gnt <;> simp [SpinDmaPos.next] at asks

/-! What comes right before a position. -/

theorem of_next_tfId (next : position.next gnt rData = tfId) :
    position = tfId ∨ gnt = true ∧ ∃ size, position = numBytes size := by
  cases position with
  | tfId => exact .inl rfl
  | numBytes size =>
    cases gnt with
    | false => simp [SpinDmaPos.next] at next
    | true => exact .inr ⟨rfl, size, rfl⟩
  | compare waits xfer handle =>
    rw [SpinDmaPos.next] at next
    split at next <;> simp at next
  | _ => cases gnt <;> simp [SpinDmaPos.next] at next

theorem of_next_launched (next : position.next gnt rData = launched) :
    position = tfId ∧ gnt = true := by
  cases position with
  | tfId =>
    cases gnt with
    | false => simp [SpinDmaPos.next] at next
    | true => exact ⟨rfl, rfl⟩
  | compare waits xfer handle =>
    rw [SpinDmaPos.next] at next
    split at next <;> simp at next
  | _ => cases gnt <;> simp [SpinDmaPos.next] at next

theorem of_next_compare (next : position.next gnt rData = compare waits xfer handle) :
    position = doneId waits xfer handle ∧ gnt = true := by
  cases position with
  | doneId waits' xfer' handle' =>
    cases gnt with
    | false => simp [SpinDmaPos.next] at next
    | true =>
      simp only [SpinDmaPos.next, if_true, compare.injEq] at next
      obtain ⟨rfl, rfl, rfl⟩ := next
      exact ⟨rfl, rfl⟩
  | compare waits' xfer' handle' =>
    rw [SpinDmaPos.next] at next
    split at next <;> simp at next
  | _ => cases gnt <;> simp [SpinDmaPos.next] at next

/-! What a core asks of the frontend. -/

theorem beValidO_ctrl : beValidO position.ctrl = true ↔ position = tfId := by
  have launches : beValidO (load 0x18) = true := by decide
  have reads : beValidO (load 0x20) = false := by decide
  cases position with
  | tfId => rw [ctrl, launches]; simp
  | doneId waits xfer handle => rw [ctrl, reads]; simp
  | _ => simp [ctrl, store, quiet, beValidO, isRead]

end SpinDmaPos

/-! ## Cores and frontend -/

namespace PulpClusterFrontend

open PulpClusterFrontendRegs

variable {params : PulpClusterFrontendParams}

theorem beValid_corePort (inp : PulpClusterFrontendIn params) (i : params.CoreId) :
    beValid inp (params.corePort i) = beValidO (inp.ctrlTarg i) := by
  simp [beValid, PulpClusterFrontendParams.corePort]

theorem transfDescr_corePort (frontend : PulpClusterFrontend params)
    (inp : PulpClusterFrontendIn params) (i : params.CoreId) :
    frontend.transfDescr inp (params.corePort i) = (frontend.confRegsCores i).transfDescrO := by
  simp [transfDescr, PulpClusterFrontendParams.corePort]

end PulpClusterFrontend

namespace PulpClusterFrontendRegs

variable (regs : PulpClusterFrontendRegs) (beReadyI beBusyI : Bool) (nextIdI doneIdI size : Word)

theorem step_store_numBytesQ :
    (regs.step (SpinDmaPos.store 0x10 size) beReadyI nextIdI doneIdI beBusyI).numBytesQ = size := by
  have all : byteMask 0xf = BitVec.allOnes 32 := by decide
  have writes : (isWrite (SpinDmaPos.store 0x10 size) &&
      decide (regAddr (SpinDmaPos.store 0x10 size) = 0x10)) = true := by
    have there : (SpinDmaPos.privateDmaBase + 0x10).extractLsb' 0 6 = 0x10 := by decide
    rw [regAddr, SpinDmaPos.store, there]
    rfl
  have written : (regs.step (SpinDmaPos.store 0x10 size) beReadyI nextIdI doneIdI beBusyI).numBytesQ =
      writeBytes (SpinDmaPos.store 0x10 size) regs.numBytesQ := if_pos writes
  rw [written, writeBytes, SpinDmaPos.store, all, BitVec.not_allOnes, BitVec.and_zero,
    BitVec.zero_or, BitVec.and_allOnes]

theorem step_load_numBytesQ (offset : Word) :
    (regs.step (SpinDmaPos.load offset) beReadyI nextIdI doneIdI beBusyI).numBytesQ =
      regs.numBytesQ := by
  rfl

theorem step_quiet_numBytesQ :
    (regs.step SpinDmaPos.quiet beReadyI nextIdI doneIdI beBusyI).numBytesQ = regs.numBytesQ :=
  rfl

theorem step_load_tfId :
    (regs.step (SpinDmaPos.load 0x18) beReadyI nextIdI doneIdI beBusyI).rdataQ = nextIdI := by
  rfl

theorem step_load_doneId :
    (regs.step (SpinDmaPos.load 0x20) beReadyI nextIdI doneIdI beBusyI).rdataQ = doneIdI := by
  rfl

end PulpClusterFrontendRegs

namespace SpinDma

open PulpClusterFrontend PulpClusterFrontendRegs SpinDmaPos

variable {params : PulpClusterFrontendParams} {system : SpinDma params} {inp : SpinDmaIn params}
  {i : params.CoreId}

/-- A core that stalls is granted nothing. -/
theorem ctrlTarg_of_gnt (granted : system.ctrlTargGnt inp i = true) :
    system.ctrlTarg inp i = (system.cores i).ctrl := by
  rw [ctrlTargGnt] at granted
  rw [ctrlTarg] at granted ⊢
  split at granted
  next => exact absurd granted Bool.false_ne_true
  next running => rw [if_neg running]

/-- Only a read of `tf_id` may have to wait for its grant. -/
theorem ctrlTargGnt_eq (running : inp.stalls i = false) : system.ctrlTargGnt inp i =
    if system.cores i = .tfId then system.frontend.beReady (system.frontendIn inp) (params.corePort i)
    else (system.cores i).ctrl.ctrlReq := by
  have shown : system.ctrlTarg inp i = (system.cores i).ctrl := by
    rw [ctrlTarg, running, if_neg Bool.false_ne_true]
  rw [ctrlTargGnt, shown, ctrlGntO]
  simp only [beValidO_ctrl]

theorem step_cores_idle (idle : system.cores i = .idle) :
    (system.step inp).cores i = start system.xfer? (inp.calls i) := if_pos idle

theorem step_cores (busy : system.cores i ≠ .idle) : (system.step inp).cores i =
    (system.cores i).next (system.ctrlTargGnt inp i) (system.rData i) := if_neg busy

theorem step_regs : (system.step inp).frontend.confRegsCores i =
    (system.frontend.confRegsCores i).step (system.ctrlTarg inp i)
      (system.frontend.beReady (system.frontendIn inp) (params.corePort i))
      system.frontend.transferIdGen.nextQ system.frontend.transferIdGen.completedQ
      (busyO (system.frontendIn inp)) := rfl

theorem moves_step (moves : (system.cores i).Moves) : ((system.step inp).cores i).Moves := by
  by_cases idle : system.cores i = .idle
  · rw [step_cores_idle idle]
    exact moves_start
  · rw [step_cores idle]
    exact moves.next

theorem asks_step {xfer : XferId params.CoreId} {handle : Word}
    (asks : ((system.step inp).cores i).Asks xfer handle) :
    (system.cores i).Asks xfer handle ∨ system.xfer? xfer = some handle := by
  by_cases idle : system.cores i = .idle
  · rw [step_cores_idle idle] at asks
    exact .inr (asks_start asks)
  · rw [step_cores idle] at asks
    exact .inl asks.of_next

theorem of_step_tfId (next : (system.step inp).cores i = .tfId) : system.cores i = .tfId ∨
    system.ctrlTargGnt inp i = true ∧ ∃ size, system.cores i = .numBytes size := by
  by_cases idle : system.cores i = .idle
  · rw [step_cores_idle idle] at next
    obtain starts | ⟨_, _, _, starts, -⟩ | ⟨_, _, _, starts, -⟩ :=
      start_cases system.xfer? (inp.calls i) <;> simp [starts] at next
  · rw [step_cores idle] at next
    exact of_next_tfId next

theorem of_step_launched (next : (system.step inp).cores i = .launched) :
    system.cores i = .tfId ∧ system.ctrlTargGnt inp i = true := by
  by_cases idle : system.cores i = .idle
  · rw [step_cores_idle idle] at next
    obtain starts | ⟨_, _, _, starts, -⟩ | ⟨_, _, _, starts, -⟩ :=
      start_cases system.xfer? (inp.calls i) <;> simp [starts] at next
  · rw [step_cores idle] at next
    exact of_next_launched next

theorem of_step_compare {waits : Bool} {xfer : XferId params.CoreId} {handle : Word}
    (next : (system.step inp).cores i = .compare waits xfer handle) :
    system.cores i = .doneId waits xfer handle ∧ system.ctrlTargGnt inp i = true := by
  by_cases idle : system.cores i = .idle
  · rw [step_cores_idle idle] at next
    obtain starts | ⟨_, _, _, starts, -⟩ | ⟨_, _, _, starts, -⟩ :=
      start_cases system.xfer? (inp.calls i) <;> simp [starts] at next
  · rw [step_cores idle] at next
    exact of_next_compare next

/-- A core that is about to start a transfer has written how much it moves. -/
theorem described_step (moves : (system.cores i).Moves)
    (described : system.cores i = .tfId → (system.frontend.confRegsCores i).numBytesQ ≠ 0)
    (next : (system.step inp).cores i = .tfId) :
    ((system.step inp).frontend.confRegsCores i).numBytesQ ≠ 0 := by
  rw [step_regs]
  obtain here | ⟨granted, size, here⟩ := of_step_tfId next
  · rw [ctrlTarg, here]
    split
    · rw [step_quiet_numBytesQ]
      exact described here
    · rw [ctrl, step_load_numBytesQ]
      exact described here
  · rw [ctrlTarg_of_gnt granted, here, ctrl, step_store_numBytesQ]
    rw [here] at moves
    exact (BitVec.pos_iff_ne_zero _).mp moves

/-- Where a core that has started a transfer finds its id. -/
theorem rData_step_tfId (here : system.cores i = .tfId)
    (granted : system.ctrlTargGnt inp i = true) :
    (system.step inp).rData i = system.frontend.transferIdGen.nextQ := by
  rw [rData, step_regs, ctrlTarg_of_gnt granted, here, ctrl, step_load_tfId]

theorem rData_step_doneId {waits : Bool} {xfer : XferId params.CoreId} {handle : Word}
    (here : system.cores i = .doneId waits xfer handle)
    (granted : system.ctrlTargGnt inp i = true) :
    (system.step inp).rData i = system.frontend.transferIdGen.completedQ := by
  rw [rData, step_regs, ctrlTarg_of_gnt granted, here, ctrl, step_load_doneId]

end SpinDma

/-! ## Numbers of transfers -/

namespace DmaHistory

variable {params : PulpClusterFrontendParams}

/-- The number of a transfer that a core started, counted from one. -/
def IsNumberOf (history : DmaHistory params) (i : params.CoreId) (number : Nat) : Prop :=
  ∃ before, number = before + 1 ∧ history.started[before]? = some (params.corePort i)

variable {history : DmaHistory params} {i j : params.CoreId} {number : Nat}
  {frontend : PulpClusterFrontend params} {inp : PulpClusterFrontendIn params}

theorem IsNumberOf.le (numbers : history.IsNumberOf i number) :
    number ≤ history.started.length := by
  obtain ⟨before, rfl, there⟩ := numbers
  exact (List.getElem?_eq_some_iff.mp there).1

/-- A transfer is one core's. -/
theorem IsNumberOf.core_eq (numbers : history.IsNumberOf i number)
    (numbers' : history.IsNumberOf j number) : i = j := by
  obtain ⟨before, rfl, there⟩ := numbers
  obtain ⟨before', same, there'⟩ := numbers'
  obtain rfl := Nat.succ.inj same
  have ports : params.corePort i = params.corePort j := Option.some.inj (there.symm.trans there')
  exact Fin.castSucc_injective _ (Fin.castSucc_injective _ ports)

theorem IsNumberOf.record (numbers : history.IsNumberOf i number) :
    (record frontend history inp).IsNumberOf i number := by
  obtain ⟨before, rfl, there⟩ := numbers
  refine ⟨before, rfl, ?_⟩
  have inside := (List.getElem?_eq_some_iff.mp there).1
  rw [DmaHistory.record, List.getElem?_append_left inside, there]

end DmaHistory

namespace SpinDmaTrace

open PulpClusterFrontend

variable {params : PulpClusterFrontendParams}

/-- One clock edge. -/
def step (trace : SpinDmaTrace params) (inp : SpinDmaIn params) : SpinDmaTrace params :=
  (spinDmaTrace params).step trace inp

/-- A core that has started a transfer and waits for its id. -/
structure Launched (trace : SpinDmaTrace params) (i : params.CoreId) : Prop where
  rData : trace.1.rData i = BitVec.ofNat 32 (trace.2.started i)
  numbers : trace.2.dma.IsNumberOf i (trace.2.started i)
  last : ∀ number ∈ trace.2.numbers i, number < trace.2.started i

/-- The invariant: handles are the numbers of their transfers as far as their width goes, and so is
    what a core is told about them. -/
structure Numbered (trace : SpinDmaTrace params) : Prop where
  latched : trace.1.frontend.rrArbTree.Latched fun _ => true
  nextQ : trace.1.frontend.transferIdGen.nextQ =
    BitVec.ofNat 32 (trace.2.dma.started.length + 1)
  completedQ : trace.1.frontend.transferIdGen.completedQ = BitVec.ofNat 32 trace.2.dma.completed
  moves : ∀ i, (trace.1.cores i).Moves
  described : ∀ i, trace.1.cores i = .tfId → (trace.1.frontend.confRegsCores i).numBytesQ ≠ 0
  launched : ∀ i, trace.1.cores i = .launched → trace.Launched i
  handles : ∀ i, trace.1.xfers i = (trace.2.numbers i).map (BitVec.ofNat 32)
  numbers : ∀ i, ∀ number ∈ trace.2.numbers i, trace.2.dma.IsNumberOf i number
  increasing : ∀ i, (trace.2.numbers i).Pairwise (· < ·)
  asks : ∀ i xfer handle, (trace.1.cores i).Asks xfer handle → trace.1.xfer? xfer = some handle
  reads : ∀ i waits xfer handle, trace.1.cores i = .compare waits xfer handle →
    trace.1.rData i = BitVec.ofNat 32 trace.2.seen
  answers : ∀ i, ∀ answer ∈ trace.2.answers i, ∃ number,
    trace.2.number? answer.xfer = some number ∧
      (answer.completed = true ↔ BitVec.ofNat 32 number ≤ BitVec.ofNat 32 answer.done)

section

variable {trace : SpinDmaTrace params} {inp : SpinDmaIn params} {i : params.CoreId}

/-- A core that reads `tf_id` is the one whose transfer starts. -/
theorem Numbered.issue (inv : trace.Numbered) (here : trace.1.cores i = .tfId)
    (granted : trace.1.ctrlTargGnt inp i = true) :
    trace.1.frontend.issue (trace.1.frontendIn inp) = true ∧
      trace.1.frontend.peIdxArb (trace.1.frontendIn inp) = params.corePort i := by
  have asks : PulpClusterFrontendRegs.beValidO (trace.1.ctrlTarg inp i) = true := by
    rw [SpinDma.ctrlTarg_of_gnt granted, SpinDmaPos.beValidO_ctrl, here]
  have ready : trace.1.frontend.beReady (trace.1.frontendIn inp) (params.corePort i) = true := by
    rwa [SpinDma.ctrlTargGnt, PulpClusterFrontendRegs.ctrlGntO, if_pos asks] at granted
  have valid : beValid (trace.1.frontendIn inp) (params.corePort i) = true :=
    (beValid_corePort _ i).trans asks
  -- the arbiter grants one core, and it is this one
  have requested : trace.1.frontend.beValidArb (trace.1.frontendIn inp) = true :=
    inv.latched.reqO_of_reqI valid
  obtain ⟨beReady, chosen⟩ := (RrArbTree.gntO_eq_true requested).mp ready
  have descr : trace.1.frontend.transfDescrArb (trace.1.frontendIn inp) =
      (trace.1.frontend.confRegsCores i).transfDescrO := by
    rw [transfDescrArb, peIdxArb, chosen, transfDescr_corePort]
  -- a transfer of no bytes would be granted without being issued
  have some_ : decide ((trace.1.frontend.confRegsCores i).transfDescrO.numBytes ≠ 0) = true :=
    decide_eq_true (inv.described i here)
  refine ⟨?_, chosen⟩
  rw [PulpClusterFrontend.issue, beReady, requested, descr, some_]
  rfl

/-! What one cycle does to the record. -/

theorem step_started : (trace.step inp).2.dma.started = trace.2.dma.started ++
    if trace.1.frontend.issue (trace.1.frontendIn inp)
    then [trace.1.frontend.peIdxArb (trace.1.frontendIn inp)] else [] := rfl

theorem step_xfers : (trace.step inp).1.xfers i =
    trace.1.xfers i ++ if trace.1.cores i = .launched then [trace.1.rData i] else [] := rfl

theorem step_numbers : (trace.step inp).2.numbers i =
    trace.2.numbers i ++ if trace.1.cores i = .launched then [trace.2.started i] else [] := rfl

theorem step_answers : (trace.step inp).2.answers i = trace.2.answers i ++
    (SpinDmaHistory.answer? (trace.1.rData i) trace.2.seen (trace.1.cores i)).toList := rfl

/-- A handle stays where it was put, and so does its number. -/
theorem xfer?_step {xfer : XferId params.CoreId} {handle : Word}
    (found : trace.1.xfer? xfer = some handle) :
    (trace.step inp).1.xfer? xfer = some handle := by
  have inside := (List.getElem?_eq_some_iff.mp found).1
  rw [SpinDma.xfer?, step_xfers, List.getElem?_append_left inside]
  exact found

theorem number?_step {xfer : XferId params.CoreId} {number : Nat}
    (found : trace.2.number? xfer = some number) :
    (trace.step inp).2.number? xfer = some number := by
  have inside := (List.getElem?_eq_some_iff.mp found).1
  rw [SpinDmaHistory.number?, step_numbers, List.getElem?_append_left inside]
  exact found

/-- A core is told something when it compares. -/
theorem answer?_eq_some {position : SpinDmaPos params.CoreId} {rData : Word} {seen : Nat}
    {answer : DmaAnswer params.CoreId}
    (told : SpinDmaHistory.answer? rData seen position = some answer) :
    ∃ waits handle, position = .compare waits answer.xfer handle ∧ answer.done = seen ∧
      (answer.completed = true ↔ handle ≤ rData) := by
  cases position with
  | compare waits xfer handle =>
    cases waits with
    | true =>
      obtain rfl := Option.some.inj told
      refine ⟨true, handle, rfl, rfl, ?_⟩
      simp [spinWaits]
    | false =>
      obtain rfl := Option.some.inj told
      exact ⟨false, handle, rfl, rfl, decide_eq_true_iff⟩
  | _ => exact absurd told nofun

namespace Numbered

theorem reset : Numbered (spinDmaTrace params).reset where
  latched := .reset _
  nextQ := rfl
  completedQ := rfl
  moves _ := trivial
  described _ here := absurd here nofun
  launched _ here := absurd here nofun
  handles _ := rfl
  numbers _ _ number := absurd number List.not_mem_nil
  increasing _ := .nil
  asks _ _ _ asks := by
    obtain ⟨waits, here⟩ := asks
    exact absurd here (by simp [spinDmaTrace, spinDma, SpinDma.reset])
  reads _ _ _ _ here := absurd here nofun
  answers _ _ answer := absurd answer List.not_mem_nil

variable (inv : trace.Numbered)

include inv

theorem number?_of_xfer? {xfer : XferId params.CoreId} {handle : Word}
    (found : trace.1.xfer? xfer = some handle) :
    ∃ number, trace.2.number? xfer = some number ∧ BitVec.ofNat 32 number = handle := by
  rw [SpinDma.xfer?, inv.handles, List.getElem?_map, Option.map_eq_some_iff] at found
  exact found

theorem nextQ_step : (trace.step inp).1.frontend.transferIdGen.nextQ =
    BitVec.ofNat 32 ((trace.step inp).2.dma.started.length + 1) := by
  have next : (trace.step inp).1.frontend.transferIdGen.nextQ =
    if trace.1.frontend.issue (trace.1.frontendIn inp)
    then trace.1.frontend.transferIdGen.nextQ + 1 else trace.1.frontend.transferIdGen.nextQ := rfl
  rw [next, step_started, inv.nextQ]
  split
  · rw [List.length_append, List.length_singleton]
    exact (BitVec.ofNat_add _ 1).symm
  · rw [List.append_nil]

theorem completedQ_step : (trace.step inp).1.frontend.transferIdGen.completedQ =
    BitVec.ofNat 32 (trace.step inp).2.dma.completed := by
  have next : (trace.step inp).1.frontend.transferIdGen.completedQ = if inp.transComplete
    then trace.1.frontend.transferIdGen.completedQ + 1
    else trace.1.frontend.transferIdGen.completedQ := rfl
  have completed : (trace.step inp).2.dma.completed =
    trace.2.dma.completed + inp.transComplete.toNat := rfl
  rw [next, completed, inv.completedQ]
  cases inp.transComplete with
  | false => rfl
  | true => exact (BitVec.ofNat_add _ 1).symm

theorem launched_step (next : (trace.step inp).1.cores i = .launched) :
    (trace.step inp).Launched i := by
  obtain ⟨here, granted⟩ := SpinDma.of_step_launched next
  obtain ⟨issued, port⟩ := inv.issue here granted
  have started : (trace.step inp).2.started i = trace.2.dma.started.length + 1 :=
    if_pos ⟨here, granted⟩
  have numbers : (trace.step inp).2.numbers i = trace.2.numbers i := by
    rw [step_numbers, here, if_neg (by simp), List.append_nil]
  refine ⟨?_, ?_, fun number there => ?_⟩
  · rw [started]
    exact (SpinDma.rData_step_tfId here granted).trans inv.nextQ
  · refine ⟨trace.2.dma.started.length, started, ?_⟩
    rw [step_started, if_pos issued, port, List.getElem?_concat_length]
  · rw [numbers] at there
    rw [started]
    exact Nat.lt_succ_of_le (inv.numbers i number there).le

theorem numbers_step {number : Nat} (there : number ∈ (trace.step inp).2.numbers i) :
    (trace.step inp).2.dma.IsNumberOf i number := by
  rw [step_numbers, List.mem_append] at there
  refine DmaHistory.IsNumberOf.record ?_
  obtain before | last := there
  · exact inv.numbers i number before
  · split at last
    next here =>
      obtain rfl := List.mem_singleton.mp last
      exact (inv.launched i here).numbers
    next => exact absurd last List.not_mem_nil

theorem increasing_step : ((trace.step inp).2.numbers i).Pairwise (· < ·) := by
  rw [step_numbers]
  split
  next here =>
    refine List.pairwise_append.mpr ⟨inv.increasing i, List.pairwise_singleton _ _, ?_⟩
    intro number before last there
    obtain rfl := List.mem_singleton.mp there
    exact (inv.launched i here).last number before
  next =>
    rw [List.append_nil]
    exact inv.increasing i

theorem handles_step :
    (trace.step inp).1.xfers i = ((trace.step inp).2.numbers i).map (BitVec.ofNat 32) := by
  rw [step_xfers, step_numbers, List.map_append, inv.handles]
  split
  next here => rw [(inv.launched i here).rData, List.map_singleton]
  next => rfl

/-- Whatever the numbers are, a core is told how they compare as far as their width goes. -/
theorem answers_step {answer : DmaAnswer params.CoreId}
    (told : answer ∈ (trace.step inp).2.answers i) :
    ∃ number, (trace.step inp).2.number? answer.xfer = some number ∧
      (answer.completed = true ↔ BitVec.ofNat 32 number ≤ BitVec.ofNat 32 answer.done) := by
  rw [step_answers, List.mem_append, Option.mem_toList] at told
  obtain before | now := told
  · obtain ⟨number, found, compares⟩ := inv.answers i answer before
    exact ⟨number, number?_step found, compares⟩
  · obtain ⟨waits, handle, here, seen, compares⟩ := answer?_eq_some now
    obtain ⟨number, found, rfl⟩ := inv.number?_of_xfer? (inv.asks i _ _ ⟨waits, .inr here⟩)
    refine ⟨number, number?_step found, ?_⟩
    rw [compares, inv.reads i _ _ _ here, seen]

/-- One clock edge keeps the invariant. -/
theorem step : (trace.step inp).Numbered where
  latched := inv.latched.step (fun _ _ => rfl) fun _ _ _ => rfl
  nextQ := inv.nextQ_step
  completedQ := inv.completedQ_step
  moves i := SpinDma.moves_step (inv.moves i)
  described i := SpinDma.described_step (inv.moves i) (inv.described i)
  launched _ := inv.launched_step
  handles _ := inv.handles_step
  numbers _ _ := inv.numbers_step
  increasing _ := inv.increasing_step
  -- a core that asks has asked before or just called
  asks i xfer handle asks := by
    obtain before | starts := SpinDma.asks_step asks
    · exact xfer?_step (inv.asks i xfer handle before)
    · exact xfer?_step starts
  reads i waits xfer handle next := by
    obtain ⟨here, granted⟩ := SpinDma.of_step_compare next
    exact (SpinDma.rData_step_doneId here granted).trans inv.completedQ
  answers _ _ := inv.answers_step

end Numbered

end

end SpinDmaTrace

end Pspin
