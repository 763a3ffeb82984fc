import Pspin.Dma.DmaHandles

/-! # What a handle tells

A call compares a handle with the number of transfers that are complete, both modulo `2 ^ 32`.
Which of the two is smaller tells whether the transfer is complete as long as both numbers are in
one block of `2 ^ 32`; the comparison knows nothing of a wrap-around.
-/

namespace Pspin

open Clocked

namespace SpinDmaTrace

variable {params : PulpClusterFrontendParams} {trace : SpinDmaTrace params}
  {inp : SpinDmaIn params}

/-- The transfers whose handles are there and the last one that is complete have their numbers in
    one block. -/
def SameBlock (trace : SpinDmaTrace params) : Prop :=
  ∀ i, ∀ number ∈ trace.2.numbers i, number / 2 ^ 32 = trace.2.dma.completed / 2 ^ 32

instance (trace : SpinDmaTrace params) : Decidable trace.SameBlock :=
  inferInstanceAs (Decidable (∀ _ : Fin params.numCores, ∀ _ ∈ _, _ = _))

/-- What calls of `spin_dma`, `spin_dma_wait` and `spin_dma_test` promise. -/
structure Tells (trace : SpinDmaTrace params) : Prop where
  /-- A handle is the number of a transfer of the core that got it. -/
  handles : ∀ xfer handle, trace.1.xfer? xfer = some handle → ∃ number,
    trace.2.number? xfer = some number ∧ trace.2.dma.IsNumberOf xfer.1 number ∧
      handle = BitVec.ofNat 32 number
  /-- It is the handle of no other one. -/
  identifies : ∀ xfer xfer' handle, trace.1.xfer? xfer = some handle →
    trace.1.xfer? xfer' = some handle → xfer = xfer'
  /-- A core is told that a transfer is complete if and only if it is. -/
  answers : ∀ i, ∀ answer ∈ trace.2.answers i, ∃ number,
    trace.2.number? answer.xfer = some number ∧ (answer.completed = true ↔ number ≤ answer.done)
  /-- A wait ends only when its transfer is complete. -/
  ends : ∀ i xfer handle inp, trace.1.cores i = .compare true xfer handle →
    (trace.step inp).1.cores i = .idle →
      ∃ number, trace.2.number? xfer = some number ∧ number ≤ trace.2.dma.completed
  /-- Once the transfer is complete a call returns when its next read of `done_id` does. -/
  returns : ∀ i waits xfer handle number inp inp',
    trace.1.cores i = .doneId waits xfer handle → trace.2.number? xfer = some number →
      number ≤ trace.2.dma.completed → inp.stalls i = false →
      ((trace.step inp).step inp').1.cores i = .idle

/-! ## Numbers in one block -/

/-- In one block the order of two numbers is that of what is left of them. -/
theorem ofNat_le_iff {number done : Nat} (same : number / 2 ^ 32 = done / 2 ^ 32) :
    BitVec.ofNat 32 number ≤ BitVec.ofNat 32 done ↔ number ≤ done := by
  rw [BitVec.le_def, BitVec.toNat_ofNat, BitVec.toNat_ofNat]
  omega

theorem ofNat_inj {number number' : Nat} (same : number / 2 ^ 32 = number' / 2 ^ 32)
    (handles : BitVec.ofNat 32 number = BitVec.ofNat 32 number') : number = number' := by
  have left := congrArg BitVec.toNat handles
  rw [BitVec.toNat_ofNat, BitVec.toNat_ofNat] at left
  omega

/-- The invariant of runs in which numbers stay in one block: what a core saw of the transfers that
    are complete was in the block of the number that it asked about. -/
structure Compared (trace : SpinDmaTrace params) : Prop where
  numbered : trace.Numbered
  seen : trace.2.seen ≤ trace.2.dma.completed
  reads : ∀ i waits xfer handle number, trace.1.cores i = .compare waits xfer handle →
    trace.2.number? xfer = some number → number / 2 ^ 32 = trace.2.seen / 2 ^ 32
  answers : ∀ i, ∀ answer ∈ trace.2.answers i, ∀ number,
    trace.2.number? answer.xfer = some number → number / 2 ^ 32 = answer.done / 2 ^ 32

theorem SameBlock.number? (block : trace.SameBlock) {xfer : XferId params.CoreId} {number : Nat}
    (found : trace.2.number? xfer = some number) :
    number / 2 ^ 32 = trace.2.dma.completed / 2 ^ 32 :=
  block xfer.1 number (List.mem_of_getElem? found)

/-- A handle that is there keeps its number. -/
theorem number?_of_step {xfer : XferId params.CoreId} {number number' : Nat}
    (before : trace.2.number? xfer = some number)
    (now : (trace.step inp).2.number? xfer = some number') : number' = number :=
  Option.some.inj (now.symm.trans (number?_step before))

namespace Compared

theorem reset : Compared (spinDmaTrace params).reset where
  numbered := .reset
  seen := Nat.le_refl _
  reads _ _ _ _ _ here := absurd here nofun
  answers _ _ answer := absurd answer List.not_mem_nil

variable (inv : trace.Compared)

include inv

/-- One clock edge keeps the invariant. -/
theorem step (block : trace.SameBlock) : (trace.step inp).Compared where
  numbered := inv.numbered.step
  seen := Nat.le_add_right _ _
  reads i waits xfer handle number next found := by
    obtain ⟨here, -⟩ := SpinDma.of_step_compare next
    obtain ⟨number, before, -⟩ :=
      inv.numbered.number?_of_xfer? (inv.numbered.asks i xfer handle ⟨waits, .inl here⟩)
    obtain rfl := number?_of_step before found
    exact block.number? before
  answers i answer told number found := by
    rw [step_answers, List.mem_append, Option.mem_toList] at told
    obtain before | now := told
    · obtain ⟨number, known, -⟩ := inv.numbered.answers i answer before
      obtain rfl := number?_of_step known found
      exact inv.answers i answer before _ known
    · obtain ⟨waits, handle, here, seen, -⟩ := answer?_eq_some now
      obtain ⟨number, known, -⟩ :=
        inv.numbered.number?_of_xfer? (inv.numbered.asks i _ handle ⟨waits, .inr here⟩)
      obtain rfl := number?_of_step known found
      rw [seen]
      exact inv.reads i waits _ handle _ here known

/-- Two variables with one handle are one variable. -/
theorem identifies (block : trace.SameBlock) {xfer xfer' : XferId params.CoreId} {handle : Word}
    (found : trace.1.xfer? xfer = some handle) (found' : trace.1.xfer? xfer' = some handle) :
    xfer = xfer' := by
  obtain ⟨number, known, same⟩ := inv.numbered.number?_of_xfer? found
  obtain ⟨number', known', same'⟩ := inv.numbered.number?_of_xfer? found'
  obtain rfl : number = number' :=
    ofNat_inj ((block.number? known).trans (block.number? known').symm) (same.trans same'.symm)
  have own := inv.numbered.numbers xfer.1 number (List.mem_of_getElem? known)
  have own' := inv.numbered.numbers xfer'.1 number (List.mem_of_getElem? known')
  have cores : xfer.1 = xfer'.1 := own.core_eq own'
  -- the numbers of one core are all different
  have distinct : (trace.2.numbers xfer.1).Nodup := (inv.numbered.increasing xfer.1).imp Nat.ne_of_lt
  have inside := (List.getElem?_eq_some_iff.mp known).1
  have places : xfer.2 = xfer'.2 := by
    rw [SpinDmaHistory.number?, ← cores] at known'
    exact (List.getElem?_inj inside distinct).mp (known.trans known'.symm)
  exact Prod.ext cores places

/-- A call whose transfer is complete finds that it is. -/
theorem returns (block : trace.SameBlock) {i : params.CoreId} {waits : Bool}
    {xfer : XferId params.CoreId} {handle : Word} {number : Nat} {inp' : SpinDmaIn params}
    (here : trace.1.cores i = .doneId waits xfer handle)
    (known : trace.2.number? xfer = some number) (complete : number ≤ trace.2.dma.completed)
    (running : inp.stalls i = false) : ((trace.step inp).step inp').1.cores i = .idle := by
  have granted : trace.1.ctrlTargGnt inp i = true := by
    rw [SpinDma.ctrlTargGnt_eq running, here, if_neg (by simp)]
    rfl
  have next : (trace.step inp).1.cores i = .compare waits xfer handle := by
    refine (SpinDma.step_cores (by simp [here])).trans ?_
    rw [here, granted]
    rfl
  have read : (trace.step inp).1.rData i = BitVec.ofNat 32 trace.2.dma.completed :=
    (SpinDma.rData_step_doneId here granted).trans inv.numbered.completedQ
  obtain ⟨number', known', same⟩ :=
    inv.numbered.number?_of_xfer? (inv.numbered.asks i xfer handle ⟨waits, .inl here⟩)
  obtain rfl := Option.some.inj (known.symm.trans known')
  have compares : handle ≤ BitVec.ofNat 32 trace.2.dma.completed := by
    rw [← same]
    exact (ofNat_le_iff (block.number? known)).mpr complete
  refine (SpinDma.step_cores (by simp [next])).trans ?_
  rw [next, read, SpinDmaPos.next, spinWaits, decide_eq_false (BitVec.not_lt.mpr compares),
    Bool.and_false]
  rfl

theorem ends {i : params.CoreId} {xfer : XferId params.CoreId} {handle : Word}
    (here : trace.1.cores i = .compare true xfer handle)
    (next : (trace.step inp).1.cores i = .idle) :
    ∃ number, trace.2.number? xfer = some number ∧ number ≤ trace.2.dma.completed := by
  obtain ⟨number, known, same⟩ :=
    inv.numbered.number?_of_xfer? (inv.numbered.asks i xfer handle ⟨true, .inr here⟩)
  refine ⟨number, known, ?_⟩
  have moves : (trace.step inp).1.cores i = _ := SpinDma.step_cores (by simp [here])
  rw [moves, here, SpinDmaPos.next, inv.numbered.reads i true xfer handle here, ← same, Bool.true_and,
    spinWaits] at next
  have compares : BitVec.ofNat 32 number ≤ BitVec.ofNat 32 trace.2.seen := by
    by_contra later
    simp [BitVec.not_le.mp later] at next
  calc number ≤ trace.2.seen := (ofNat_le_iff (inv.reads i true xfer handle _ here known)).mp compares
    _ ≤ trace.2.dma.completed := inv.seen

theorem tells (block : trace.SameBlock) : trace.Tells where
  handles xfer handle found := by
    obtain ⟨number, known, same⟩ := inv.numbered.number?_of_xfer? found
    exact ⟨number, known, inv.numbered.numbers xfer.1 number (List.mem_of_getElem? known), same.symm⟩
  identifies _ _ _ := inv.identifies block
  answers i answer told := by
    obtain ⟨number, known, compares⟩ := inv.numbered.answers i answer told
    exact ⟨number, known, compares.trans (ofNat_le_iff (inv.answers i answer told number known))⟩
  ends _ _ _ _ := inv.ends
  returns _ _ _ _ _ _ _ := inv.returns block

end Compared

/-! ## One core alone

A core calls `spin_dma` again and again, and its transfer completes before it calls the next time.
-/

/-- The backend completes only transfers that were started. -/
def Completes (trace : SpinDmaTrace params) (inp : SpinDmaIn params) : Prop :=
  inp.transComplete = true → trace.2.dma.completed < trace.2.dma.started.length

instance (trace : SpinDmaTrace params) (inp : SpinDmaIn params) : Decidable (trace.Completes inp) :=
  inferInstanceAs (Decidable (_ → _))

/-- A cycle in which other cores call nothing and the backend is ready. -/
def only (i : params.CoreId) (call : Option (SpinDmaCall params.CoreId)) (complete : Bool) :
    SpinDmaIn params where
  calls := fun j => if j = i then call else none
  stalls := fun _ => false
  ctrlPeTarg := SpinDmaPos.quiet
  dmaReqValidI := false
  dmaReqI := default
  beReadyArb := true
  beIdle := true
  transComplete := complete

/-- A core is in a call after the transfers of a number of calls are complete. -/
structure At (i : params.CoreId) (position : SpinDmaPos params.CoreId) (calls : Nat)
    (trace : SpinDmaTrace params) : Prop where
  numbered : trace.Numbered
  here : trace.1.cores i = position
  others : ∀ j, j ≠ i → trace.1.cores j = .idle
  unlocked : trace.1.frontend.rrArbTree.lockQ = false
  completed : trace.2.dma.completed = calls
  numbers : trace.2.numbers i = List.range' 1 calls
  started : trace.2.dma.started.length = if position = .launched then calls + 1 else calls
  launched : position = .launched → trace.2.started i = calls + 1

namespace At

variable {i : params.CoreId} {position : SpinDmaPos params.CoreId} {calls : Nat}
  {call : Option (SpinDmaCall params.CoreId)} {complete : Bool}

theorem reset : At i .idle 0 (spinDmaTrace params).reset where
  numbered := .reset
  here := rfl
  others _ _ := rfl
  unlocked := rfl
  completed := rfl
  numbers := rfl
  started := rfl
  launched here := absurd here nofun

variable (at_ : At i position calls trace)

include at_

theorem beValid_iff {port : params.Port} :
    PulpClusterFrontend.beValid (trace.1.frontendIn (only i call complete)) port = true ↔
      port = params.corePort i ∧ position = .tfId := by
  cases port using Fin.lastCases with
  | last =>
    have other : Fin.last params.numRegs ≠ params.corePort i := (Fin.castSucc_lt_last _).ne'
    simp [PulpClusterFrontend.beValid, SpinDma.frontendIn, only, other]
  | cast port =>
    cases port using Fin.lastCases with
    | last =>
      have other : (Fin.last params.numCores).castSucc ≠ params.corePort i := fun same =>
        (Fin.castSucc_lt_last i).ne' (Fin.castSucc_injective _ same)
      have quiet : PulpClusterFrontendRegs.beValidO SpinDmaPos.quiet = false := rfl
      simp [PulpClusterFrontend.beValid, SpinDma.frontendIn, only, quiet, other]
    | cast j =>
      have own : PulpClusterFrontend.beValid (trace.1.frontendIn (only i call complete))
          (params.corePort j) = PulpClusterFrontendRegs.beValidO (trace.1.cores j).ctrl :=
        PulpClusterFrontend.beValid_corePort _ j
      have ports : j.castSucc.castSucc = params.corePort i ↔ j = i := by
        simp [PulpClusterFrontendParams.corePort]
      rw [ports]
      refine (Bool.eq_iff_iff.mp own).trans ?_
      rw [SpinDmaPos.beValidO_ctrl]
      by_cases same : j = i
      · rw [same, at_.here]
        simp
      · simp [at_.others j same, same]

theorem reqD_eq (reqI : params.Port → Bool) : trace.1.frontend.rrArbTree.reqD reqI = reqI := by
  rw [RrArbTree.reqD, at_.unlocked, if_neg Bool.false_ne_true, ite_self]

theorem completes (returns : complete = true → position = .launched) :
    trace.Completes (only i call complete) := by
  intro completed
  rw [at_.completed, at_.started, if_pos (returns completed)]
  exact Nat.lt_succ_self calls

/-- The core is granted what it asks for. -/
theorem granted (asks : position.ctrl.ctrlReq = true) :
    trace.1.ctrlTargGnt (only i call complete) i = true := by
  rw [SpinDma.ctrlTargGnt_eq rfl, at_.here]
  split
  next here =>
    have requested : trace.1.frontend.rrArbTree.reqO
        (PulpClusterFrontend.beValid (trace.1.frontendIn (only i call complete))) = true := by
      rw [RrArbTree.reqO_eq_true, at_.reqD_eq]
      exact ⟨params.corePort i, at_.beValid_iff.mpr ⟨rfl, here⟩⟩
    obtain ⟨port, chosen, asked⟩ := RrArbTree.root_winner requested
    rw [at_.reqD_eq] at asked
    obtain rfl := (at_.beValid_iff.mp asked).1
    rw [PulpClusterFrontend.beReady, RrArbTree.gntO, chosen]
    simp [SpinDma.frontendIn, only]
  next => exact asks

theorem issue_eq : trace.1.frontend.issue (trace.1.frontendIn (only i call complete)) =
      decide (position = .tfId) := by
  by_cases here : position = .tfId
  · have granted : trace.1.ctrlTargGnt (only i call complete) i = true :=
      at_.granted (by rw [here]; rfl)
    rw [decide_eq_true here]
    exact (at_.numbered.issue (at_.here.trans here) granted).1
  · have none : trace.1.frontend.beValidArb (trace.1.frontendIn (only i call complete)) = false := by
      rw [PulpClusterFrontend.beValidArb, ← Bool.not_eq_true, RrArbTree.reqO_eq_true, at_.reqD_eq]
      rintro ⟨port, asked⟩
      exact here (at_.beValid_iff.mp asked).2
    rw [PulpClusterFrontend.issue, none, Bool.and_false, Bool.false_and, decide_eq_false here]

theorem others_step {j : params.CoreId} (other : j ≠ i) :
    (trace.step (only i call complete)).1.cores j = .idle := by
  have none : (only i call complete).calls j = none := if_neg other
  refine (SpinDma.step_cores_idle (at_.others j other)).trans ?_
  rw [none]
  rfl

omit at_ in
theorem unlocked_step :
    (trace.step (only i call complete)).1.frontend.rrArbTree.lockQ = false :=
  Bool.and_false _

theorem started_step :
    (trace.step (only i call complete)).2.dma.started.length =
      trace.2.dma.started.length + if position = .tfId then 1 else 0 := by
  rw [step_started, at_.issue_eq, List.length_append]
  by_cases here : position = .tfId <;> simp [here]

/-- A core that is granted what it asks for goes on. -/
theorem step_cores (asks : position.ctrl.ctrlReq = true) :
    (trace.step (only i call complete)).1.cores i = position.next true (trace.1.rData i) := by
  have busy : trace.1.cores i ≠ .idle := by
    rintro idle
    rw [← at_.here, idle] at asks
    exact Bool.false_ne_true asks
  refine (SpinDma.step_cores busy).trans ?_
  rw [at_.granted asks, at_.here]

theorem launched_step_iff : (trace.step (only i call complete)).1.cores i = .launched ↔
    position = .tfId := by
  constructor
  · intro next
    exact at_.here.symm.trans (SpinDma.of_step_launched next).1
  · rintro rfl
    exact at_.step_cores rfl

/-- A cycle before the handle is there, or one of a call that asks about a handle. -/
theorem cycle (before : position ≠ .launched) {next : SpinDmaPos params.CoreId}
    (goes : (trace.step (only i call false)).1.cores i = next) :
    At i next calls (trace.step (only i call false)) where
  numbered := at_.numbered.step
  here := goes
  others _ := at_.others_step
  unlocked := unlocked_step
  completed := at_.completed
  numbers := by
    rw [step_numbers, at_.here, at_.numbers, if_neg before, List.append_nil]
  started := by
    rw [at_.started_step, at_.started, if_neg before]
    simp only [← goes, at_.launched_step_iff]
    split <;> rfl
  launched here := by
    obtain ⟨launches, granted⟩ := SpinDma.of_step_launched (goes.trans here)
    have started : (trace.step (only i call false)).2.started i = trace.2.dma.started.length + 1 :=
      if_pos ⟨launches, granted⟩
    rw [started, at_.started, if_neg before]

omit at_ in
/-- The transfer is complete when the core gets its handle. -/
theorem returned (at_ : At i .launched calls trace) :
    At i .idle (calls + 1) (trace.step (only i call true)) where
  numbered := at_.numbered.step
  here := by
    refine (SpinDma.step_cores (by simp [at_.here])).trans ?_
    rw [at_.here]
    rfl
  others _ := at_.others_step
  unlocked := unlocked_step
  completed := congrArg (· + 1) at_.completed
  numbers := by
    rw [step_numbers, at_.here, at_.numbers, if_pos rfl, at_.launched rfl, List.range'_concat,
      Nat.one_mul, Nat.add_comm 1]
  started := by
    rw [at_.started_step, at_.started]
    simp
  launched here := absurd here (by simp)

omit at_ in
theorem step_cores_idle (at_ : At i .idle calls trace) :
    (trace.step (only i call complete)).1.cores i = SpinDmaPos.start trace.1.xfer? call := by
  have called : (only i call complete).calls i = call := if_pos rfl
  refine (SpinDma.step_cores_idle at_.here).trans ?_
  rw [called]

/-- A cycle in which the core accesses a register. -/
theorem goesOn (asks : position.ctrl.ctrlReq = true) : trace.Completes (only i call false) ∧
      At i (position.next true (trace.1.rData i)) calls (trace.step (only i call false)) := by
  have before : position ≠ .launched := by
    rintro rfl
    exact Bool.false_ne_true asks
  exact ⟨at_.completes (by simp), at_.cycle before (at_.step_cores asks)⟩

end At

/-- The cycles of a call of `spin_dma`. -/
def spinDmaCycles (i : params.CoreId) : List (SpinDmaIn params) :=
  [only i (some (.dma 0 0 1)) false, only i none false, only i none false, only i none false,
    only i none false, only i none true]

/-- The cycles of a call of `spin_dma_test` for the first handle of the core. -/
def spinDmaTestCycles (i : params.CoreId) : List (SpinDmaIn params) :=
  [only i (some (.test (i, 0))) false, only i none false, only i none false]

/-- A core calls `spin_dma` a number of times and then tests its first handle. -/
def manyCalls (i : params.CoreId) (calls : Nat) : List (SpinDmaIn params) :=
  (List.replicate calls (spinDmaCycles i)).flatten ++ spinDmaTestCycles i

theorem leads_spinDma (i : params.CoreId) (calls : Nat) :
    (spinDmaTrace params).Leads Completes (spinDmaCycles i) (At i .idle calls)
      (At i .idle (calls + 1)) := by
  refine .cons (Q := At i (.srcAddr 0 0 1) calls) (fun trace at_ => ?_) ?_
  · exact ⟨at_.completes (by simp), at_.cycle (by simp) at_.step_cores_idle⟩
  refine .cons (Q := At i (.dstAddr 0 1) calls) (fun trace at_ => ?_) ?_
  · exact at_.goesOn rfl
  refine .cons (Q := At i (.numBytes 1) calls) (fun trace at_ => ?_) ?_
  · exact at_.goesOn rfl
  refine .cons (Q := At i .tfId calls) (fun trace at_ => ?_) ?_
  · exact at_.goesOn rfl
  refine .cons (Q := At i .launched calls) (fun trace at_ => ?_) ?_
  · exact at_.goesOn rfl
  exact .cons (fun trace at_ => ⟨at_.completes fun _ => rfl, at_.returned⟩) (.nil fun _ => id)

theorem At.first {i : params.CoreId} {position : SpinDmaPos params.CoreId} {calls : Nat}
    (at_ : At i position calls trace) (some_ : 0 < calls) :
    trace.2.number? (i, 0) = some 1 ∧ trace.1.xfer? (i, 0) = some 1 := by
  have known : trace.2.number? (i, 0) = some 1 := by
    rw [SpinDmaHistory.number?, at_.numbers, List.getElem?_range' some_]
  refine ⟨known, ?_⟩
  rw [SpinDma.xfer?, at_.numbered.handles, List.getElem?_map]
  rw [SpinDmaHistory.number?] at known
  rw [known]
  rfl

/-- A core was told about its first handle when its calls were complete. -/
def Told (i : params.CoreId) (calls : Nat) (trace : SpinDmaTrace params) : Prop :=
  trace.Numbered ∧ trace.2.number? (i, 0) = some 1 ∧
    ∃ answer ∈ trace.2.answers i, answer.xfer = (i, 0) ∧ answer.done = calls

theorem leads_spinDmaTest (i : params.CoreId) {calls : Nat} (some_ : 0 < calls) :
    (spinDmaTrace params).Leads Completes (spinDmaTestCycles i) (At i .idle calls) (Told i calls) := by
  refine .cons (Q := At i (.doneId false (i, 0) 1) calls) (fun trace at_ => ?_) ?_
  · refine ⟨at_.completes (by simp), at_.cycle (by simp) (at_.step_cores_idle.trans ?_)⟩
    rw [SpinDmaPos.start, (at_.first some_).2]
    rfl
  refine .cons (Q := fun trace => At i (.compare false (i, 0) 1) calls trace ∧ trace.2.seen = calls)
    (fun trace at_ => ?_) ?_
  · obtain ⟨completes, next⟩ := at_.goesOn rfl
    exact ⟨completes, next, at_.completed⟩
  refine .cons (fun trace reads => ?_) (.nil fun _ => id)
  obtain ⟨at_, seen⟩ := reads
  refine ⟨at_.completes (by simp), at_.numbered.step, number?_step (at_.first some_).1, ?_⟩
  have answers : (trace.step (only i none false)).2.answers i = trace.2.answers i ++
      [⟨(i, 0), spinTfCompleted 1 (trace.1.rData i), trace.2.seen⟩] := by
    rw [step_answers, at_.here]
    rfl
  exact ⟨_, answers ▸ List.mem_append_right _ (List.mem_singleton.mpr rfl), rfl, seen⟩

theorem told_manyCalls (i : params.CoreId) {calls : Nat} (some_ : 0 < calls) :
    (spinDmaTrace params).Admits Completes (manyCalls i calls) ∧
      Told i calls ((spinDmaTrace params).run (manyCalls i calls)) := by
  have start : (spinDmaTrace params).Leads Completes [] (· = (spinDmaTrace params).reset)
      (At i .idle 0) := .nil fun _ same => same ▸ At.reset
  have leads := (start.append (.turns (leads_spinDma i) calls)).append (leads_spinDmaTest i some_)
  exact leads _ rfl

/-- The handle of the first transfer is one, and `done_id` is zero when `2 ^ 32` are complete. -/
theorem Told.not_tells {i : params.CoreId} (told : Told i (2 ^ 32) trace) : ¬trace.Tells := by
  obtain ⟨numbered, known, answer, given, same, done⟩ := told
  intro tells
  obtain ⟨number, found, compares⟩ := numbered.answers i answer given
  obtain ⟨number', found', promised⟩ := tells.answers i answer given
  rw [same] at found found'
  obtain rfl := Option.some.inj (known.symm.trans found)
  obtain rfl := Option.some.inj (known.symm.trans found')
  rw [done] at compares promised
  have wraps : ¬BitVec.ofNat 32 1 ≤ BitVec.ofNat 32 (2 ^ 32) := by decide
  exact wraps (compares.mp (promised.mpr (Nat.two_pow_pos 32)))

end SpinDmaTrace

open SpinDmaTrace

/-- Calls keep their promises as long as the handles that are there and the transfers that are
    complete have their numbers in one block of `2 ^ 32`. -/
theorem spinDma_tells (params : PulpClusterFrontendParams) (inputs : List (SpinDmaIn params))
    (block : ∀ before after, inputs = before ++ after → ((spinDmaTrace params).run before).SameBlock) :
    ((spinDmaTrace params).run inputs).Tells := by
  have steps : (spinDmaTrace params).Admits (fun trace _ => trace.SameBlock) inputs :=
    Machine.admitsFrom_iff.mpr fun before inp after => block before (inp :: after)
  have inv : ((spinDmaTrace params).run inputs).Compared :=
    steps.invariant Compared Compared.reset fun _ _ inv now => inv.step now
  exact inv.tells (block inputs [] (List.append_nil inputs).symm)

/-- The second core waits for a transfer of the first one, which completes while it waits. -/
theorem spinDma_tells_waiting :
    let params : PulpClusterFrontendParams := ⟨2, 1, 1⟩
    let inputs : List (SpinDmaIn params) :=
      (spinDmaCycles 0).dropLast ++
        [only 0 none false, only 1 (some (.wait (0, 0))) false, only 1 none false, only 1 none true,
          only 1 none false, only 1 none false]
    (spinDmaTrace params).Admits Completes inputs ∧
      ((spinDmaTrace params).run inputs).2.answers 1 = [⟨(0, 0), false, 0⟩, ⟨(0, 0), true, 1⟩] ∧
      ((spinDmaTrace params).run inputs).Tells := by
  intro params inputs
  refine ⟨by decide +kernel, by decide +kernel, spinDma_tells params inputs ?_⟩
  have blocks : ∀ before ∈ inputs.inits, ((spinDmaTrace params).run before).SameBlock := by
    decide +kernel
  exact fun before after split => blocks before ((List.mem_inits before inputs).mpr ⟨after, split.symm⟩)

/-- At the deployed sizes: a core is told that its first transfer is not complete after `2 ^ 32`
    of its transfers are. -/
theorem spinDma_forgets :
    let params : PulpClusterFrontendParams := ⟨numCores, 12, bufferedHersPerCluster⟩
    let inputs : List (SpinDmaIn params) := manyCalls ⟨0, by decide⟩ (2 ^ 32)
    (spinDmaTrace params).Admits Completes inputs ∧ ¬((spinDmaTrace params).run inputs).Tells := by
  intro params inputs
  obtain ⟨admitted, told⟩ := told_manyCalls (⟨0, by decide⟩ : params.CoreId) (Nat.two_pow_pos 32)
  exact ⟨admitted, told.not_tells⟩

end Pspin
