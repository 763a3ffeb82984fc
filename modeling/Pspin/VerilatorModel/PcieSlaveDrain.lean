import Pspin.VerilatorModel.PcieSlave

/-! # Writes to the host get there

From wherever the slave is, the bursts that are left can be sent to the host: when beats are offered in
every cycle, responses are taken in every cycle and time passes, each stage of a cycle either has nothing
to do or brings a beat closer to the host.  So whatever the delays, the calls of all bursts are made.
-/

namespace Pspin

open Clocked

/-- A cycle that offers beats and takes a response. -/
structure PcieSlaveIn.Drains (inp : PcieSlaveIn) : Prop where
  awValid : inp.awValid = true
  wValid : inp.wValid = true
  bReady : inp.bReady = true

/-! What is left to be done: a request keeps the next one waiting for as many cycles as its gap. -/

def WBeatRequest.load (params : PcieSlaveParams) (req : WBeatRequest) : Nat :=
  params.gap req.dataSize + 4

def WBeat.load (params : PcieSlaveParams) (wBeat : WBeat) : Nat :=
  params.gap (popcount wBeat.wStrb + popcount fun lane => wBeat.wStrb (32 + lane)) + 5

def WriteBurst.load (params : PcieSlaveParams) (burst : WriteBurst) : Nat :=
  (burst.beats.map (WBeat.load params)).sum + 1

namespace PcieWrites

def load (params : PcieSlaveParams) (writes : PcieWrites) : Nat :=
  (writes.awLeft.map (WriteBurst.load params)).sum + (writes.wLeft.map (WBeat.load params)).sum +
    (writes.wBeatRequests.map (WBeatRequest.load params)).sum +
      3 * writes.inFlightWriteRequests.length + 2 * writes.bBeats + writes.bValid.toNat +
        writes.bWait.toNat + writes.writeWaitCycles

section Load

variable {params : PcieSlaveParams} {bursts : List WriteBurst} {writes writes' : PcieWrites}

/-- The oldest request on the link is due. -/
def Due (writes : PcieWrites) (simTime : Nat) : Prop :=
  ∀ entry ∈ writes.inFlightWriteRequests.head?, entry.2 ≤ simTime

theorem progressInFlightWrites_load {simTime : Nat} (due : writes.Due simTime)
    (handed : writes.progressInFlightWrites params simTime = some writes') :
    Works (load params) (writes.inFlightWriteRequests = [] ∨ writes.canSendBBeat params = false)
      writes writes' := by
  rw [PcieWrites.progressInFlightWrites] at handed
  cases inFlight : writes.inFlightWriteRequests with
  | nil =>
    rw [inFlight] at handed
    exact Or.inl ⟨(Option.some.inj handed).symm, Or.inl rfl⟩
  | cons entry inFlight' =>
    obtain ⟨req, time⟩ := entry
    have now : time ≤ simTime := due (req, time) (by rw [inFlight]; rfl)
    simp only [inFlight] at handed
    by_cases room : writes.canSendBBeat params = true
    · rw [if_pos ⟨now, room⟩] at handed
      right
      split at handed
      next => cases handed
      next =>
        split at handed
        next =>
          -- the last beat of a burst leaves a response
          cases pending : writes.awPendingResp with
          | nil =>
            rw [pending] at handed
            cases handed
          | cons aw awPendingResp =>
            rw [pending] at handed
            rw [← Option.some.inj handed]
            simp only [load, inFlight, List.length_cons]
            omega
        next =>
          rw [← Option.some.inj handed]
          simp only [load, inFlight, List.length_cons]
          omega
    · rw [if_neg fun both => room both.2] at handed
      exact Or.inl ⟨(Option.some.inj handed).symm, Or.inr (Bool.not_eq_true _ ▸ room)⟩

theorem awPosedge_load (writes : PcieWrites) (params : PcieSlaveParams) :
    Works (load params) (writes.awLeft = [] ∨
      0 < params.awBufferSize ∧ params.awBufferSize ≤ writes.awBeats.length)
        writes (writes.awPosedge params true) := by
  rw [PcieWrites.awPosedge]
  cases awLeft : writes.awLeft with
  | nil => exact Or.inl ⟨rfl, Or.inl rfl⟩
  | cons burst awLeft' =>
    show Works _ _ writes (if _ then _ else _)
    split
    next =>
      right
      simp only [load, awLeft, List.map_cons, List.sum_cons, List.map_append, List.sum_append,
        WriteBurst.load]
      omega
    next full =>
      rw [eq_self, true_and, not_or] at full
      exact Or.inl ⟨rfl, Or.inr (by omega)⟩

theorem wPosedge_load (taken : writes.wPosedge params true = some writes') :
    Works (load params) (writes.wLeft = [] ∨
      0 < params.wBufferSize ∧ params.wBufferSize ≤ writes.wBeatRequests.length) writes writes' := by
  rw [PcieWrites.wPosedge] at taken
  cases wLeft : writes.wLeft with
  | nil =>
    rw [wLeft] at taken
    exact Or.inl ⟨(Option.some.inj taken).symm, Or.inl rfl⟩
  | cons wBeat wLeft' =>
    simp only [wLeft] at taken
    split at taken
    next =>
      right
      cases awBeats : writes.awBeats with
      | nil =>
        rw [awBeats] at taken
        cases taken
      | cons aw awBeats' =>
        simp only [awBeats] at taken
        -- whether or not the beat is the last one of its burst, it becomes a request
        split at taken <;>
          rw [← Option.some.inj taken] <;>
          simp only [load, wLeft, List.map_cons, List.sum_cons, List.map_append, List.sum_append,
            List.map_nil, List.sum_nil, WBeat.load, WBeatRequest.load] <;>
          omega
    next full =>
      rw [true_and, not_or] at full
      exact Or.inl ⟨(Option.some.inj taken).symm, Or.inr (by omega)⟩

theorem bPosedge_load (writes : PcieWrites) (params : PcieSlaveParams) :
    Works (load params) (writes.bWait = true ∨ writes.bBeats = 0) writes writes.bPosedge := by
  rw [PcieWrites.bPosedge]
  split
  next waits => exact Or.inl ⟨rfl, Or.inl waits⟩
  next =>
    split
    next none_ =>
      cases valid : writes.bValid with
      | false =>
        have same : { writes with bValid := false } = writes := by rw [← valid]
        exact Or.inl ⟨same, Or.inr none_⟩
      | true =>
        right
        simp only [load, valid, Bool.toNat_true, Bool.toNat_false]
        omega
    next some_ =>
      right
      have valid := Bool.toNat_le writes.bValid
      simp only [load, Bool.toNat_true]
      omega

theorem progressNewWrites_load (writes : PcieWrites) (params : PcieSlaveParams) (simTime : Nat) :
    Works (load params) (writes.wBeatRequests = []) writes
      (writes.progressNewWrites params simTime) := by
  rw [PcieWrites.progressNewWrites]
  dsimp only
  split
  next waits =>
    right
    simp only [load]
    omega
  next =>
    cases requests : writes.wBeatRequests with
    | nil =>
      by_cases none_ : writes.writeWaitCycles = 0
      · have same : { writes with writeWaitCycles := writes.writeWaitCycles - 1 } = writes := by
          rw [none_, Nat.zero_sub, ← none_]
        rw [requests] at same
        exact Or.inl ⟨same, rfl⟩
      · right
        simp only [load, requests]
        omega
    | cons req wBeatRequests =>
      right
      simp only [load, requests, List.map_cons, List.sum_cons, List.length_append,
        List.length_singleton, WBeatRequest.load]
      omega

/-- The response that is offered is taken. -/
theorem bNegedge_load (writes : PcieWrites) (params : PcieSlaveParams) :
    Works (load params) (writes.bWait = false) writes { writes with bWait := false } := by
  cases waits : writes.bWait with
  | false =>
    have same : { writes with bWait := false } = writes := by rw [← waits]
    exact Or.inl ⟨same, rfl⟩
  | true =>
    right
    simp only [load, waits, Bool.toNat_true, Bool.toNat_false]
    omega

/-- A cycle brings a beat closer to the host until nothing is on its way. -/
theorem Sends.cycle_load (sends : writes.Sends bursts) (params : PcieSlaveParams)
    {inp : PcieSlaveIn} (drains : inp.Drains) (due : writes.Due inp.simTime)
    (busy : ¬writes.Drained) : ∃ writes', writes.cycle params inp = some writes' ∧
      writes'.Sends bursts ∧ writes'.load params < writes.load params := by
  obtain ⟨handed, isHanded, handedSends⟩ := sends.progressInFlightWrites params inp.simTime
  obtain ⟨taken, isTaken, takenSends⟩ := (handedSends.awPosedge params true).wPosedge params true
  obtain ⟨writes', stepped, holds⟩ := sends.cycle params inp
  refine ⟨writes', stepped, holds, ?_⟩
  have isNext : { taken.bPosedge.progressNewWrites params inp.simTime with bWait := false } =
      writes' := by
    rw [PcieWrites.cycle, drains.awValid, drains.wValid, drains.bReady] at stepped
    simpa only [isHanded, isTaken, Option.bind_eq_bind, Option.bind_some, Bool.not_true,
      Bool.and_false, Option.some.injEq] using stepped
  have works := ((((progressInFlightWrites_load due isHanded).trans
    (handed.awPosedge_load params)).trans (wPosedge_load isTaken)).trans
      (taken.bPosedge_load params)).trans
        ((taken.bPosedge.progressNewWrites_load params inp.simTime).trans (bNegedge_load _ params))
  rw [isNext] at works
  by_contra more
  -- when no stage does anything, none has anything to do
  obtain ⟨-, responded, ⟨sameTaken, ⟨sameAw, ⟨sameHanded, link, aw⟩, w⟩, b⟩, sameNew, requests, waits⟩ :=
    works.still (by omega)
  rw [sameHanded] at aw
  rw [sameAw] at w
  rw [sameTaken] at b
  rw [responded] at requests
  rw [sameNew, responded] at waits
  have noBeats : writes.wLeft = [] := by
    refine w.resolve_right fun full => ?_
    rw [requests] at full
    exact absurd full.2 (Nat.not_le.mpr full.1)
  have noBursts : writes.awLeft = [] := by
    refine aw.resolve_right fun full => ?_
    rw [← sends.taken, noBeats] at full
    exact absurd full.2 (Nat.not_le.mpr full.1)
  have noResponses : writes.bBeats = 0 := b.resolve_left (Bool.eq_false_iff.mp waits)
  have room : writes.canSendBBeat params = true := by
    rw [canSendBBeat, noResponses, Bool.or_eq_true, decide_eq_true_eq, decide_eq_true_eq]
    omega
  have noLink : writes.inFlightWriteRequests = [] :=
    link.resolve_right (Bool.ne_false_iff.mpr room)
  exact busy ⟨noBursts, noBeats, by rw [queued, noLink, requests]; rfl⟩

/-- All bursts can be sent to the host, later than at any time. -/
theorem Sends.drains (sends : writes.Sends bursts) (params : PcieSlaveParams) (now : Nat) :
    ∃ inputs writes', (∀ inp ∈ inputs, inp.Drains ∧ now ≤ inp.simTime) ∧
      inputs.Pairwise (fun inp later => inp.simTime ≤ later.simTime) ∧
        (pcieWrites params bursts).runFrom (some writes) inputs = some writes' ∧
          writes'.Sends bursts ∧ writes'.Drained := by
  induction work : writes.load params using Nat.strong_induction_on generalizing writes now with
  | _ work inductionHypothesis =>
    by_cases drained : writes.Drained
    · exact ⟨[], writes, fun _ member => absurd member List.not_mem_nil, .nil, rfl, sends, drained⟩
    · obtain ⟨time, later, due⟩ : ∃ time, now ≤ time ∧ writes.Due time := by
        cases inFlight : writes.inFlightWriteRequests with
        | nil => exact ⟨now, le_rfl, fun entry member => by rw [inFlight] at member; cases member⟩
        | cons entry inFlight' =>
          refine ⟨max now entry.2, le_max_left _ _, fun other isFirst => ?_⟩
          rw [inFlight] at isFirst
          obtain rfl := Option.some.inj isFirst
          exact le_max_right _ _
      have offers : (⟨time, true, true, true⟩ : PcieSlaveIn).Drains := ⟨rfl, rfl, rfl⟩
      obtain ⟨next, stepped, holds, less⟩ := sends.cycle_load params offers due drained
      obtain ⟨inputs, final, allDrain, ordered, run, finally_, empty⟩ :=
        inductionHypothesis (next.load params) (work ▸ less) holds time rfl
      refine ⟨⟨time, true, true, true⟩ :: inputs, final, ?_, ?_, ?_, finally_, empty⟩
      · refine List.forall_mem_cons.mpr ⟨⟨offers, later⟩, fun inp member => ?_⟩
        exact ⟨(allDrain inp member).1, later.trans (allDrain inp member).2⟩
      · exact List.pairwise_cons.mpr ⟨fun inp member => (allDrain inp member).2, ordered⟩
      · rw [← run, ← stepped]
        rfl

end Load

end PcieWrites

/-- The calls for the bursts are made in their order, whatever the delays, and no assertion fails; from
    any time on they can all be made.  Those for a burst store its bytes where their lanes say, and no
    others, exactly if it has one beat or strobes its first byte. -/
theorem pcieWrites_exact_iff (params : PcieSlaveParams) (bursts : List WriteBurst) :
    ∃ calls : List (List SlvWrite),
      List.Forall₂ (fun burst calls => calls.length = burst.awLen + 1 ∧
        ((∀ mem, applySlvWrites calls mem = burst.applied mem) ↔
          burst.awLen = 0 ∨ burst.first = 0)) bursts calls ∧
      ∀ inputs, ∃ writes, (pcieWrites params bursts).run inputs = some writes ∧
        writes.slvWrites <+: calls.flatten ∧ (writes.Drained → writes.slvWrites = calls.flatten) ∧
        ∀ now, ∃ more writes', (∀ inp ∈ more, inp.Drains ∧ now ≤ inp.simTime) ∧
          more.Pairwise (fun inp later => inp.simTime ≤ later.simTime) ∧
            (pcieWrites params bursts).run (inputs ++ more) = some writes' ∧
              writes'.Drained ∧ writes'.slvWrites = calls.flatten := by
  refine ⟨bursts.map WriteBurst.slvWrites, List.forall₂_map_right_iff.mpr ?_, fun inputs => ?_⟩
  · refine List.forall₂_same.mpr fun burst _ => ⟨?_, burst.exact_iff⟩
    rw [WriteBurst.slvWrites_eq, List.length_map, List.length_range]
  · have kept : ∃ writes, (pcieWrites params bursts).run inputs = some writes ∧
        PcieWrites.Sends bursts writes :=
      Machine.failing_run (PcieWrites.Sends bursts) (PcieWrites.reset_sends bursts)
        (fun writes inp (sends : writes.Sends bursts) (_ : True) => sends.cycle params inp)
        fun _ _ => trivial
    obtain ⟨writes, run, sends⟩ := kept
    rw [← List.flatMap_def]
    refine ⟨writes, run, sends.slvWrites_prefix, sends.slvWrites_drained, fun now => ?_⟩
    obtain ⟨more, writes', drain, ordered, goesOn, holds, drained⟩ := sends.drains params now
    exact ⟨more, writes', drain, ordered, (Machine.failing_run_append run).trans goesOn, drained,
      holds.slvWrites_drained drained⟩

/-- A byte at the end of a line and one behind it. -/
def twoBytes : WriteBurst where
  awAddr := 0
  awLen := 1
  first := 63
  stop := 1
  wData _ _ := 7
  len := by decide
  aligned := by decide
  first_lt := by decide
  stop_pos := Nat.one_pos
  stop_le := by decide
  single := by decide

/-- The second byte is stored as many bytes too low as the first beat leaves out. -/
theorem pcieWrites_shifted : ¬∀ (params : PcieSlaveParams) (bursts : List WriteBurst)
    (inputs : List PcieSlaveIn) (writes : PcieWrites),
      (pcieWrites params bursts).run inputs = some writes → writes.Drained →
        ∀ mem, applySlvWrites writes.slvWrites mem =
          bursts.foldl (fun mem burst => burst.applied mem) mem := by
  intro exact_
  have outcome : ((pcieWrites ⟨0, 0, 0, 0, fun _ => 0⟩ [twoBytes]).run
      (List.replicate 3 ⟨0, true, true, true⟩)).map (fun writes =>
        (writes.awLeft.isEmpty, writes.wLeft.isEmpty, writes.queued.isEmpty,
          applySlvWrites writes.slvWrites (fun _ => 0) 64)) = some (true, true, true, 0) := by
    decide +kernel
  have expected : twoBytes.applied (fun _ => 0) 64 = 7 := by decide +kernel
  obtain ⟨writes, run, same⟩ := Option.map_eq_some_iff.mp outcome
  simp only [Prod.mk.injEq, List.isEmpty_iff] at same
  obtain ⟨awLeft, wLeft, queued, stored⟩ := same
  have there := congrFun (exact_ _ _ _ writes run ⟨awLeft, wLeft, queued⟩ fun _ => 0) 64
  rw [stored, List.foldl_cons, List.foldl_nil, expected] at there
  exact absurd there (by decide)

end Pspin
