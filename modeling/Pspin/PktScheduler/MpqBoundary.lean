import Pspin.PktScheduler.MpqLifecycle

/-! # Message boundaries

What becomes of the packets of one message queue when messages follow each other
on it.  As long as a message opens only on a `Free` queue, no packet is left
behind on the way through `Free`: every HER has its payload task from its own
message's metadata, and a queue that holds packets has something to send or waits
for an answer.  A HER that opens a message earlier is queued all the same, and
the queue may become `Free` with its packet in it.
-/

namespace Pspin

open Clocked MpqPlan MpqPhase

namespace MpqPhase

/-- The states an MPQ leaves when a task is answered. -/
def awaits (state : MpqState) : Bool :=
  decide (state = .headerRunning) || decide (state = .payloadDraining) ||
    decide (state = .completionRunning)

/-- The in-flight counter, wrapped or not, and a task to be answered wherever an
    MPQ waits for one. -/
structure Awaited (mpq : Mpq) (unanswered : Nat) : Prop where
  counted : mpq.inFlight = unanswered % 2 ^ mpqCountWidth
  awaited : awaits mpq.state = true → 0 < unanswered

variable {inp : MpqEngineIn} {new sent feedback : Bool} {mpq : Mpq} {unanswered unanswered' : Nat}

theorem inFlightO_mod (counted : mpq.inFlight = unanswered % 2 ^ mpqCountWidth)
    (balance : unanswered' + feedback.toNat = unanswered + sent.toNat) :
    MpqFsm.inFlightO (MpqEngine.fsmIn inp new sent feedback) mpq =
      unanswered' % 2 ^ mpqCountWidth := by
  have wide : 0 < 2 ^ mpqCountWidth := Nat.two_pow_pos _
  cases sent with
  | true =>
    cases feedback with
    | true =>
      obtain rfl : unanswered' = unanswered := by simpa using balance
      exact counted
    | false =>
      obtain rfl : unanswered' = unanswered + 1 := by simpa using balance
      show increment mpqCountWidth mpq.inFlight = _
      rw [increment, counted, Nat.mod_add_mod]
  | false =>
    cases feedback with
    | true =>
      obtain rfl : unanswered = unanswered' + 1 := by simpa using balance.symm
      show decrement mpqCountWidth mpq.inFlight = _
      have whole : unanswered' + 1 + (2 ^ mpqCountWidth - 1) = unanswered' + 2 ^ mpqCountWidth := by
        omega
      rw [decrement, counted, Nat.mod_add_mod, whole, Nat.add_mod_right]
    | false =>
      obtain rfl : unanswered' = unanswered := by simpa using balance
      exact counted

/-- An MPQ comes to wait for an answer by sending a task, and goes on waiting until
    the last answer comes. -/
theorem awaits_stateO (requesting : sent = true → requests mpq = true)
    (waits : awaits (MpqFsm.stateO (MpqEngine.fsmIn inp new sent feedback) mpq) = true) :
    sent = true ∨ (awaits mpq.state = true ∧ (feedback = true → mpq.inFlight ≠ 1)) := by
  cases sends : sent with
  | true => exact .inl rfl
  | false =>
    refine .inr ?_
    subst sends
    -- without a grant, what waits afterwards waited before and was not answered for the last time
    cases state : mpq.state with
    | free => cases new <;> cases handler : hasHeader inp.herI.mpqMeta <;>
        simp [MpqFsm.stateO, state, handler, awaits] at waits
    | header => simp [MpqFsm.stateO, state, awaits] at waits
    | headerRunning => cases feedback <;> simp [MpqFsm.stateO, state, awaits] at waits ⊢
    | payload => simp [MpqFsm.stateO, state, awaits] at waits
    | payloadDraining =>
      refine ⟨rfl, fun answered last => ?_⟩
      cases completion : mpq.hasCompletion <;>
        simp [MpqFsm.stateO, state, answered, last, completion, awaits] at waits
    | completion => simp [MpqFsm.stateO, state, awaits] at waits
    | completionRunning => cases feedback <;> simp [MpqFsm.stateO, state, awaits] at waits ⊢

theorem Awaited.step (awaited : Awaited mpq unanswered)
    (balance : unanswered' + feedback.toNat = unanswered + sent.toNat)
    (answers : feedback = true → 0 < unanswered)
    (requesting : sent = true → requests mpq = true) :
    Awaited (MpqFsm.mpqO (MpqEngine.fsmIn inp new sent feedback) mpq) unanswered' := by
  refine ⟨inFlightO_mod awaited.counted balance, fun waits => ?_⟩
  rcases awaits_stateO requesting waits with rfl | ⟨waited, notLast⟩
  · cases feedback with
    | true =>
      have positive := answers rfl
      simp only [Bool.toNat_true] at balance
      omega
    | false =>
      simp only [Bool.toNat_true, Bool.toNat_false] at balance
      omega
  · have positive := awaited.awaited waited
    cases feedback with
    | true =>
      have notOne : unanswered ≠ 1 := by
        rintro rfl
        exact notLast rfl awaited.counted
      simp only [Bool.toNat_true] at balance
      omega
    | false =>
      simp only [Bool.toNat_false] at balance
      omega

variable {msgid : MsgId} {stored : MpqMeta} {opened : Option MpqMeta} {rest : List Planned}
  {queue : List MpqPkt}

/-- The eom flag is up exactly when the eom of the message was accepted. -/
theorem InPhase.eomSeen_iff (phase : InPhase msgid stored mpq opened rest queue)
    (busy : mpq.state ≠ .free) : mpq.eomSeen = true ↔ opened = none := by
  cases phase <;> simp [openOf] at busy ⊢

theorem InPhase.free_empty (phase : InPhase msgid stored mpq opened rest queue)
    (isFree : mpq.state = .free) : mpq.length = 0 ∧ queue = [] := by
  cases phase <;> simp at isFree ⊢

/-- An MPQ that is not `Free` requests, waits for an answer, or has sent all the
    packets of a message that is still open. -/
theorem InPhase.proceeds (phase : InPhase msgid stored mpq opened rest queue)
    (busy : mpq.state ≠ .free) :
    requests mpq = true ∨ awaits mpq.state = true ∨ (mpq.length = 0 ∧ opened ≠ none) := by
  cases phase with
  | free inFlight completion => exact absurd rfl busy
  | header inFlight eom first more closing => exact .inl rfl
  | headerRunning inFlight eom pending closing => exact .inr (.inl rfl)
  | payload inFlight eom pending closing =>
    cases pending with
    | nil =>
      -- all packets so far are sent, and the last one of the message has not come
      obtain rfl : eom = false := closing
      exact .inr (.inr ⟨rfl, by simp [openOf]⟩)
    | cons first more => exact .inl (by simp [requests])
  | drainingToCompletion inFlight last => exact .inr (.inl rfl)
  | drainingToFree inFlight => exact .inr (.inl rfl)
  | completion inFlight last => exact .inl rfl
  | completionRunning inFlight => exact .inr (.inl rfl)

end MpqPhase

namespace MpqTrace

variable {params : MpqEngineParams} {trace : MpqTrace params} {inp : MpqEngineIn}

/-- An MPQ that waits for an answer has a task to be answered. -/
def Waits (trace : MpqTrace params) : Prop :=
  ∀ i, Awaited (trace.1.mpqQ i) (trace.outstanding i)

theorem waits_reset (cells : Nat → MpqPkt) (metas : params.Idx → MpqMeta) :
    Waits (mpqTrace params cells metas).reset :=
  fun _ => ⟨rfl, nofun⟩

theorem Waits.step (waits : trace.Waits) (tracks : trace.Tracks) (permits : trace.Permits inp) :
    (trace.step inp).Waits := by
  intro i
  obtain ⟨queue, -, phases⟩ := tracks.queues
  have next : (trace.step inp).1.mpqQ i = _ := MpqEngine.mpqD_of_phase inp (phases i)
  rw [next]
  exact (waits i).step (outstanding_step permits i) (answers permits i) (tracks.requesting inp i)

/-- What holds of one MPQ across its messages.  `Free` means empty; the payload tasks
    handed out or on offer are those of all HERs but the packets held, one each and
    with the metadata of its own message; the eom is remembered until the message is
    over; and nothing is stuck. -/
structure KeepsBoundaries (trace : MpqTrace params) (i : params.Idx) : Prop where
  free_empty : (trace.1.mpqQ i).state = .free →
    (trace.1.mpqQ i).length = 0 ∧ trace.1.fifoEngine.fifoEmptyQ i = true
  in_order : (trace.issued i).map Planned.task = trace.2.handed i ++ trace.1.offered i
  own_payload : (trace.issued i).filter (fun planned => decide (planned.kind = .payload)) =
    (payloadPlan (MpqEngine.idxMsgid i) (trace.2.hers i)).take
      ((trace.2.hers i).length - (trace.1.mpqQ i).length)
  held_le : (trace.1.mpqQ i).length ≤ (trace.2.hers i).length
  eom_kept : (trace.1.mpqQ i).state ≠ .free →
    ((trace.1.mpqQ i).eomSeen = true ↔ openMeta (trace.2.hers i) = none)
  proceeds : (trace.1.mpqQ i).state ≠ .free → trace.1.mpqValid i = true ∨
    trace.1.offered i ≠ [] ∨ trace.2.owed i ≠ [] ∨
    ((trace.1.mpqQ i).length = 0 ∧ openMeta (trace.2.hers i) ≠ none)

/-- Of a list in two parts, what a filter keeps of the first part is a part of what it keeps. -/
theorem filter_eq_take {α : Type} (keep : α → Bool) (first second : List α) :
    first.filter keep = ((first ++ second).filter keep).take
      (((first ++ second).filter keep).length - second.countP keep) := by
  rw [List.filter_append, List.length_append, List.countP_eq_length_filter, Nat.add_sub_cancel,
    List.take_left]

/-- Message boundaries: no packet is lost or stuck when messages follow each other, as
    long as each opens on a `Free` queue. -/
theorem mpqEngine_keeps_boundaries (params : MpqEngineParams) (cells : Nat → MpqPkt)
    (metas : params.Idx → MpqMeta) (inputs : List MpqEngineIn)
    (permitted : (mpqTrace params cells metas).Admits Permits inputs) (i : params.Idx) :
    KeepsBoundaries ((mpqTrace params cells metas).run inputs) i := by
  obtain ⟨tracks, waits⟩ := permitted.invariant (fun trace => Tracks trace ∧ Waits trace)
    ⟨tracks_reset cells metas, waits_reset cells metas⟩
    fun _ _ ⟨tracks, waits⟩ permits => ⟨tracks.step permits, waits.step tracks permits⟩
  generalize (mpqTrace params cells metas).run inputs = trace at tracks waits ⊢
  obtain ⟨queue, represents, phases⟩ := tracks.queues
  have held := (phases i).countP_payload
  have all := filter_payload_plan (MpqEngine.idxMsgid i) (trace.2.hers i)
  have count := length_payloadPlan (MpqEngine.idxMsgid i) (trace.2.hers i)
  rw [issued_append_pending] at all
  refine
    { free_empty := fun isFree => ?_
      in_order := tracks.sent i
      own_payload := ?_
      held_le := ?_
      eom_kept := (phases i).eomSeen_iff
      proceeds := fun busy => ?_ }
  · obtain ⟨none, empty⟩ := (phases i).free_empty isFree
    exact ⟨none, (represents.empty_iff i).mpr empty⟩
  · rw [filter_eq_take _ (trace.issued i) (trace.pending i), all, held, count]
  · rw [← count, ← all, ← held, List.filter_append, List.length_append,
      List.countP_eq_length_filter]
    exact Nat.le_add_left _ _
  · rcases (phases i).proceeds busy with requesting | waiting | opened
    · exact .inl requesting
    -- an MPQ that waits is owed an answer
    · have unanswered := (waits i).awaited waiting
      by_contra stuck
      simp only [not_or, not_not] at stuck
      simp [outstanding, stuck.2.1, stuck.2.2.1] at unanswered
    · exact .inr (.inr (.inr opened))

/-- The run of two queues: the second message waits for more packets. -/
theorem mpqEngine_keeps_boundaries_interleaving :
    let trace := (mpqTrace twoQueues (fun _ => default) fun _ => default).run interleaving
    ((trace.1.mpqQ 0).state = .free ∧ (trace.1.mpqQ 1).state = .payload) ∧
      KeepsBoundaries trace 0 :=
  ⟨by decide +kernel, mpqEngine_keeps_boundaries _ _ _ _
    (interleaving_permitted.mono fun _ _ permits => permits.1) 0⟩

/-- At the deployed sizes: the only packet of a message is sent, the HER that opens the
    next message is accepted while the MPQ drains, and the answer makes it `Free`. -/
theorem mpqEngine_frees_holding :
    let params : MpqEngineParams := ⟨128, 256, by decide, by decide, by decide⟩
    let her : HerDescr := ⟨0, true, 0x200, 32, { (default : MpqMeta) with phAddr := 0x40 }⟩
    let quiet : MpqEngineIn := ⟨false, default, false, default, true, true⟩
    let arrives : MpqEngineIn := { quiet with herValidI := true, herI := her }
    let answers : MpqEngineIn :=
      { quiet with feedbackValidI := true, feedbackI := ⟨0x200, 32, 0, true⟩ }
    let trace := (mpqTrace params (fun _ => default) fun _ => default).run
      [arrives, quiet, arrives, answers]
    (trace.1.mpqQ 0).state = .free ∧ (trace.1.mpqQ 0).length = 1 ∧ ¬KeepsBoundaries trace 0 := by
  intro params her quiet arrives answers trace
  have isFree : (trace.1.mpqQ 0).state = .free := by decide +kernel
  have holds : (trace.1.mpqQ 0).length = 1 := by decide +kernel
  refine ⟨isFree, holds, fun keeps => ?_⟩
  have empty := (keeps.free_empty isFree).1
  rw [holds] at empty
  exact absurd empty (by decide)

end MpqTrace

end Pspin
