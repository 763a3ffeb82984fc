import Pspin.PktScheduler.MpqInvariant

/-! # The lifecycle of a message

Laws of whole runs of `mpq_engine`: which packets are given back and when, what
the counters count, and in which order the tasks of a message are handed out.
-/

namespace Pspin

open Clocked MpqPlan MpqPhase

namespace MpqTrace

variable {params : MpqEngineParams} {trace : MpqTrace params} {inp : MpqEngineIn}

/-- Every run that permits its inputs keeps the engine where its history says. -/
theorem tracks_of_admits {cells : Nat → MpqPkt} {metas : params.Idx → MpqMeta}
    {inputs : List MpqEngineIn} (permitted : (mpqTrace params cells metas).Admits Permits inputs) :
    Tracks ((mpqTrace params cells metas).run inputs) :=
  permitted.invariant Tracks (tracks_reset cells metas) fun _ _ tracks permits => tracks.step permits

/-! ## Packets given back -/

/-- The packet a task reads. -/
def pktOfTask (task : HandlerTask) : MpqPkt where
  pktAddr := task.pktAddr
  pktSize := task.pktSize

/-- The feedbacks forwarded to the NIC are those of the triggering tasks answered so far. -/
def NicBalanced (trace : MpqTrace params) : Prop :=
  ∀ i, (trace.2.nic i ++ (trace.2.owed i).filter FeedbackDescr.triggerFeedback).Perm
    (((trace.2.handed i).filter HandlerTask.triggerFeedback).map HandlerTask.feedback)

/-- In the plan of a stream the triggering tasks give back its packets one by one. -/
theorem giveBacks_of_serves {hers : List HerDescr} {blocks : List (List Planned)}
    (serve : List.Forall₂ Serves hers blocks) :
    ((blocks.flatten.map Planned.task).filter HandlerTask.triggerFeedback).map pktOfTask =
      hers.map pktOf := by
  induction serve with
  | nil => rfl
  | @cons her tasks hers blocks serves _ inductionHypothesis =>
    obtain ⟨own, before, last, rfl, quiet, triggers⟩ := serves
    have none : (before.map Planned.task).filter HandlerTask.triggerFeedback = [] := by
      simp only [List.filter_eq_nil_iff, List.mem_map, forall_exists_index, and_imp,
        forall_apply_eq_imp_iff₂, Bool.not_eq_true]
      exact quiet
    have packet : pktOfTask last.task = pktOf her := by
      obtain ⟨addr, size⟩ := own last (by simp)
      simp [pktOfTask, pktOf, addr, size]
    simp only [List.flatten_cons, List.map_append, List.filter_append, none, List.map_cons,
      List.map_nil, List.filter_cons_of_pos triggers, List.filter_nil, List.nil_append,
      inductionHypothesis, packet, List.singleton_append]

theorem nicBalanced_reset (cells : Nat → MpqPkt) (metas : params.Idx → MpqMeta) :
    NicBalanced (mpqTrace params cells metas).reset := fun _ => .nil

theorem NicBalanced.step (balanced : NicBalanced trace) (permits : trace.Permits inp) :
    NicBalanced (trace.step inp) := by
  intro i
  have before := balanced i
  have handed : ((trace.step inp).2.handed i).filter HandlerTask.triggerFeedback =
      (trace.2.handed i).filter HandlerTask.triggerFeedback ++
        (if inp.taskReadyI then trace.1.offered i else []).filter HandlerTask.triggerFeedback :=
    List.filter_append ..
  have fresh : (if inp.taskReadyI then (trace.1.offered i).map HandlerTask.feedback else []).filter
      FeedbackDescr.triggerFeedback =
      ((if inp.taskReadyI then trace.1.offered i else []).filter
        HandlerTask.triggerFeedback).map HandlerTask.feedback := by
    split
    · rw [List.filter_map]
      rfl
    · rfl
  rw [handed, List.map_append]
  simp only [MpqTrace.step, MpqHistory.record, MpqEngine.nicFeedback_eq, List.filter_append, fresh]
  rw [← List.append_assoc]
  refine List.Perm.append_right _ (List.Perm.trans ?_ before)
  by_cases here : (MpqEngine.feedbackTaken inp && decide (MpqEngine.feedbackMpqIdx inp = i)) = true
  · rw [if_pos here]
    simp only [Bool.and_eq_true, decide_eq_true_eq] at here
    obtain ⟨taken, rfl⟩ := here
    have owed := (List.perm_cons_erase (permits.2 taken)).filter FeedbackDescr.triggerFeedback
    cases triggers : inp.feedbackI.triggerFeedback with
    | true =>
      rw [List.filter_cons_of_pos triggers] at owed
      simp only [taken, Bool.and_self, decide_true, if_true, List.append_assoc,
        List.singleton_append, MpqEngine.nicFeedbackO]
      exact owed.symm.append_left _
    | false =>
      rw [List.filter_cons_of_neg (by simp [triggers])] at owed
      simp only [Bool.and_false, Bool.false_and, Bool.false_eq_true, if_false, List.append_nil]
      exact owed.symm.append_left _
  · rw [if_neg here, if_neg]
    · simp
    · intro forwards
      simp only [Bool.and_eq_true, decide_eq_true_eq] at forwards here
      exact here ⟨forwards.1.1, forwards.2⟩

/-! ## What the counters count -/

/-- Tasks of an MPQ that were granted and not answered yet. -/
def outstanding (trace : MpqTrace params) (i : params.Idx) : Nat :=
  (trace.2.owed i).length + (trace.1.offered i).length

/-- The in-flight counter in each state, with `solitary` for the last task granted. -/
structure Flying (mpq : Mpq) (unanswered : Nat) (solitary : Prop) : Prop where
  in_flight : mpq.inFlight = unanswered
  settled : mpq.state = .free ∨ mpq.state = .header ∨ mpq.state = .completion → unanswered = 0
  running : mpq.state = .headerRunning ∨ mpq.state = .completionRunning → unanswered = 1
  draining : mpq.state = .payloadDraining → 1 ≤ unanswered
  after_solitary : solitary → mpq.state = .headerRunning ∨ mpq.state = .completionRunning ∨
    unanswered = 0

theorem inFlightO_eq (inp : MpqEngineIn) (new : Bool) {mpq : Mpq} {unanswered unanswered' : Nat}
    {sent feedback : Bool}
    (counted : mpq.inFlight = unanswered) (small : unanswered < 2 ^ mpqCountWidth)
    (small' : unanswered' < 2 ^ mpqCountWidth)
    (balance : unanswered' + feedback.toNat = unanswered + sent.toNat) :
    MpqFsm.inFlightO (MpqEngine.fsmIn inp new sent feedback) mpq = unanswered' := by
  subst counted
  cases sent <;> cases feedback <;> simp [MpqFsm.inFlightO] at balance ⊢
  · exact balance.symm
  · rw [decrement_of_pos (by omega) small]
    omega
  · rw [increment_of_lt (by omega), balance]
  · omega

section Flying

variable {mpq : Mpq} {unanswered unanswered' : Nat} {solitary : Prop} {sent feedback : Bool}

theorem Flying.of_none (counted : mpq.inFlight = unanswered) (none_ : unanswered = 0)
    (calm : mpq.state ≠ .headerRunning ∧ mpq.state ≠ .completionRunning ∧
      mpq.state ≠ .payloadDraining) : Flying mpq unanswered solitary where
  in_flight := counted
  settled _ := none_
  running runs := runs.elim (fun here => absurd here calm.1) fun here => absurd here calm.2.1
  draining here := absurd here calm.2.2
  after_solitary _ := .inr (.inr none_)

theorem Flying.of_running (counted : mpq.inFlight = unanswered) (one : unanswered = 1)
    (runs : mpq.state = .headerRunning ∨ mpq.state = .completionRunning) :
    Flying mpq unanswered solitary where
  in_flight := counted
  settled here := by rcases runs with same | same <;> simp [same] at here
  running _ := one
  draining here := by rcases runs with same | same <;> simp [same] at here
  after_solitary _ := runs.imp_right .inl

/-- A stage of one task counts it from the grant to the answer, and runs as long. -/
theorem Flying.of_single (counted : mpq.inFlight = unanswered) (busy : Bool)
    (single : unanswered = busy.toNat)
    (runs : busy = true → mpq.state = .headerRunning ∨ mpq.state = .completionRunning)
    (waits : busy = false → mpq.state ≠ .headerRunning ∧ mpq.state ≠ .completionRunning ∧
      mpq.state ≠ .payloadDraining) : Flying mpq unanswered solitary := by
  cases busy with
  | false => exact .of_none counted single (waits rfl)
  | true => exact .of_running counted single (runs rfl)

theorem Flying.of_payload (counted : mpq.inFlight = unanswered)
    (payload : mpq.state = .payload ∨ mpq.state = .payloadDraining ∧ 1 ≤ unanswered)
    (alone : solitary → unanswered = 0) : Flying mpq unanswered solitary where
  in_flight := counted
  settled here := by rcases payload with same | ⟨same, -⟩ <;> simp [same] at here
  running here := by rcases payload with same | ⟨same, -⟩ <;> simp [same] at here
  draining here := by
    rcases payload with same | ⟨-, some_⟩
    · simp [same] at here
    · exact some_
  after_solitary last := .inr (.inr (alone last))

theorem Flying.step (flying : Flying mpq unanswered solitary) (inp : MpqEngineIn) (new : Bool)
    (small : unanswered < 2 ^ mpqCountWidth) (small' : unanswered' < 2 ^ mpqCountWidth)
    (balance : unanswered' + feedback.toNat = unanswered + sent.toNat)
    (answers : feedback = true → 0 < unanswered)
    (requesting : sent = true → requests mpq = true) :
    Flying (MpqFsm.mpqO (MpqEngine.fsmIn inp new sent feedback) mpq) unanswered'
      (if sent = true then mpq.state ≠ .payload else solitary) := by
  have counts : (MpqFsm.mpqO (MpqEngine.fsmIn inp new sent feedback) mpq).inFlight = unanswered' :=
    inFlightO_eq inp new flying.in_flight small small' balance
  have next : (MpqFsm.mpqO (MpqEngine.fsmIn inp new sent feedback) mpq).state =
      MpqFsm.stateO (MpqEngine.fsmIn inp new sent feedback) mpq := rfl
  obtain ⟨counted, settled, running, draining, after⟩ := flying
  cases here : mpq.state with
  | free =>
    obtain rfl := settled (.inl here)
    obtain rfl : sent = false := by simpa [requests, here] using requesting
    obtain rfl : feedback = false := by simpa using answers
    refine .of_none counts (by simpa using balance) ?_
    rw [next, MpqFsm.stateO, here]
    dsimp only
    split
    · split <;> simp
    · simp
  | header =>
    obtain rfl := settled (.inr (.inl here))
    obtain rfl : feedback = false := by simpa using answers
    rw [MpqFsm.stateO, here] at next
    refine .of_single counts sent (by simpa using balance) (fun granted => ?_) fun waiting => ?_
    · rw [next]
      simp [MpqEngine.fsmIn, granted]
    · rw [next]
      simp [MpqEngine.fsmIn, waiting]
  | headerRunning =>
    obtain rfl := running (.inl here)
    obtain rfl : sent = false := by simpa [requests, here] using requesting
    rw [MpqFsm.stateO, here] at next
    have single : unanswered' = (!feedback).toNat := by
      cases feedback <;> simpa using balance
    refine .of_single counts (!feedback) single (fun runs => ?_) fun answered => ?_
    · obtain rfl : feedback = false := by simpa using runs
      rw [next]
      simp [MpqEngine.fsmIn]
    · obtain rfl : feedback = true := by simpa using answered
      rw [next]
      simp [MpqEngine.fsmIn]
  | payload =>
    cases sent with
    | false =>
      have payload : (MpqFsm.mpqO (MpqEngine.fsmIn inp new false feedback) mpq).state = .payload := by
        rw [next, MpqFsm.stateO, here]
        simp [MpqEngine.fsmIn]
      refine .of_payload counts (.inl payload) fun last => ?_
      -- the last task was alone, so that nothing was left to answer
      have none_ : unanswered = 0 := by simpa [here] using after last
      obtain rfl : feedback = false := by
        rw [none_] at answers
        simpa using answers
      simpa [none_] using balance
    | true =>
      have some_ : 1 ≤ unanswered' := by
        cases feedback with
        | false => simp at balance; omega
        | true => have := answers rfl; simp at balance; omega
      refine .of_payload counts ?_ fun last => absurd rfl last
      rw [next, MpqFsm.stateO, here]
      dsimp only
      split
      · exact .inr ⟨rfl, some_⟩
      · exact .inl rfl
  | payloadDraining =>
    have some_ := draining here
    obtain rfl : sent = false := by simpa [requests, here] using requesting
    have notLast : ¬solitary := fun last => by
      have none_ : unanswered = 0 := by simpa [here] using after last
      omega
    by_cases ends : feedback = true ∧ mpq.inFlight = 1
    · obtain ⟨rfl, one⟩ := ends
      refine .of_none counts (by simp at balance; omega) ?_
      rw [next, MpqFsm.stateO, here]
      simp only [MpqEngine.fsmIn, one, decide_true, Bool.and_self, if_true]
      split <;> simp
    · have stays : (MpqFsm.mpqO (MpqEngine.fsmIn inp new false feedback) mpq).state =
          .payloadDraining := by
        rw [next, MpqFsm.stateO, here]
        exact if_neg (by simpa [MpqEngine.fsmIn] using ends)
      refine .of_payload counts (.inr ⟨stays, ?_⟩) fun last => absurd last notLast
      cases feedback with
      | false => simp at balance; omega
      | true => have := not_and.mp ends rfl; simp at balance; omega
  | completion =>
    obtain rfl := settled (.inr (.inr here))
    obtain rfl : feedback = false := by simpa using answers
    rw [MpqFsm.stateO, here] at next
    refine .of_single counts sent (by simpa using balance) (fun granted => ?_) fun waiting => ?_
    · rw [next]
      simp [MpqEngine.fsmIn, granted]
    · rw [next]
      simp [MpqEngine.fsmIn, waiting]
  | completionRunning =>
    obtain rfl := running (.inr here)
    obtain rfl : sent = false := by simpa [requests, here] using requesting
    rw [MpqFsm.stateO, here] at next
    have single : unanswered' = (!feedback).toNat := by
      cases feedback <;> simpa using balance
    refine .of_single counts (!feedback) single (fun runs => ?_) fun answered => ?_
    · obtain rfl : feedback = false := by simpa using runs
      rw [next]
      simp [MpqEngine.fsmIn]
    · obtain rfl : feedback = true := by simpa using answered
      rw [next]
      simp [MpqEngine.fsmIn]

end Flying

/-- The last task issued is a header or completion task. -/
def LastSolitary (issued : List Planned) : Prop :=
  ∃ planned ∈ issued.getLast?, planned.solitary = true

/-- So is one of the last two: the one on offer, or the one before it. -/
def NearSolitary (issued : List Planned) : Prop :=
  LastSolitary issued ∨ LastSolitary issued.dropLast

/-- The counters count, and header and completion tasks run alone. -/
structure Counts (trace : MpqTrace params) : Prop where
  flying : ∀ i, Flying (trace.1.mpqQ i) (trace.outstanding i) (LastSolitary (trace.issued i))
  alone : ∀ i, trace.1.offered i ≠ [] → NearSolitary (trace.issued i) → trace.2.owed i = []

/-- No MPQ has more tasks granted and unanswered than its counter counts. -/
def Bounded (trace : MpqTrace params) : Prop := ∀ i, trace.outstanding i < 2 ^ mpqCountWidth

instance (trace : MpqTrace params) : Decidable trace.Bounded :=
  inferInstanceAs (Decidable (∀ i, trace.outstanding i < 2 ^ mpqCountWidth))

/-- The rules for runs in which the counters matter. -/
def PermitsCounted (trace : MpqTrace params) (inp : MpqEngineIn) : Prop :=
  trace.Permits inp ∧ (trace.step inp).Bounded

instance (trace : MpqTrace params) (inp : MpqEngineIn) : Decidable (trace.PermitsCounted inp) :=
  inferInstanceAs (Decidable (_ ∧ _))

theorem owed_step_length (permits : trace.Permits inp) (i : params.Idx) :
    ((trace.step inp).2.owed i).length +
        (MpqEngine.feedbackTaken inp && decide (MpqEngine.feedbackMpqIdx inp = i)).toNat =
      (trace.2.owed i).length + (if inp.taskReadyI then trace.1.offered i else []).length := by
  have handed : (if inp.taskReadyI then (trace.1.offered i).map HandlerTask.feedback
      else []).length = (if inp.taskReadyI then trace.1.offered i else []).length := by
    split <;> simp
  simp only [step, MpqHistory.record, List.length_append, handed]
  by_cases here : (MpqEngine.feedbackTaken inp && decide (MpqEngine.feedbackMpqIdx inp = i)) = true
  · rw [if_pos here, here]
    simp only [Bool.and_eq_true, decide_eq_true_eq] at here
    obtain ⟨taken, rfl⟩ := here
    have owes := permits.2 taken
    have positive := List.length_pos_of_mem owes
    rw [List.length_erase_of_mem owes, Bool.toNat_true]
    omega
  · rw [if_neg here, eq_false_of_ne_true here, Bool.toNat_false]
    omega

/-- Grants add to the outstanding tasks and feedbacks take from them. -/
theorem outstanding_step (permits : trace.Permits inp) (i : params.Idx) :
    (trace.step inp).outstanding i +
        (MpqEngine.feedbackTaken inp && decide (MpqEngine.feedbackMpqIdx inp = i)).toNat =
      trace.outstanding i +
        (trace.1.taskSent inp && decide (trace.1.tasksentMpqIdx = i)).toNat := by
  have owed := owed_step_length permits i
  have offers := congrArg List.length (trace.1.offered_step inp i)
  have one : (if trace.1.taskSent inp && decide (trace.1.tasksentMpqIdx = i)
      then [(trace.1.step inp).newTask] else []).length =
      (trace.1.taskSent inp && decide (trace.1.tasksentMpqIdx = i)).toNat := by
    split
    next sent => rw [sent]; rfl
    next idle => rw [eq_false_of_ne_true idle]; rfl
  rw [List.length_append, List.length_append, one] at offers
  simp only [outstanding]
  have next : (trace.step inp).1 = trace.1.step inp := rfl
  rw [next]
  omega

theorem answers (permits : trace.Permits inp) (i : params.Idx)
    (here : (MpqEngine.feedbackTaken inp && decide (MpqEngine.feedbackMpqIdx inp = i)) = true) :
    0 < trace.outstanding i := by
  simp only [Bool.and_eq_true, decide_eq_true_eq] at here
  obtain ⟨taken, rfl⟩ := here
  exact Nat.lt_of_lt_of_le (List.length_pos_of_mem (permits.2 taken)) (Nat.le_add_right _ _)

theorem eq_nil_of_outstanding {i : params.Idx} (none : trace.outstanding i = 0) :
    trace.2.owed i = [] ∧ trace.1.offered i = [] := by
  simp only [outstanding] at none
  exact ⟨List.length_eq_zero_iff.mp (by omega), List.length_eq_zero_iff.mp (by omega)⟩

theorem counts_reset (cells : Nat → MpqPkt) (metas : params.Idx → MpqMeta) :
    Counts (mpqTrace params cells metas).reset where
  flying _ :=
    { in_flight := rfl
      settled := fun _ => rfl
      running := by rintro (running | running) <;> cases running
      draining := fun draining => by cases draining
      after_solitary := fun _ => .inr (.inr rfl) }
  alone _ offers := absurd rfl offers

theorem owed_step_eq_nil (permits : trace.Permits inp) {i : params.Idx}
    (owed : trace.2.owed i = []) (kept : (if inp.taskReadyI then trace.1.offered i else []) = []) :
    (trace.step inp).2.owed i = [] := by
  have balance := owed_step_length permits i
  rw [owed, kept, List.length_nil, List.length_nil] at balance
  exact List.length_eq_zero_iff.mp (by omega)

/-- A grant issues one task, a header or completion task if the MPQ is not in `Payload`. -/
theorem lastSolitary_append (issued : List Planned) (planned : Planned) :
    LastSolitary (issued ++ [planned]) ↔ planned.solitary = true := by
  simp [LastSolitary]

/-- When an MPQ sends next to a header or completion task, all its tasks are answered. -/
theorem Flying.quiet {mpq : Mpq} {unanswered : Nat} {solitary : Prop}
    (flying : Flying mpq unanswered solitary) (requesting : requests mpq = true)
    (near : mpq.state ≠ .payload ∨ solitary) : unanswered = 0 := by
  have inState : mpq.state = .header ∨ mpq.state = .payload ∨ mpq.state = .completion := by
    simp only [requests, Bool.or_eq_true, Bool.and_eq_true, decide_eq_true_eq] at requesting
    tauto
  rcases near with notPayload | after
  · rcases inState with header | payload | completion
    · exact flying.settled (.inr (.inl header))
    · exact absurd payload notPayload
    · exact flying.settled (.inr (.inr completion))
  · rcases flying.after_solitary after with running | running | none
    · simp [running] at inState
    · simp [running] at inState
    · exact none

theorem Counts.step (counts : trace.Counts) (tracks : trace.Tracks) (bounded : trace.Bounded)
    (permits : trace.PermitsCounted inp) : (trace.step inp).Counts := by
  obtain ⟨queue, represents, phases⟩ := tracks.queues
  have each (i : params.Idx) :
      Flying ((trace.step inp).1.mpqQ i) ((trace.step inp).outstanding i)
        (LastSolitary ((trace.step inp).issued i)) ∧
      ((trace.step inp).1.offered i ≠ [] → NearSolitary ((trace.step inp).issued i) →
        (trace.step inp).2.owed i = []) := by
    obtain ⟨granted, issued', tasks, kinds, -⟩ :=
      tracks.local_step permits.1 represents i (phases i)
    have offers := trace.1.offered_step inp i
    have mpq' : (trace.step inp).1.mpqQ i =
        MpqFsm.mpqO (trace.1.eventAt inp i) (trace.1.mpqQ i) :=
      MpqEngine.mpqD_of_phase inp (phases i)
    have flying := counts.flying i
    have flying' := flying.step inp (trace.1.herNew inp && decide (MpqEngine.newherMpqIdx inp = i))
      (bounded i) (permits.2 i) (outstanding_step permits.1 i) (answers permits.1 i)
      (tracks.requesting inp i)
    rw [mpq', issued', MpqEngine.eventAt]
    by_cases sent : (trace.1.taskSent inp && decide (trace.1.tasksentMpqIdx = i)) = true
    · rw [if_pos sent, List.map_eq_singleton_iff] at tasks
      obtain ⟨planned, rfl, -⟩ := tasks
      obtain ⟨requested, solitary⟩ := kinds planned (List.mem_singleton_self _)
      have last : LastSolitary (trace.issued i ++ [planned]) ↔
          (trace.1.mpqQ i).state ≠ .payload := by
        rw [lastSolitary_append, solitary, decide_eq_true_eq]
      rw [if_pos sent] at flying'
      refine ⟨propext last ▸ flying', fun _ near => ?_⟩
      rw [NearSolitary, last, List.dropLast_concat] at near
      obtain ⟨owed, offered⟩ := eq_nil_of_outstanding (flying.quiet requested near)
      exact owed_step_eq_nil permits.1 owed (by simp [offered])
    · rw [if_neg sent, List.map_eq_nil_iff] at tasks
      rw [if_neg sent] at flying'
      rw [tasks, List.append_nil]
      refine ⟨flying', fun offering near => ?_⟩
      rw [if_neg sent, List.append_nil] at offers
      cases taken : inp.taskReadyI with
      | true =>
        rw [taken, if_pos rfl] at offers
        exact absurd (List.append_right_eq_self.mp offers) offering
      | false =>
        rw [taken, if_neg Bool.false_ne_true, List.nil_append] at offers
        exact owed_step_eq_nil permits.1 (counts.alone i (offers ▸ offering) near) (by simp [taken])
  exact ⟨fun i => (each i).1, fun i => (each i).2⟩

theorem counts_of_admits {cells : Nat → MpqPkt} {metas : params.Idx → MpqMeta}
    {inputs : List MpqEngineIn}
    (permitted : (mpqTrace params cells metas).Admits PermitsCounted inputs) :
    let trace := (mpqTrace params cells metas).run inputs
    trace.Tracks ∧ trace.Bounded ∧ trace.Counts := by
  refine permitted.invariant (fun trace => Tracks trace ∧ Bounded trace ∧ Counts trace)
    ⟨tracks_reset cells metas, fun _ => Nat.two_pow_pos _, counts_reset cells metas⟩ ?_
  rintro trace inp ⟨tracks, bounded, counts⟩ permits
  exact ⟨tracks.step permits.1, permits.2, counts.step tracks bounded permits⟩

/-! ## The laws -/

/-- The lifecycle of the messages of one MPQ.  Its tasks are handed out in the order
    of the plan; one that is on offer next to a header or completion task finds
    every earlier task answered; the MPQ is `Free` exactly when its messages are
    complete, handed out and answered; and until then it has a task to send, one to
    be answered, or waits for packets of an open message. -/
structure Lifecycle (trace : MpqTrace params) (i : params.Idx) : Prop where
  in_order : (trace.issued i).map Planned.task = trace.2.handed i ++ trace.1.offered i
  alone : trace.1.offered i ≠ [] → NearSolitary (trace.issued i) → trace.2.owed i = []
  free_iff : (trace.1.mpqQ i).state = .free ↔ openMeta (trace.2.hers i) = none ∧
    trace.pending i = [] ∧ trace.1.offered i = [] ∧ trace.2.owed i = []
  proceeds : (trace.1.mpqQ i).state ≠ .free → trace.1.mpqValid i = true ∨
    trace.1.offered i ≠ [] ∨ trace.2.owed i ≠ [] ∨ openMeta (trace.2.hers i) ≠ none

/-- A message queue that is not `Free`: it has a task to send, tasks to be answered
    or an open message, and if it is to send nothing more it has one of the last two. -/
theorem busy_proceeds {msgid : MsgId} {stored : MpqMeta} {mpq : Mpq} {opened : Option MpqMeta}
    {rest : List Planned} {queue : List MpqPkt} {unanswered : Nat} {solitary : Prop}
    (phase : InPhase msgid stored mpq opened rest queue) (flying : Flying mpq unanswered solitary)
    (busy : mpq.state ≠ .free) :
    (requests mpq = true ∧ rest ≠ []) ∨ 0 < unanswered ∨ opened ≠ none := by
  cases phase with
  | free inFlight completion => exact absurd rfl busy
  | header inFlight eom first more closing => exact .inl ⟨rfl, by simp⟩
  | headerRunning inFlight eom pending closing =>
    exact .inr (.inl (by rw [flying.running (.inl rfl)]; exact Nat.one_pos))
  | payload inFlight eom pending closing =>
    cases pending with
    | nil =>
      obtain rfl : eom = false := closing
      exact .inr (.inr (by simp [openOf]))
    | cons first more =>
      refine .inl ⟨by simp [requests], ?_⟩
      simp only [payloads, List.flatMap_cons, packetBlock]
      split <;> simp
  | drainingToCompletion inFlight last => exact .inr (.inl (flying.draining rfl))
  | drainingToFree inFlight => exact .inr (.inl (flying.draining rfl))
  | completion inFlight last => exact .inl ⟨rfl, by simp⟩
  | completionRunning inFlight =>
    exact .inr (.inl (by rw [flying.running (.inr rfl)]; exact Nat.one_pos))

/-! Two queues and a run of both: a message with a header handler opens on queue 1, a
message of one packet runs on queue 0 meanwhile.
-/

def twoQueues : MpqEngineParams := ⟨2, 2, by decide, by decide, by decide⟩

def opening : HerDescr :=
  ⟨1, false, 0x100, 64, { (default : MpqMeta) with hhAddr := 0x10, phAddr := 0x20, thAddr := 0x30 }⟩

def single : HerDescr := ⟨0, true, 0x200, 32, { (default : MpqMeta) with phAddr := 0x40 }⟩

def interleaving : List MpqEngineIn :=
  let quiet : MpqEngineIn := ⟨false, default, false, default, true, true⟩
  [{ quiet with herValidI := true, herI := opening }, { quiet with herValidI := true, herI := single },
    quiet, { quiet with feedbackValidI := true, feedbackI := ⟨0x100, 64, 1, false⟩ },
    { quiet with feedbackValidI := true, feedbackI := ⟨0x200, 32, 0, true⟩ }]

theorem interleaving_permitted :
    (mpqTrace twoQueues (fun _ => default) fun _ => default).Admits PermitsCounted interleaving := by
  decide +kernel

/-- Message lifecycle: in every run each message's header task, payload tasks and
    completion task are handed out by the plan, each waiting for what it must. -/
theorem mpqEngine_lifecycle (params : MpqEngineParams) (cells : Nat → MpqPkt)
    (metas : params.Idx → MpqMeta) (inputs : List MpqEngineIn)
    (permitted : (mpqTrace params cells metas).Admits PermitsCounted inputs) (i : params.Idx) :
    Lifecycle ((mpqTrace params cells metas).run inputs) i := by
  obtain ⟨tracks, -, counts⟩ := counts_of_admits permitted
  obtain ⟨queue, -, phases⟩ := tracks.queues
  have proceeds := busy_proceeds (phases i) (counts.flying i)
  refine ⟨tracks.sent i, counts.alone i, ⟨fun isFree => ?_, ?_⟩, fun busy => ?_⟩
  · obtain ⟨rest, opened⟩ := (phases i).free_rest isFree
    obtain ⟨owed, offered⟩ := eq_nil_of_outstanding ((counts.flying i).settled (.inl isFree))
    exact ⟨opened, rest, offered, owed⟩
  · rintro ⟨opened, rest, offered, owed⟩
    by_contra busy
    rcases proceeds busy with ⟨-, remains⟩ | unanswered | isOpen
    · exact remains rest
    · simp [outstanding, owed, offered] at unanswered
    · exact isOpen opened
  · rcases proceeds busy with ⟨requesting, -⟩ | unanswered | isOpen
    · exact .inl requesting
    · simp only [outstanding] at unanswered
      by_cases offered : ((mpqTrace params cells metas).run inputs).1.offered i = []
      · rw [offered, List.length_nil, Nat.add_zero] at unanswered
        exact .inr (.inr (.inl (List.ne_nil_of_length_pos unanswered)))
      · exact .inr (.inl offered)
    · exact .inr (.inr (.inr isOpen))

theorem mpqEngine_lifecycle_interleaving :
    let trace := (mpqTrace twoQueues (fun _ => default) fun _ => default).run interleaving
    ((trace.1.mpqQ 1).state = .payload ∧ (trace.2.handed 1).map HandlerTask.handlerFun = [0x10]) ∧
      Lifecycle trace 1 :=
  ⟨by decide +kernel, mpqEngine_lifecycle _ _ _ _ interleaving_permitted 1⟩

/-- One give-back for each packet: the triggering tasks handed out or on offer carry
    the packets of the accepted HERs one by one, each is the last of the block of
    tasks that read its packet, none is missing once the MPQ is `Free`, and exactly
    their feedbacks reach the NIC. -/
theorem mpqEngine_gives_back_once (params : MpqEngineParams) (cells : Nat → MpqPkt)
    (metas : params.Idx → MpqMeta) (inputs : List MpqEngineIn)
    (permitted : (mpqTrace params cells metas).Admits Permits inputs) (i : params.Idx) :
    let trace := (mpqTrace params cells metas).run inputs
    let tasks := trace.2.handed i ++ trace.1.offered i
    let blocks := blocks (MpqEngine.idxMsgid i) (trace.2.hers i)
    List.Forall₂ Serves (trace.2.hers i) blocks ∧
      tasks <+: blocks.flatten.map Planned.task ∧
      (tasks.filter HandlerTask.triggerFeedback).map pktOfTask <+: (trace.2.hers i).map pktOf ∧
      ((trace.1.mpqQ i).state = .free → tasks = blocks.flatten.map Planned.task ∧
        (tasks.filter HandlerTask.triggerFeedback).map pktOfTask = (trace.2.hers i).map pktOf) ∧
      (trace.2.nic i ++ (trace.2.owed i).filter FeedbackDescr.triggerFeedback).Perm
        (((trace.2.handed i).filter HandlerTask.triggerFeedback).map HandlerTask.feedback) := by
  intro trace tasks blocks
  have tracks : trace.Tracks := tracks_of_admits permitted
  have balanced : NicBalanced trace :=
    permitted.invariant NicBalanced (nicBalanced_reset cells metas)
      fun _ _ balanced permits => balanced.step permits
  have serve : List.Forall₂ Serves (trace.2.hers i) blocks := blocksFrom_serve _ none _
  have split : blocks.flatten.map Planned.task = tasks ++ (trace.pending i).map Planned.task := by
    show _ = (trace.2.handed i ++ trace.1.offered i) ++ _
    rw [← tracks.sent i, ← List.map_append, ← issued_append_pending]
    rfl
  have prefixed : tasks <+: blocks.flatten.map Planned.task := ⟨_, split.symm⟩
  refine ⟨serve, prefixed, ?_, fun isFree => ?_, balanced i⟩
  · rw [← giveBacks_of_serves serve]
    exact (prefixed.filter _).map _
  · obtain ⟨queue, -, phases⟩ := tracks.queues
    have complete : tasks = blocks.flatten.map Planned.task := by
      rw [split, ((phases i).free_rest isFree).1, List.map_nil, List.append_nil]
    exact ⟨complete, complete ▸ giveBacks_of_serves serve⟩

theorem mpqEngine_gives_back_once_interleaving :
    let trace := (mpqTrace twoQueues (fun _ => default) fun _ => default).run interleaving
    trace.2.nic 0 = [⟨0x200, 32, 0, true⟩] ∧
      ((trace.1.mpqQ 0).state = .free →
        (trace.2.handed 0 ++ trace.1.offered 0).map HandlerTask.pktAddr = [0x200]) ∧
      (trace.2.nic 0 ++ (trace.2.owed 0).filter FeedbackDescr.triggerFeedback).Perm
        (((trace.2.handed 0).filter HandlerTask.triggerFeedback).map HandlerTask.feedback) :=
  ⟨by decide +kernel, fun _ => by decide +kernel,
    (mpqEngine_gives_back_once twoQueues (fun _ => default) (fun _ => default) interleaving
      (interleaving_permitted.mono fun _ _ permits => permits.1) 0).2.2.2.2⟩

/-- The counters across the two modules: the queue lengths, the packets held, the
    tasks in flight, none of them wrapped, and no empty queue popped. -/
theorem mpqEngine_counters_exact (params : MpqEngineParams) (cells : Nat → MpqPkt)
    (metas : params.Idx → MpqMeta) (inputs : List MpqEngineIn)
    (permitted : (mpqTrace params cells metas).Admits PermitsCounted inputs) :
    let trace := (mpqTrace params cells metas).run inputs
    (∃ queue, trace.1.fifoEngine.Represents queue ∧ ∀ i,
      let mpq := trace.1.mpqQ i
      (queue i).length = mpq.length +
          (if mpq.hasCompletion = true ∧
            (mpq.state = .payloadDraining ∨ mpq.state = .completion) then 1 else 0) ∧
        mpq.length + (trace.issued i).countP (fun planned => decide (planned.kind = .payload)) =
          (trace.2.hers i).length ∧
        mpq.inFlight = trace.outstanding i ∧
        (mpq.state = .headerRunning ∨ mpq.state = .payloadDraining ∨
          mpq.state = .completionRunning → 1 ≤ mpq.inFlight)) ∧
      ∀ inp, trace.1.fifoPop inp = true →
        trace.1.fifoEngine.fifoEmptyQ trace.1.tasksentMpqIdx = false := by
  intro trace
  obtain ⟨tracks, -, counts⟩ := counts_of_admits permitted
  obtain ⟨queue, represents, phases⟩ := tracks.queues
  refine ⟨⟨queue, represents, fun i => ⟨(phases i).queue_length, ?_, (counts.flying i).in_flight, ?_⟩⟩,
    fun inp pops => ?_⟩
  · have all := countP_payload_plan (MpqEngine.idxMsgid i) (trace.2.hers i)
    rw [issued_append_pending, List.countP_append, (phases i).countP_payload] at all
    rw [← all, Nat.add_comm]
  · have flying := counts.flying i
    rw [flying.in_flight]
    rintro (running | draining | running)
    · exact (flying.running (.inl running)).ge
    · exact flying.draining draining
    · exact (flying.running (.inr running)).ge
  · have sends : trace.1.taskSent inp = true := by
      simp only [MpqEngine.fifoPop, Bool.and_eq_true] at pops
      exact pops.1
    have nonempty := (phases trace.1.tasksentMpqIdx).queue_ne_nil
      (MpqEngine.requests_of_sent tracks.held sends)
    rw [← Bool.not_eq_true]
    intro empty
    exact nonempty ((represents.empty_iff trace.1.tasksentMpqIdx).mp empty)

theorem mpqEngine_counters_exact_interleaving :
    let trace := (mpqTrace twoQueues (fun _ => default) fun _ => default).run interleaving
    ((trace.1.mpqQ 1).state = .payload ∧ (trace.1.mpqQ 1).length = 0 ∧ (trace.2.hers 1).length = 1) ∧
      ∀ inp, trace.1.fifoPop inp = true →
        trace.1.fifoEngine.fifoEmptyQ trace.1.tasksentMpqIdx = false :=
  ⟨by decide +kernel, (mpqEngine_counters_exact _ _ _ _ interleaving_permitted).2⟩

end MpqTrace

end Pspin
