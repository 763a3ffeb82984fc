import Pspin.Clocked.Flow
import Pspin.PktScheduler.MpqInvariant

/-! # The packets of the message queues

The FIFO engine holds as many packets of an MPQ as its length says, and one more while the eom
packet waits for the completion task.  This needs nothing of the HERs and feedbacks that arrive:
an MPQ that requests has a packet, and goes on requesting until it is granted.
-/

namespace Pspin

open Clocked MpqPlan MpqPhase

namespace MpqPhase

/-- The eom packet that waits for the completion task. -/
def retained (mpq : Mpq) : Nat :=
  (mpq.hasCompletion && (decide (mpq.state = .payloadDraining) ||
    decide (mpq.state = .completion))).toNat

/-- An MPQ against the number of its packets in the FIFO engine. -/
structure Stocked (mpq : Mpq) (held : Nat) : Prop where
  counted : held = mpq.length + retained mpq
  opened : mpq.state = .header → 0 < mpq.length
  completes : mpq.state = .completion ∨ mpq.state = .completionRunning → mpq.hasCompletion = true
  cleared : mpq.state = .free → mpq.eomSeen = false

variable {inp : MpqEngineIn} {new sent feedback : Bool} {mpq : Mpq} {held : Nat}

/-- An MPQ that requests has a packet to read. -/
theorem Stocked.held_pos (stocked : Stocked mpq held) (requesting : requests mpq = true) :
    0 < held := by
  rw [stocked.counted]
  simp only [requests, Bool.or_eq_true, Bool.and_eq_true, decide_eq_true_eq] at requesting
  rcases requesting with (header | ⟨-, waiting⟩) | completion
  · exact Nat.add_pos_left (stocked.opened header) _
  · exact Nat.add_pos_left waiting _
  · simp [retained, completion, stocked.completes (.inl completion)]

theorem Stocked.mpqO_idle (stocked : Stocked mpq held) :
    MpqFsm.mpqO (MpqEngine.fsmIn inp false false false) mpq = mpq := by
  have cleared := stocked.cleared
  obtain ⟨state, length, inFlight, completion, eomSeen⟩ := mpq
  cases state <;> simp [MpqFsm.mpqO, MpqFsm.stateO, MpqFsm.lengthO, MpqFsm.inFlightO,
    MpqFsm.hasCompletionO, MpqFsm.eomSeenO, MpqFsm.poppingHer] at cleared ⊢
  exact cleared

/-- Only payload tasks take from the length. -/
theorem lengthO_eq (fits : mpq.length + 1 < 2 ^ mpqCountWidth)
    (requesting : sent = true → requests mpq = true) :
    MpqFsm.lengthO (MpqEngine.fsmIn inp new sent feedback) mpq =
      mpq.length - (sent && decide (mpq.state = .payload)).toNat + new.toNat := by
  cases pays : sent && decide (mpq.state = .payload) with
  | false => exact length_arrive fits pays
  | true =>
    simp only [Bool.and_eq_true, decide_eq_true_eq] at pays
    have positive : 0 < mpq.length := by
      simpa [requests, pays.2] using requesting pays.1
    have popping : MpqFsm.poppingHer (MpqEngine.fsmIn inp new sent feedback) mpq = true := by
      simp [MpqFsm.poppingHer, pays.1, pays.2]
    rw [MpqFsm.lengthO, popping, fsmIn_herNewI]
    cases new with
    | false => exact decrement_of_pos positive (by omega)
    | true => exact (Nat.sub_add_cancel positive).symm

/-- A payload task pops its packet, unless this is retained for the completion task,
    which pops it then. -/
theorem retained_step (completes : mpq.state = .completion → mpq.hasCompletion = true)
    (requesting : sent = true → requests mpq = true) :
    retained mpq + (sent && decide (mpq.state = .payload)).toNat =
      retained (MpqFsm.mpqO (MpqEngine.fsmIn inp new sent feedback) mpq) +
        (pops (MpqEngine.fsmIn inp new sent feedback) mpq).toNat := by
  have sentOnly : requests mpq = false → sent = false := by
    intro quiet
    rw [← Bool.not_eq_true]
    exact fun sends => by simp [requesting sends] at quiet
  cases state : mpq.state with
  | free =>
    obtain rfl := sentOnly (by simp [requests, state])
    cases new <;> cases handler : hasHeader inp.herI.mpqMeta <;>
      simp [retained, pops, MpqFsm.mpqO, MpqFsm.stateO, state, handler]
  | header => cases sent <;> simp [retained, pops, MpqFsm.mpqO, MpqFsm.stateO, state]
  | headerRunning =>
    obtain rfl := sentOnly (by simp [requests, state])
    cases feedback <;> simp [retained, pops, MpqFsm.mpqO, MpqFsm.stateO, state]
  | payload =>
    cases sent with
    | false => simp [retained, pops, MpqFsm.mpqO, MpqFsm.stateO, state]
    | true =>
      -- the last payload task keeps its packet back when a completion task follows
      by_cases last : mpq.eomSeen = true ∧ mpq.length = 1
      · cases completion : mpq.hasCompletion <;> simp [retained, pops, MpqFsm.mpqO, MpqFsm.stateO,
          MpqFsm.hasCompletionO, state, last, completion]
      · have stays : MpqFsm.stateO (MpqEngine.fsmIn inp new true feedback) mpq = .payload := by
          simpa [MpqFsm.stateO, state] using last
        simp [retained, pops, MpqFsm.mpqO, state, stays]
  | payloadDraining =>
    obtain rfl := sentOnly (by simp [requests, state])
    by_cases last : feedback = true ∧ mpq.inFlight = 1
    · cases completion : mpq.hasCompletion <;> simp [retained, pops, MpqFsm.mpqO, MpqFsm.stateO,
        MpqFsm.hasCompletionO, state, last, completion]
    · have stays : MpqFsm.stateO (MpqEngine.fsmIn inp new false feedback) mpq = .payloadDraining := by
        cases completion : mpq.hasCompletion <;>
          simpa [MpqFsm.stateO, state, completion] using last
      simp [retained, pops, MpqFsm.mpqO, MpqFsm.hasCompletionO, state, stays]
  | completion =>
    have completion := completes state
    cases sent <;> simp [retained, pops, MpqFsm.mpqO, MpqFsm.stateO, MpqFsm.hasCompletionO, state,
      completion]
  | completionRunning =>
    obtain rfl := sentOnly (by simp [requests, state])
    cases feedback <;> simp [retained, pops, MpqFsm.mpqO, MpqFsm.stateO, state]

/-- An MPQ enters `Header` with the HER it opens on. -/
theorem header_of_stateO
    (header : MpqFsm.stateO (MpqEngine.fsmIn inp new sent feedback) mpq = .header) :
    mpq.state = .header ∨ new = true := by
  -- only `Free` leads there from another state
  cases state : mpq.state with
  | free =>
    cases new with
    | true => exact .inr rfl
    | false => simp [MpqFsm.stateO, state] at header
  | header => exact .inl rfl
  | headerRunning => cases feedback <;> simp [MpqFsm.stateO, state] at header
  | payload =>
    simp only [MpqFsm.stateO, state] at header
    split at header <;> cases header
  | payloadDraining =>
    simp only [MpqFsm.stateO, state] at header
    split at header
    · split at header <;> cases header
    · cases header
  | completion => cases sent <;> simp [MpqFsm.stateO, state] at header
  | completionRunning => cases feedback <;> simp [MpqFsm.stateO, state] at header

/-- An MPQ enters the completion states with a completion handler. -/
theorem completion_of_stateO
    (completes : mpq.state = .completion ∨ mpq.state = .completionRunning →
      mpq.hasCompletion = true)
    (runs : MpqFsm.stateO (MpqEngine.fsmIn inp new sent feedback) mpq = .completion ∨
      MpqFsm.stateO (MpqEngine.fsmIn inp new sent feedback) mpq = .completionRunning) :
    mpq.hasCompletion = true ∧ mpq.state ≠ .free := by
  -- only `PayloadDraining` leads there, and asks for the handler
  cases state : mpq.state with
  | free =>
    cases new <;> cases handler : hasHeader inp.herI.mpqMeta <;>
      simp [MpqFsm.stateO, state, handler] at runs
  | header => cases sent <;> simp [MpqFsm.stateO, state] at runs
  | headerRunning => cases feedback <;> simp [MpqFsm.stateO, state] at runs
  | payload =>
    simp only [MpqFsm.stateO, state] at runs
    split at runs <;> simp at runs
  | payloadDraining =>
    cases completion : mpq.hasCompletion with
    | true => exact ⟨rfl, by decide⟩
    | false =>
      simp only [MpqFsm.stateO, state, completion] at runs
      split at runs <;> simp at runs
  | completion => exact ⟨completes (.inl state), by decide⟩
  | completionRunning => exact ⟨completes (.inr state), by decide⟩

theorem Stocked.step (stocked : Stocked mpq held) (fits : mpq.length + 1 < 2 ^ mpqCountWidth)
    (requesting : sent = true → requests mpq = true) :
    Stocked (MpqFsm.mpqO (MpqEngine.fsmIn inp new sent feedback) mpq)
      (held - (pops (MpqEngine.fsmIn inp new sent feedback) mpq).toNat + new.toNat) where
  counted := by
    have length := @lengthO_eq inp new sent feedback mpq fits requesting
    have balance := @retained_step inp new sent feedback mpq
      (fun completion => stocked.completes (.inl completion)) requesting
    have counted := stocked.counted
    -- a payload task is requested only while a packet waits
    have positive : (sent && decide (mpq.state = .payload)).toNat ≤ mpq.length := by
      cases pays : sent && decide (mpq.state = .payload) with
      | false => exact Nat.zero_le _
      | true =>
        simp only [Bool.and_eq_true, decide_eq_true_eq] at pays
        have waiting : 0 < mpq.length := by simpa [requests, pays.2] using requesting pays.1
        exact waiting
    show _ = MpqFsm.lengthO _ _ + _
    omega
  opened header := by
    show 0 < MpqFsm.lengthO _ _
    rw [lengthO_eq fits requesting]
    rcases header_of_stateO header with before | rfl
    · have positive := stocked.opened before
      simp only [before, reduceCtorEq, decide_false, Bool.and_false, Bool.toNat_false]
      omega
    · exact Nat.succ_pos _
  completes runs := by
    obtain ⟨completion, busy⟩ := completion_of_stateO stocked.completes runs
    show MpqFsm.hasCompletionO _ _ = true
    cases state : mpq.state <;> simp [MpqFsm.hasCompletionO, state, completion]
    exact absurd state busy
  cleared isFree := by
    have isFree : MpqFsm.stateO (MpqEngine.fsmIn inp new sent feedback) mpq = .free := isFree
    simp [MpqFsm.mpqO, MpqFsm.eomSeenO, isFree]

end MpqPhase

namespace MpqEngine

variable {params : MpqEngineParams}

/-- The FIFO engine holds these packets, the MPQs count them, and the arbiter decides on MPQs
    that request. -/
structure Supplied (engine : MpqEngine params) (queue : params.Idx → List MpqPkt) : Prop where
  packets : engine.fifoEngine.Represents queue
  stocked : ∀ i, Stocked (engine.mpqQ i) (queue i).length
  held : engine.mpqRrArb.Latched engine.mpqValid

theorem supplied_reset (cells : Nat → MpqPkt) (metas : params.Idx → MpqMeta) :
    (reset cells metas).Supplied fun _ => [] where
  packets := ⟨_, FifoEngine.stores_reset cells⟩
  stocked _ :=
    { counted := rfl
      opened := nofun
      completes := by rintro (runs | runs) <;> cases runs
      cleared := fun _ => rfl }
  held := RrArbTree.Latched.reset _

namespace Supplied

variable {engine : MpqEngine params} {queue : params.Idx → List MpqPkt} {inp : MpqEngineIn}
  (supplied : engine.Supplied queue)

include supplied

theorem fits (i : params.Idx) : (engine.mpqQ i).length + 1 < 2 ^ mpqCountWidth := by
  have held := supplied.packets.length_le i
  have counted := (supplied.stocked i).counted
  have cells := params.counted
  have width : 2 ^ mpqCountWidth = 256 := by decide
  simp only [MpqEngineParams.fifoShape, numMpqStaticCells, numMpqCells] at held cells
  omega

theorem requesting (inp : MpqEngineIn) (i : params.Idx)
    (here : (engine.taskSent inp && decide (engine.tasksentMpqIdx = i)) = true) :
    requests (engine.mpqQ i) = true := by
  simp only [Bool.and_eq_true, decide_eq_true_eq] at here
  obtain ⟨sends, rfl⟩ := here
  exact requests_of_sent supplied.held sends

/-- The packet that a granted task reads. -/
theorem front (sends : engine.taskSent inp = true) :
    ∃ pkt, (queue engine.tasksentMpqIdx).head? = some pkt := by
  have requested := requests_of_sent supplied.held sends
  have positive := (supplied.stocked engine.tasksentMpqIdx).held_pos requested
  cases queued : queue engine.tasksentMpqIdx with
  | nil => simp [queued] at positive
  | cons pkt rest => exact ⟨pkt, rfl⟩

/-- A pop takes a packet that is there. -/
theorem queue_ne_nil {i : params.Idx} (popped : (engine.fifoIn inp).pops i = true) :
    queue i ≠ [] := by
  rw [fifoIn_pops] at popped
  have sends : (engine.taskSent inp && decide (engine.tasksentMpqIdx = i)) = true := by
    simp only [pops, eventAt, fsmIn_taskSentI, Bool.and_eq_true] at popped
    simpa using popped.1
  exact List.ne_nil_of_length_pos ((supplied.stocked i).held_pos (supplied.requesting inp i sends))

theorem fifoPermits : engine.fifoEngine.Permits queue (engine.fifoIn inp) := by
  constructor
  · intro pushes
    simp only [fifoIn, fifoPush, herNew, herReadyO, Bool.and_eq_true, Bool.not_eq_true'] at pushes
    exact pushes.2
  · intro popsNow
    have popped : (engine.fifoIn inp).pops (engine.fifoIn inp).fifoPopIdI = true := by
      simp [FifoEngineIn.pops, popsNow]
    exact supplied.queue_ne_nil popped

/-- An MPQ takes the step of its event. -/
theorem mpqQ_step (inp : MpqEngineIn) (i : params.Idx) :
    (engine.step inp).mpqQ i = MpqFsm.mpqO (engine.eventAt inp i) (engine.mpqQ i) :=
  mpqD_of_idle inp (supplied.stocked i).mpqO_idle

/-- An MPQ that requests and is not granted requests in the next cycle. -/
theorem requests_until_granted {i : params.Idx} (requesting : engine.mpqValid i = true)
    (waits : (engine.taskSent inp && decide (engine.tasksentMpqIdx = i)) = false) :
    (engine.step inp).mpqValid i = true := by
  show requests ((engine.step inp).mpqQ i) = true
  rw [supplied.mpqQ_step, eventAt, waits]
  exact requests_step (supplied.fits i) requesting

theorem stocked_step (i : params.Idx) : Stocked ((engine.step inp).mpqQ i)
    (turn ((engine.fifoIn inp).pops i) ((engine.fifoIn inp).pushes i) (newPkt inp)
      (queue i)).length := by
  have stocked := @Stocked.step inp (engine.herNew inp && decide (newherMpqIdx inp = i))
    (engine.taskSent inp && decide (engine.tasksentMpqIdx = i))
    (feedbackTaken inp && decide (feedbackMpqIdx inp = i)) _ _
    (supplied.stocked i) (supplied.fits i) (supplied.requesting inp i)
  have count : (turn ((engine.fifoIn inp).pops i) ((engine.fifoIn inp).pushes i) (newPkt inp)
      (queue i)).length = (queue i).length -
        (pops (engine.eventAt inp i) (engine.mpqQ i)).toNat +
          (engine.herNew inp && decide (newherMpqIdx inp = i)).toNat := by
    rw [← fifoIn_pops, ← fifoIn_pushes]
    cases (engine.fifoIn inp).pops i <;> cases (engine.fifoIn inp).pushes i <;> simp [turn]
  rw [supplied.mpqQ_step, count]
  exact stocked

/-- Any cycle keeps the packets, their counts and the arbiter together. -/
theorem step (inp : MpqEngineIn) : (engine.step inp).Supplied fun i =>
    turn ((engine.fifoIn inp).pops i) ((engine.fifoIn inp).pushes i) (newPkt inp) (queue i) where
  packets := supplied.packets.step supplied.fifoPermits
  stocked i := supplied.stocked_step i
  held := by
    refine supplied.held.step (fun _ => id) fun refused i requested => ?_
    have waits : engine.taskSent inp = false := by simp [taskSent, refused]
    exact supplied.requests_until_granted requested (by rw [waits, Bool.false_and])

end Supplied

end MpqEngine

/-! ## Packets that are given back

The packets of all MPQs in one list, each with its index.  A packet leaves it when the last task
that reads it is granted; this task gives it back.
-/

/-- The packet of a feedback. -/
def FeedbackDescr.pkt (feedback : FeedbackDescr) : MpqPkt where
  pktAddr := feedback.pktAddr
  pktSize := feedback.pktSize

/-- The packets that feedbacks give back. -/
def givenBack (feedbacks : List FeedbackDescr) : List MpqPkt :=
  (feedbacks.filter FeedbackDescr.triggerFeedback).map FeedbackDescr.pkt

@[simp] theorem givenBack_nil : givenBack [] = [] := rfl

@[simp] theorem givenBack_append (first second : List FeedbackDescr) :
    givenBack (first ++ second) = givenBack first ++ givenBack second := by
  simp [givenBack]

theorem givenBack_singleton (feedback : FeedbackDescr) :
    givenBack [feedback] = if feedback.triggerFeedback then [feedback.pkt] else [] := by
  cases triggers : feedback.triggerFeedback <;> simp [givenBack, triggers]

theorem givenBack_perm {first second : List FeedbackDescr} (same : first.Perm second) :
    (givenBack first).Perm (givenBack second) :=
  (same.filter _).map _

theorem mem_givenBack {feedback : FeedbackDescr} {feedbacks : List FeedbackDescr}
    (member : feedback ∈ feedbacks) (triggers : feedback.triggerFeedback = true) :
    feedback.pkt ∈ givenBack feedbacks :=
  List.mem_map_of_mem (List.mem_filter.mpr ⟨member, triggers⟩)

namespace MpqEngine

variable {params : MpqEngineParams} {engine : MpqEngine params}

/-- The packets queued after a cycle. -/
def queuedNext (engine : MpqEngine params) (queued : List (params.Idx × MpqPkt))
    (inp : MpqEngineIn) : List (params.Idx × MpqPkt) :=
  (if engine.fifoPop inp then dropKey engine.tasksentMpqIdx queued else queued) ++
    if engine.herNew inp then [(newherMpqIdx inp, newPkt inp)] else []

namespace Supplied

variable {queued : List (params.Idx × MpqPkt)} {inp : MpqEngineIn}
  (supplied : engine.Supplied fun i => ofKey i queued)

include supplied

theorem queuedNext (inp : MpqEngineIn) :
    (engine.step inp).Supplied fun i => ofKey i (engine.queuedNext queued inp) := by
  have queues : (fun i => ofKey i (engine.queuedNext queued inp)) = fun i =>
      turn ((engine.fifoIn inp).pops i) ((engine.fifoIn inp).pushes i) (newPkt inp)
        (ofKey i queued) := by
    funext i
    have left : ofKey i
        (if engine.fifoPop inp then dropKey engine.tasksentMpqIdx queued else queued) =
        if (engine.fifoIn inp).pops i then (ofKey i queued).tail else ofKey i queued := by
      show _ = if engine.fifoPop inp && decide (engine.tasksentMpqIdx = i) then _ else _
      cases engine.fifoPop inp with
      | false => rfl
      | true =>
        by_cases here : engine.tasksentMpqIdx = i
        · subst here
          simpa using ofKey_dropKey_self _ _
        · simpa [here] using ofKey_dropKey_ne here _
    rw [MpqEngine.queuedNext, ofKey_append, ofKey_ite, turn, left]
    rfl
  rw [queues]
  exact supplied.step inp

/-- A task that is granted gives back the packet that leaves the queues, if one does. -/
theorem givenBack_newTask (sends : engine.taskSent inp = true) :
    ∃ front, (ofKey engine.tasksentMpqIdx queued).head? = some front ∧
      givenBack [(engine.step inp).newTask.feedback] =
        if engine.fifoPop inp then [front] else [] := by
  obtain ⟨front, isFront⟩ := supplied.front sends
  have built := newTask_step supplied.packets sends (requests_of_sent supplied.held sends) isFront
  have triggers : (engine.step inp).newTask.feedback.triggerFeedback = engine.fifoPop inp := by
    rw [built]
    cases (engine.mpqQ engine.tasksentMpqIdx).state <;> rfl
  have packet : (engine.step inp).newTask.feedback.pkt = front := by
    rw [built]
    cases (engine.mpqQ engine.tasksentMpqIdx).state <;> rfl
  exact ⟨front, isFront, by rw [givenBack_singleton, triggers, packet]⟩

theorem queued_perm (inp : MpqEngineIn) : ((engine.queuedNext queued inp).map Prod.snd ++
      givenBack (if engine.taskSent inp then [(engine.step inp).newTask.feedback] else [])).Perm
    (queued.map Prod.snd ++ if engine.herNew inp then [newPkt inp] else []) := by
  have left : ((if engine.fifoPop inp then dropKey engine.tasksentMpqIdx queued
      else queued).map Prod.snd ++
        givenBack (if engine.taskSent inp then [(engine.step inp).newTask.feedback] else [])).Perm
      (queued.map Prod.snd) := by
    cases sends : engine.taskSent inp with
    | false =>
      have stays : engine.fifoPop inp = false := by simp [fifoPop, sends]
      simp [stays]
    | true =>
      obtain ⟨front, isFront, gives⟩ := supplied.givenBack_newTask sends
      rw [if_pos rfl, gives]
      cases engine.fifoPop inp with
      | false => simp
      | true =>
        have dropped := (perm_cons_dropKey isFront).map Prod.snd
        exact (List.perm_append_singleton _ _).trans dropped.symm
  have added : (if engine.herNew inp then [(newherMpqIdx inp, newPkt inp)]
      else ([] : List (params.Idx × MpqPkt))).map Prod.snd =
      if engine.herNew inp then [newPkt inp] else [] := by
    split
    · rfl
    · rfl
  rw [MpqEngine.queuedNext, List.map_append, added, List.append_assoc]
  refine (List.perm_append_comm.append_left _).trans ?_
  rw [← List.append_assoc]
  exact left.append_right _

end Supplied

end MpqEngine

end Pspin
