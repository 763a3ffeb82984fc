import Pspin.PktScheduler.MpqPlan
import Pspin.PktScheduler.FifoQueues

/-! # The phases of one message queue

The relation between an `mpq_t`, the metadata stored for it, the packets queued
for it and the part of its plan that is still to be sent has one case for each
state of `mpq_fsm`.  One cycle of the state machine, with any coincidence of a
new HER, a task sent and a feedback, sends the next task of the plan or none and
appends the block of the new HER.
-/

namespace Pspin

open Clocked

namespace MpqPhase

open MpqPlan

/-- Only the last of the pending HERs may end the message, and does if `eom`. -/
def Closing (eom : Bool) : List HerDescr → Prop
  | [] => eom = false
  | [her] => her.eom = eom
  | her :: next :: rest => her.eom = false ∧ Closing eom (next :: rest)

/-- The metadata a further HER of the message would meet. -/
def openOf (eom : Bool) (stored : MpqMeta) : Option MpqMeta := if eom then none else some stored

/-- The tasks left for pending packets. -/
def payloads (msgid : MsgId) (stored : MpqMeta) (pending : List HerDescr) : List Planned :=
  pending.flatMap (packetBlock msgid stored)

/-- `stored` is the metadata in memory, `opened` that of the open message, `rest`
    the tasks still to be sent, `queue` the packets held in the FIFO engine. -/
inductive InPhase (msgid : MsgId) (stored : MpqMeta) :
    Mpq → Option MpqMeta → List Planned → List MpqPkt → Prop
  | free (inFlight : Nat) (completion : Bool) :
    InPhase msgid stored ⟨.free, 0, inFlight, completion, false⟩ none [] []
  | header (inFlight : Nat) (eom : Bool) (first : HerDescr) (more : List HerDescr)
    (closing : Closing eom (first :: more)) :
    InPhase msgid stored
      ⟨.header, (first :: more).length, inFlight, hasCompletion stored, eom⟩ (openOf eom stored)
      (headerTask msgid stored (pktOf first) false :: payloads msgid stored (first :: more))
      ((first :: more).map pktOf)
  | headerRunning (inFlight : Nat) (eom : Bool) (pending : List HerDescr)
    (closing : Closing eom pending) :
    InPhase msgid stored ⟨.headerRunning, pending.length, inFlight, hasCompletion stored, eom⟩
      (openOf eom stored) (payloads msgid stored pending) (pending.map pktOf)
  | payload (inFlight : Nat) (eom : Bool) (pending : List HerDescr) (closing : Closing eom pending) :
    InPhase msgid stored ⟨.payload, pending.length, inFlight, hasCompletion stored, eom⟩
      (openOf eom stored) (payloads msgid stored pending) (pending.map pktOf)
  | drainingToCompletion (inFlight : Nat) (last : HerDescr) :
    InPhase msgid stored ⟨.payloadDraining, 0, inFlight, true, true⟩ none
      [completionTask msgid stored (pktOf last) true] [pktOf last]
  | drainingToFree (inFlight : Nat) :
    InPhase msgid stored ⟨.payloadDraining, 0, inFlight, false, true⟩ none [] []
  | completion (inFlight : Nat) (last : HerDescr) :
    InPhase msgid stored ⟨.completion, 0, inFlight, true, true⟩ none
      [completionTask msgid stored (pktOf last) true] [pktOf last]
  | completionRunning (inFlight : Nat) :
    InPhase msgid stored ⟨.completionRunning, 0, inFlight, true, true⟩ none [] []

/-- The condition of `mpq_valid`. -/
def requests (mpq : Mpq) : Bool :=
  decide (mpq.state = .header) || (decide (mpq.state = .payload) && decide (0 < mpq.length)) ||
    decide (mpq.state = .completion)

/-- The condition of `fifo_pop`, for one MPQ. -/
def pops (event : MpqFsmIn) (mpq : Mpq) : Bool :=
  let next := MpqFsm.mpqO event mpq
  event.taskSentI &&
    (decide (mpq.state = .payload) && decide (next.state = .payload) ||
      decide (mpq.state = .payload) && decide (next.state = .payloadDraining) &&
        !next.hasCompletion ||
      decide (mpq.state = .completion))

/-- The task an MPQ in some state sends, from what the memories return. -/
def taskFor (msgid : MsgId) (state : MpqState) (stored : MpqMeta) (front : MpqPkt)
    (triggerFeedback : Bool) : Planned :=
  match state with
  | .header => headerTask msgid stored front triggerFeedback
  | .completion => completionTask msgid stored front triggerFeedback
  | _ => payloadTask msgid stored front triggerFeedback

theorem taskFor_solitary {msgid : MsgId} {mpq : Mpq} {stored : MpqMeta} {front : MpqPkt}
    {triggerFeedback : Bool} (requesting : requests mpq = true) :
    (taskFor msgid mpq.state stored front triggerFeedback).solitary =
      decide (mpq.state ≠ .payload) := by
  cases isState : mpq.state <;> simp [requests, isState] at requesting <;> rfl

section Event

variable (inp : MpqEngineIn) (new sent feedback : Bool)

@[simp] theorem fsmIn_herNewI : (MpqEngine.fsmIn inp new sent feedback).herNewI = new := rfl

@[simp] theorem fsmIn_taskSentI : (MpqEngine.fsmIn inp new sent feedback).taskSentI = sent := rfl

@[simp] theorem fsmIn_feedbackI :
    (MpqEngine.fsmIn inp new sent feedback).feedbackI = feedback := rfl

@[simp] theorem fsmIn_herNewHasHhI :
    (MpqEngine.fsmIn inp new sent feedback).herNewHasHhI = hasHeader inp.herI.mpqMeta := rfl

@[simp] theorem fsmIn_herNewHasThI :
    (MpqEngine.fsmIn inp new sent feedback).herNewHasThI = hasCompletion inp.herI.mpqMeta := rfl

@[simp] theorem fsmIn_herNewIsEomI :
    (MpqEngine.fsmIn inp new sent feedback).herNewIsEomI = inp.herI.eom := rfl

end Event

/-! ## Arriving HERs -/

theorem Closing.append {pending : List HerDescr} (closing : Closing false pending)
    (her : HerDescr) : Closing her.eom (pending ++ [her]) := by
  induction pending with
  | nil => rfl
  | cons first more inductionHypothesis =>
    cases more with
    | nil => exact ⟨closing, rfl⟩
    | cons second more => exact ⟨closing.1, inductionHypothesis closing.2⟩

variable {msgid : MsgId} {stored : MpqMeta} {mpq : Mpq} {opened : Option MpqMeta}
  {rest : List Planned} {queue : List MpqPkt} {inp : MpqEngineIn} {new sent feedback : Bool}

/-- What a cycle that may bring one more HER makes of the pending ones. -/
structure Arrived (msgid : MsgId) (stored : MpqMeta) (her : HerDescr) (new : Bool) (eom : Bool)
    (pending : List HerDescr) (eom' : Bool) (pending' : List HerDescr) : Prop where
  closing : Closing eom' pending'
  length : pending'.length = pending.length + new.toNat
  seen : (if new && her.eom then true else eom) = eom'
  opens : (if new then metaAfter (openOf eom stored) her else openOf eom stored) =
    openOf eom' stored
  blocks : payloads msgid stored pending ++
      (if new then block msgid (openOf eom stored) her else []) = payloads msgid stored pending'
  queued : turn false new (pktOf her) (pending.map pktOf) = pending'.map pktOf

/-- A HER joins a message that is still open; the message ends with it if it is the eom. -/
theorem arrive {eom : Bool} {pending : List HerDescr} (closing : Closing eom pending)
    (msgid : MsgId) (stored : MpqMeta) (her : HerDescr)
    (boundary : new = true → openOf eom stored ≠ none) :
    ∃ eom', Arrived msgid stored her new eom pending eom'
      (pending ++ if new then [her] else []) := by
  cases new with
  | false =>
    exact ⟨eom,
      { closing := by simpa using closing
        length := by simp
        seen := by simp
        opens := by simp
        blocks := by simp
        queued := by simp [turn] }⟩
  | true =>
    obtain rfl : eom = false := by simpa [openOf] using boundary
    exact ⟨her.eom,
      { closing := closing.append her
        length := by simp
        seen := by cases her.eom <;> simp
        opens := by simp [metaAfter, openOf]
        blocks := by simp [payloads, block, openOf]
        queued := by simp [turn] }⟩

/-! ## One cycle in each state -/

/-- What a cycle does to the plan: `granted` is the task it sends, if it sends one. -/
def Advances (msgid : MsgId) (stored : MpqMeta) (mpq : Mpq) (opened : Option MpqMeta)
    (rest : List Planned) (queue : List MpqPkt) (inp : MpqEngineIn) (new sent feedback : Bool) :
    Prop :=
  let event := MpqEngine.fsmIn inp new sent feedback
  ∃ granted rest', rest ++ (if new then block msgid opened inp.herI else []) = granted ++ rest' ∧
    (if sent then ∃ front, queue.head? = some front ∧
      granted = [taskFor msgid mpq.state stored front (pops event mpq)] else granted = []) ∧
    InPhase msgid (if new && decide (mpq.state = .free) then inp.herI.mpqMeta else stored)
      (MpqFsm.mpqO event mpq) (if new then metaAfter opened inp.herI else opened) rest'
      (turn (pops event mpq) new (pktOf inp.herI) queue)

theorem length_arrive (fits : mpq.length + 1 < 2 ^ mpqCountWidth)
    (stays : MpqFsm.poppingHer (MpqEngine.fsmIn inp new sent feedback) mpq = false) :
    MpqFsm.lengthO (MpqEngine.fsmIn inp new sent feedback) mpq = mpq.length + new.toNat := by
  rw [MpqFsm.lengthO, stays, fsmIn_herNewI]
  cases new with
  | false => rfl
  | true => exact increment_of_lt fits

theorem free_advances (inFlight : Nat) (completion : Bool) (idle : sent = false) :
    Advances msgid stored ⟨.free, 0, inFlight, completion, false⟩ none [] [] inp new sent
      feedback := by
  subst idle
  cases new with
  | false =>
    refine ⟨[], [], rfl, rfl, ?_⟩
    exact InPhase.free _ completion
  | true =>
    have closing : Closing inp.herI.eom [inp.herI] := rfl
    have start : increment mpqCountWidth 0 = 1 := increment_of_lt (by decide)
    have opens : metaAfter none inp.herI = openOf inp.herI.eom inp.herI.mpqMeta := by
      simp [metaAfter, openOf]
    refine ⟨[], _, (List.nil_append _), rfl, ?_⟩
    cases handler : hasHeader inp.herI.mpqMeta with
    | true =>
      have next : MpqFsm.mpqO (MpqEngine.fsmIn inp true false feedback)
          ⟨.free, 0, inFlight, completion, false⟩ =
          ⟨.header, 1, MpqFsm.inFlightO (MpqEngine.fsmIn inp true false feedback)
            ⟨.free, 0, inFlight, completion, false⟩, hasCompletion inp.herI.mpqMeta, inp.herI.eom⟩ := by
        simp [MpqFsm.mpqO, MpqFsm.stateO, MpqFsm.lengthO, MpqFsm.hasCompletionO,
          MpqFsm.eomSeenO, MpqFsm.poppingHer, handler, start]
      simpa [next, opens, block, headerBlock, handler, payloads, turn, pops]
        using InPhase.header _ _ inp.herI [] closing
    | false =>
      have next : MpqFsm.mpqO (MpqEngine.fsmIn inp true false feedback)
          ⟨.free, 0, inFlight, completion, false⟩ =
          ⟨.payload, 1, MpqFsm.inFlightO (MpqEngine.fsmIn inp true false feedback)
            ⟨.free, 0, inFlight, completion, false⟩, hasCompletion inp.herI.mpqMeta, inp.herI.eom⟩ := by
        simp [MpqFsm.mpqO, MpqFsm.stateO, MpqFsm.lengthO, MpqFsm.hasCompletionO,
          MpqFsm.eomSeenO, MpqFsm.poppingHer, handler, start]
      simpa [next, opens, block, headerBlock, handler, payloads, turn, pops]
        using InPhase.payload _ _ [inp.herI] closing

/-- Away from `Free` an `mpq_fsm` keeps the completion flag and only sets the eom flag. -/
theorem mpqO_of_busy (busy : mpq.state ≠ .free)
    (stays : MpqFsm.stateO (MpqEngine.fsmIn inp new sent feedback) mpq ≠ .free) :
    MpqFsm.mpqO (MpqEngine.fsmIn inp new sent feedback) mpq =
      ⟨MpqFsm.stateO (MpqEngine.fsmIn inp new sent feedback) mpq,
        MpqFsm.lengthO (MpqEngine.fsmIn inp new sent feedback) mpq,
        MpqFsm.inFlightO (MpqEngine.fsmIn inp new sent feedback) mpq, mpq.hasCompletion,
        if new && inp.herI.eom then true else mpq.eomSeen⟩ := by
  have kept : MpqFsm.hasCompletionO (MpqEngine.fsmIn inp new sent feedback) mpq =
      mpq.hasCompletion := by
    cases state : mpq.state <;> simp [MpqFsm.hasCompletionO, state]
    exact absurd state busy
  simp [MpqFsm.mpqO, kept, MpqFsm.eomSeenO, stays]

theorem pops_of_stays {event : MpqFsmIn} (sends : event.taskSentI = true)
    (paying : mpq.state = .payload) (stays : MpqFsm.stateO event mpq = .payload) :
    pops event mpq = true := by
  simp [pops, MpqFsm.mpqO, sends, paying, stays]

theorem pops_eq_false_of_state {event : MpqFsmIn} (notPayload : mpq.state ≠ .payload)
    (notCompletion : mpq.state ≠ .completion) : pops event mpq = false := by
  simp [pops, notPayload, notCompletion]

section Pending

variable {eom : Bool} {inFlight : Nat}

theorem header_advances {first : HerDescr} {more : List HerDescr}
    (closing : Closing eom (first :: more))
    (fits : (first :: more).length + 1 < 2 ^ mpqCountWidth)
    (boundary : new = true → openOf eom stored ≠ none) :
    Advances msgid stored ⟨.header, (first :: more).length, inFlight, hasCompletion stored, eom⟩
      (openOf eom stored)
      (headerTask msgid stored (pktOf first) false :: payloads msgid stored (first :: more))
      ((first :: more).map pktOf) inp new sent feedback := by
  obtain ⟨eom', arrived⟩ := arrive closing msgid stored inp.herI boundary
  have len : MpqFsm.lengthO (MpqEngine.fsmIn inp new sent feedback)
      ⟨.header, (first :: more).length, inFlight, hasCompletion stored, eom⟩ = _ :=
    (length_arrive fits (by simp [MpqFsm.poppingHer])).trans arrived.length.symm
  have next : MpqFsm.mpqO (MpqEngine.fsmIn inp new sent feedback)
      ⟨.header, (first :: more).length, inFlight, hasCompletion stored, eom⟩ = _ :=
    mpqO_of_busy (by simp) (by cases sent <;> simp [MpqFsm.stateO])
  cases sent with
  | true =>
    refine ⟨[headerTask msgid stored (pktOf first) false],
      payloads msgid stored (first :: more ++ if new then [inp.herI] else []),
      congrArg (headerTask msgid stored (pktOf first) false :: ·) arrived.blocks,
      ⟨pktOf first, rfl, by simp [pops, taskFor]⟩, ?_⟩
    rw [next, len, arrived.seen, arrived.opens, pops_eq_false_of_state (by simp) (by simp),
      arrived.queued]
    simpa [MpqFsm.stateO] using InPhase.headerRunning _ _ _ arrived.closing
  | false =>
    refine ⟨[], headerTask msgid stored (pktOf first) false ::
      payloads msgid stored (first :: more ++ if new then [inp.herI] else []),
      congrArg (headerTask msgid stored (pktOf first) false :: ·) arrived.blocks, rfl, ?_⟩
    rw [next, len, arrived.seen, arrived.opens, pops_eq_false_of_state (by simp) (by simp),
      arrived.queued]
    simpa [MpqFsm.stateO] using InPhase.header _ _ _ _ arrived.closing

/-- An MPQ that sends nothing only collects packets, in whatever state it goes to. -/
theorem collects {state : MpqState} (next : MpqState) {pending : List HerDescr}
    (closing : Closing eom pending) (fits : pending.length + 1 < 2 ^ mpqCountWidth)
    (boundary : new = true → openOf eom stored ≠ none)
    (busy : state ≠ .free) (moves : MpqFsm.stateO (MpqEngine.fsmIn inp new false feedback)
      ⟨state, pending.length, inFlight, hasCompletion stored, eom⟩ = next) (stays : next ≠ .free)
    (inPhase : ∀ inFlight eom pending, Closing eom pending →
      InPhase msgid stored ⟨next, pending.length, inFlight, hasCompletion stored, eom⟩
        (openOf eom stored) (payloads msgid stored pending) (pending.map pktOf)) :
    Advances msgid stored ⟨state, pending.length, inFlight, hasCompletion stored, eom⟩
      (openOf eom stored) (payloads msgid stored pending) (pending.map pktOf) inp new false
      feedback := by
  obtain ⟨eom', arrived⟩ := arrive closing msgid stored inp.herI boundary
  have len : MpqFsm.lengthO (MpqEngine.fsmIn inp new false feedback)
      ⟨state, pending.length, inFlight, hasCompletion stored, eom⟩ = _ :=
    (length_arrive fits (by simp [MpqFsm.poppingHer])).trans arrived.length.symm
  refine ⟨[], payloads msgid stored (pending ++ if new then [inp.herI] else []),
    arrived.blocks, rfl, ?_⟩
  rw [mpqO_of_busy busy (by rw [moves]; exact stays), moves, len, arrived.seen, arrived.opens]
  simpa [busy, pops, arrived.queued] using inPhase _ _ _ arrived.closing

theorem headerRunning_advances {pending : List HerDescr} (closing : Closing eom pending)
    (fits : pending.length + 1 < 2 ^ mpqCountWidth)
    (boundary : new = true → openOf eom stored ≠ none) (idle : sent = false) :
    Advances msgid stored ⟨.headerRunning, pending.length, inFlight, hasCompletion stored, eom⟩
      (openOf eom stored) (payloads msgid stored pending) (pending.map pktOf) inp new sent
      feedback := by
  subst idle
  cases feedback with
  | true => exact collects .payload closing fits boundary nofun rfl nofun .payload
  | false => exact collects .headerRunning closing fits boundary nofun rfl nofun .headerRunning

theorem payload_waits {pending : List HerDescr} (closing : Closing eom pending)
    (fits : pending.length + 1 < 2 ^ mpqCountWidth)
    (boundary : new = true → openOf eom stored ≠ none) (idle : sent = false) :
    Advances msgid stored ⟨.payload, pending.length, inFlight, hasCompletion stored, eom⟩
      (openOf eom stored) (payloads msgid stored pending) (pending.map pktOf) inp new sent
      feedback := by
  subst idle
  exact collects .payload closing fits boundary nofun (by simp [MpqFsm.stateO]) nofun .payload

/-- A payload task other than the last one: its packet leaves the queue. -/
theorem payload_sends {first : HerDescr} {more : List HerDescr}
    (closing : Closing eom (first :: more))
    (fits : (first :: more).length + 1 < 2 ^ mpqCountWidth)
    (boundary : new = true → openOf eom stored ≠ none)
    (inside : eom = true → more ≠ []) :
    Advances msgid stored ⟨.payload, (first :: more).length, inFlight, hasCompletion stored, eom⟩
      (openOf eom stored) (payloads msgid stored (first :: more)) ((first :: more).map pktOf)
      inp new true feedback := by
  obtain ⟨notLast, closingMore⟩ : first.eom = false ∧ Closing eom more := by
    cases more with
    | nil =>
      have early : eom = false := by simpa using inside
      exact ⟨closing.trans early, early⟩
    | cons second more => exact closing
  obtain ⟨eom', arrived⟩ := arrive closingMore msgid stored inp.herI boundary
  have len : MpqFsm.lengthO (MpqEngine.fsmIn inp new true feedback)
      ⟨.payload, (first :: more).length, inFlight, hasCompletion stored, eom⟩ =
      (more ++ if new then [inp.herI] else []).length := by
    have small : decrement mpqCountWidth (more.length + 1) = more.length :=
      decrement_of_pos (Nat.succ_pos _) (Nat.lt_of_succ_lt fits)
    cases new <;> simp [MpqFsm.lengthO, MpqFsm.poppingHer, small]
  have remains : MpqFsm.stateO (MpqEngine.fsmIn inp new true feedback)
      ⟨.payload, (first :: more).length, inFlight, hasCompletion stored, eom⟩ = .payload := by
    simp only [MpqFsm.stateO, fsmIn_taskSentI, Bool.true_and]
    rw [if_neg]
    simpa using inside
  have next : MpqFsm.mpqO (MpqEngine.fsmIn inp new true feedback)
      ⟨.payload, (first :: more).length, inFlight, hasCompletion stored, eom⟩ = _ :=
    mpqO_of_busy (by simp) (by rw [remains]; simp)
  have popped : pops (MpqEngine.fsmIn inp new true feedback)
      ⟨.payload, (first :: more).length, inFlight, hasCompletion stored, eom⟩ = true :=
    pops_of_stays rfl rfl remains
  have front : packetBlock msgid stored first = [payloadTask msgid stored (pktOf first) true] := by
    simp [packetBlock, notLast]
  -- the popped packet is the front of the queue, whatever arrives behind it
  have queued : turn true new (pktOf inp.herI) ((first :: more).map pktOf) =
      turn false new (pktOf inp.herI) (more.map pktOf) := rfl
  refine ⟨packetBlock msgid stored first,
    payloads msgid stored (more ++ if new then [inp.herI] else []), ?_,
    ⟨pktOf first, rfl, by rw [front, popped]; rfl⟩, ?_⟩
  · rw [payloads, List.flatMap_cons, List.append_assoc]
    exact congrArg (packetBlock msgid stored first ++ ·) arrived.blocks
  · rw [next, remains, len, arrived.seen, arrived.opens, popped, queued, arrived.queued]
    simpa using InPhase.payload _ _ _ arrived.closing

/-- The last payload task: its packet stays queued if a completion task will read it. -/
theorem payload_drains {last : HerDescr} (ends : last.eom = true) (quiet : new = false) :
    Advances msgid stored ⟨.payload, 1, inFlight, hasCompletion stored, true⟩
      none (payloads msgid stored [last]) [pktOf last] inp new true feedback := by
  subst quiet
  have emptied : decrement mpqCountWidth 1 = 0 := decrement_of_pos Nat.one_pos (by decide)
  have drains : MpqFsm.stateO (MpqEngine.fsmIn inp false true feedback)
      ⟨.payload, 1, inFlight, hasCompletion stored, true⟩ = .payloadDraining := by
    simp [MpqFsm.stateO]
  have next : MpqFsm.mpqO (MpqEngine.fsmIn inp false true feedback)
      ⟨.payload, 1, inFlight, hasCompletion stored, true⟩ = _ :=
    mpqO_of_busy (by simp) (by rw [drains]; simp)
  have popped : pops (MpqEngine.fsmIn inp false true feedback)
      ⟨.payload, 1, inFlight, hasCompletion stored, true⟩ = !hasCompletion stored := by
    simp [pops, next, drains]
  rw [Advances, next, drains, popped]
  cases handler : hasCompletion stored with
  | true =>
    refine ⟨[payloadTask msgid stored (pktOf last) false],
      [completionTask msgid stored (pktOf last) true], ?_, ⟨pktOf last, rfl, rfl⟩, ?_⟩
    · simp [payloads, packetBlock, ends, handler]
    · simpa [MpqFsm.lengthO, MpqFsm.poppingHer, emptied, turn, handler] using
        @InPhase.drainingToCompletion msgid stored _ last
  | false =>
    refine ⟨[payloadTask msgid stored (pktOf last) true], [], ?_, ⟨pktOf last, rfl, rfl⟩, ?_⟩
    · simp [payloads, packetBlock, handler]
    · simpa [MpqFsm.lengthO, MpqFsm.poppingHer, emptied, turn, handler] using
        @InPhase.drainingToFree msgid stored _

theorem drainingToCompletion_advances {last : HerDescr} (quiet : new = false) (idle : sent = false) :
    Advances msgid stored ⟨.payloadDraining, 0, inFlight, true, true⟩ none
      [completionTask msgid stored (pktOf last) true] [pktOf last] inp new sent feedback := by
  subst quiet idle
  refine ⟨[], [completionTask msgid stored (pktOf last) true], rfl, rfl, ?_⟩
  rw [pops_eq_false_of_state (by simp) (by simp)]
  by_cases drained : feedback = true ∧ inFlight = 1
  · obtain ⟨rfl, rfl⟩ := drained
    exact InPhase.completion _ last
  · have waits : MpqFsm.stateO (MpqEngine.fsmIn inp false false feedback)
        ⟨.payloadDraining, 0, inFlight, true, true⟩ = .payloadDraining := by
      simpa [MpqFsm.stateO] using drained
    rw [mpqO_of_busy (by simp) (by rw [waits]; simp), waits]
    exact InPhase.drainingToCompletion _ last

theorem drainingToFree_advances (quiet : new = false) (idle : sent = false) :
    Advances msgid stored ⟨.payloadDraining, 0, inFlight, false, true⟩ none [] [] inp new sent
      feedback := by
  subst quiet idle
  refine ⟨[], [], rfl, rfl, ?_⟩
  rw [pops_eq_false_of_state (by simp) (by simp)]
  by_cases drained : feedback = true ∧ inFlight = 1
  · obtain ⟨rfl, rfl⟩ := drained
    exact InPhase.free _ false
  · have waits : MpqFsm.stateO (MpqEngine.fsmIn inp false false feedback)
        ⟨.payloadDraining, 0, inFlight, false, true⟩ = .payloadDraining := by
      simpa [MpqFsm.stateO] using drained
    rw [mpqO_of_busy (by simp) (by rw [waits]; simp), waits]
    exact InPhase.drainingToFree _

theorem completion_advances {last : HerDescr} (quiet : new = false) :
    Advances msgid stored ⟨.completion, 0, inFlight, true, true⟩ none
      [completionTask msgid stored (pktOf last) true] [pktOf last] inp new sent feedback := by
  subst quiet
  cases sent with
  | true =>
    refine ⟨[completionTask msgid stored (pktOf last) true], [], rfl, ⟨pktOf last, rfl, rfl⟩, ?_⟩
    exact InPhase.completionRunning _
  | false =>
    refine ⟨[], [completionTask msgid stored (pktOf last) true], rfl, rfl, ?_⟩
    exact InPhase.completion _ last

theorem completionRunning_advances (quiet : new = false) (idle : sent = false) :
    Advances msgid stored ⟨.completionRunning, 0, inFlight, true, true⟩ none [] [] inp new sent
      feedback := by
  subst quiet idle
  refine ⟨[], [], rfl, rfl, ?_⟩
  cases feedback with
  | true => exact InPhase.free _ true
  | false => exact InPhase.completionRunning _

end Pending

/-- One cycle of a message queue, whatever coincides in it. -/
theorem InPhase.advances (phase : InPhase msgid stored mpq opened rest queue)
    (inp : MpqEngineIn) {new sent : Bool} (feedback : Bool)
    (boundary : new = true → opened = none → mpq.state = .free)
    (fits : mpq.length + 1 < 2 ^ mpqCountWidth) (requesting : sent = true → requests mpq = true) :
    Advances msgid stored mpq opened rest queue inp new sent feedback := by
  cases phase with
  | free inFlight completion =>
    exact free_advances inFlight completion (by simpa [requests] using requesting)
  | header inFlight eom first more closing =>
    exact header_advances closing fits fun arrived closed => by simpa using boundary arrived closed
  | headerRunning inFlight eom pending closing =>
    exact headerRunning_advances closing fits
      (fun arrived closed => by simpa using boundary arrived closed)
      (by simpa [requests] using requesting)
  | payload inFlight eom pending closing =>
    have ongoing : new = true → openOf eom stored ≠ none := fun arrived closed => by
      simpa using boundary arrived closed
    cases sent with
    | false => exact payload_waits closing fits ongoing rfl
    | true =>
      cases pending with
      | nil => simp [requests] at requesting
      | cons first more =>
        by_cases inside : eom = true → more ≠ []
        · exact payload_sends closing fits ongoing inside
        · obtain ⟨rfl, rfl⟩ : eom = true ∧ more = [] := by simpa using inside
          exact payload_drains closing (by simpa [openOf] using ongoing)
  | drainingToCompletion inFlight last =>
    exact drainingToCompletion_advances (by simpa using boundary) (by simpa [requests] using requesting)
  | drainingToFree inFlight =>
    exact drainingToFree_advances (by simpa using boundary) (by simpa [requests] using requesting)
  | completion inFlight last => exact completion_advances (by simpa using boundary)
  | completionRunning inFlight =>
    exact completionRunning_advances (by simpa using boundary) (by simpa [requests] using requesting)

/-- An `mpq_fsm` nothing happens to would write back what it read. -/
theorem InPhase.mpqO_idle (phase : InPhase msgid stored mpq opened rest queue) :
    MpqFsm.mpqO (MpqEngine.fsmIn inp false false false) mpq = mpq := by
  cases phase <;> simp [MpqFsm.mpqO, MpqFsm.stateO, MpqFsm.lengthO, MpqFsm.inFlightO,
    MpqFsm.hasCompletionO, MpqFsm.eomSeenO, MpqFsm.poppingHer]

/-! ## What a phase says about the counters and the queue -/

/-- The eom packet stays queued for the completion task. -/
theorem InPhase.queue_length (phase : InPhase msgid stored mpq opened rest queue) :
    queue.length = mpq.length +
      if mpq.hasCompletion = true ∧ (mpq.state = .payloadDraining ∨ mpq.state = .completion)
      then 1 else 0 := by
  cases phase <;> simp

theorem InPhase.length_le (phase : InPhase msgid stored mpq opened rest queue) :
    mpq.length ≤ queue.length := by
  rw [phase.queue_length]
  omega

/-- An MPQ that requests has a packet to send. -/
theorem InPhase.queue_ne_nil (phase : InPhase msgid stored mpq opened rest queue)
    (requesting : requests mpq = true) : queue ≠ [] := by
  cases phase with
  | payload inFlight eom pending closing =>
    cases pending with
    | nil => simp [requests] at requesting
    | cons first more => simp
  | header inFlight eom first more closing => simp
  | completion inFlight last => simp
  | _ => simp [requests] at requesting

theorem InPhase.free_rest (phase : InPhase msgid stored mpq opened rest queue)
    (isFree : mpq.state = .free) : rest = [] ∧ opened = none := by
  cases phase <;> simp at isFree ⊢

/-- The number of payload tasks still to be sent. -/
theorem InPhase.countP_payload (phase : InPhase msgid stored mpq opened rest queue) :
    rest.countP (fun planned => decide (planned.kind = .payload)) = mpq.length := by
  have each (pending : List HerDescr) : (payloads msgid stored pending).countP
      (fun planned => decide (planned.kind = .payload)) = pending.length := by
    induction pending with
    | nil => rfl
    | cons her pending inductionHypothesis =>
      have one : (packetBlock msgid stored her).countP
          (fun planned => decide (planned.kind = .payload)) = 1 := by
        unfold packetBlock
        split <;> simp [payloadTask, completionTask]
      rw [payloads, List.flatMap_cons, List.countP_append, one]
      simp only [payloads] at inductionHypothesis
      rw [inductionHypothesis, List.length_cons, Nat.add_comm]
  cases phase <;> simp [each, headerTask, completionTask]

end MpqPhase

end Pspin
