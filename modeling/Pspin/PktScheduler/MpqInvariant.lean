import Pspin.PktScheduler.MpqMerge
import Pspin.PktScheduler.MpqPhase

/-! # What `mpq_engine` has done

A history records, for each MPQ, what crossed the interface: HERs accepted, tasks
handed out, feedbacks still owed and feedbacks forwarded to the NIC.  The tasks
handed out and the one on offer are always a prefix of the plan of the HERs, and
the rest of the plan, the state of the MPQ and its packets are in phase.
-/

namespace Pspin

open Clocked MpqPlan MpqPhase

/-- What crossed the interface of the engine, for each MPQ. -/
structure MpqHistory (params : MpqEngineParams) where
  hers : params.Idx → List HerDescr
  handed : params.Idx → List HandlerTask
  owed : params.Idx → List FeedbackDescr
  nic : params.Idx → List FeedbackDescr

namespace MpqEngine

variable {params : MpqEngineParams}

/-- The task on `task_o`. -/
def offer (engine : MpqEngine params) : List HandlerTask :=
  if engine.taskValidO then [engine.taskO] else []

/-- The task an MPQ has on `task_o`. -/
def offered (engine : MpqEngine params) (i : params.Idx) : List HandlerTask :=
  if engine.taskValidO && decide (params.mpqIdx engine.taskO.msgid = i) then [engine.taskO] else []

/-- The event one cycle is for one MPQ. -/
def eventAt (engine : MpqEngine params) (inp : MpqEngineIn) (i : params.Idx) : MpqFsmIn :=
  fsmIn inp (engine.herNew inp && decide (newherMpqIdx inp = i))
    (engine.taskSent inp && decide (engine.tasksentMpqIdx = i))
    (feedbackTaken inp && decide (feedbackMpqIdx inp = i))

end MpqEngine

namespace MpqHistory

variable {params : MpqEngineParams}

def empty : MpqHistory params where
  hers := fun _ => []
  handed := fun _ => []
  owed := fun _ => []
  nic := fun _ => []

def record (engine : MpqEngine params) (history : MpqHistory params) (inp : MpqEngineIn) :
    MpqHistory params where
  hers i := history.hers i ++
    if engine.herNew inp && decide (MpqEngine.newherMpqIdx inp = i) then [inp.herI] else []
  handed i := history.handed i ++ if inp.taskReadyI then engine.offered i else []
  owed i :=
    (if MpqEngine.feedbackTaken inp && decide (MpqEngine.feedbackMpqIdx inp = i)
      then (history.owed i).erase inp.feedbackI else history.owed i) ++
    (if inp.taskReadyI then (engine.offered i).map HandlerTask.feedback else [])
  nic i := history.nic i ++
    if MpqEngine.nicFeedbackValidO inp && inp.nicFeedbackReadyI &&
      decide (MpqEngine.feedbackMpqIdx inp = i) then [MpqEngine.nicFeedbackO inp] else []

end MpqHistory

/-- An engine and its history. -/
abbrev MpqTrace (params : MpqEngineParams) := MpqEngine params × MpqHistory params

def mpqTrace (params : MpqEngineParams) (cells : Nat → MpqPkt) (metas : params.Idx → MpqMeta) :
    Machine (MpqTrace params) MpqEngineIn :=
  (mpqEngine params cells metas).observedBy MpqHistory.empty MpqHistory.record

namespace MpqTrace

variable {params : MpqEngineParams} (trace : MpqTrace params)

def step (inp : MpqEngineIn) : MpqTrace params :=
  (trace.1.step inp, MpqHistory.record trace.1 trace.2 inp)

def sentCount (i : params.Idx) : Nat := (trace.2.handed i ++ trace.1.offered i).length

/-- The part of the plan handed out or on offer. -/
def issued (i : params.Idx) : List Planned :=
  (plan (MpqEngine.idxMsgid i) (trace.2.hers i)).take (trace.sentCount i)

/-- The part of the plan still to be sent. -/
def pending (i : params.Idx) : List Planned :=
  (plan (MpqEngine.idxMsgid i) (trace.2.hers i)).drop (trace.sentCount i)

/-- The next message of an MPQ starts when the last one is over, and feedbacks
    answer tasks that were handed out. -/
def Permits (inp : MpqEngineIn) : Prop :=
  (trace.1.herNew inp = true → openMeta (trace.2.hers (MpqEngine.newherMpqIdx inp)) = none →
    (trace.1.mpqQ (MpqEngine.newherMpqIdx inp)).state = .free) ∧
  (MpqEngine.feedbackTaken inp = true →
    inp.feedbackI ∈ trace.2.owed (MpqEngine.feedbackMpqIdx inp))

instance (inp : MpqEngineIn) : Decidable (trace.Permits inp) :=
  inferInstanceAs (Decidable (_ ∧ _))

/-- The engine is where its history says. -/
structure Tracks : Prop where
  queues : ∃ queue, trace.1.fifoEngine.Represents queue ∧
    ∀ i, InPhase (MpqEngine.idxMsgid i) (trace.1.mpqMetaMem.sram i) (trace.1.mpqQ i)
      (openMeta (trace.2.hers i)) (trace.pending i) (queue i)
  sent : ∀ i, (trace.issued i).map Planned.task = trace.2.handed i ++ trace.1.offered i
  held : trace.1.mpqRrArb.Latched trace.1.mpqValid

end MpqTrace

namespace MpqEngine

variable {params : MpqEngineParams}

/-! ## Indices -/

@[simp] theorem mpqIdx_idxMsgid (i : params.Idx) : params.mpqIdx (idxMsgid i) = i := by
  have small : i.val < 2 ^ cMsgidWidth := i.isLt.trans_le params.indexed
  have indexed : i.val < 2 ^ clog2 params.numMpq := i.isLt.trans_le (le_two_pow_clog2 _)
  apply Fin.ext
  simp only [MpqEngineParams.mpqIdx, idxMsgid, BitVec.toNat_ofNat, Fin.val_ofNat]
  rw [Nat.mod_eq_of_lt small, truncate_of_lt indexed, Nat.mod_eq_of_lt i.isLt]

theorem newTask_msgid (engine : MpqEngine params) :
    engine.newTask.msgid = idxMsgid engine.selectedMpqQ := by
  unfold newTask
  cases engine.mpqOutStateQ <;> rfl

/-! ## One MPQ at a time -/

section Local

variable (engine : MpqEngine params) (inp : MpqEngineIn)

/-- The three copies of `mpq_fsm` agree: every MPQ takes one step, with the events
    addressed to it. -/
theorem mpqD_eq (i : params.Idx) :
    engine.mpqD inp i = if MpqFsm.updateO (engine.eventAt inp i) = true
      then MpqFsm.mpqO (engine.eventAt inp i) (engine.mpqQ i) else engine.mpqQ i := by
  have addressed : engine.eventAt inp i = (engine.events inp).addressedTo i := rfl
  rw [mpqD_eq_merged, MpqEvents.merged_eq, MpqEvents.combined, addressed]
  exact if_congr (MpqEvents.updateO_addressedTo _ i).symm rfl rfl

theorem fifoPop_eq :
    engine.fifoPop inp = pops (engine.eventAt inp engine.tasksentMpqIdx)
      (engine.mpqQ engine.tasksentMpqIdx) := by
  have own : (engine.eventAt inp engine.tasksentMpqIdx).taskSentI = engine.taskSent inp := by
    simp [eventAt]
  rw [fifoPop, pops, mpqD_eq, own]
  cases sends : engine.taskSent inp with
  | false => rfl
  | true =>
    have updates : MpqFsm.updateO (engine.eventAt inp engine.tasksentMpqIdx) = true := by
      simp [MpqFsm.updateO, eventAt, sends]
    rw [if_pos updates]

theorem fifoIn_pops (i : params.Idx) :
    (engine.fifoIn inp).pops i = pops (engine.eventAt inp i) (engine.mpqQ i) := by
  show (engine.fifoPop inp && decide (engine.tasksentMpqIdx = i)) = _
  by_cases here : engine.tasksentMpqIdx = i
  · subst here
    rw [fifoPop_eq, decide_eq_true rfl, Bool.and_true]
  · simp [here, pops, eventAt]

theorem fifoIn_pushes (i : params.Idx) :
    (engine.fifoIn inp).pushes i = (engine.herNew inp && decide (newherMpqIdx inp = i)) := rfl

theorem sram_step (i : params.Idx) :
    (engine.step inp).mpqMetaMem.sram i =
      if (engine.herNew inp && decide (newherMpqIdx inp = i)) &&
        decide ((engine.mpqQ i).state = .free)
      then inp.herI.mpqMeta else engine.mpqMetaMem.sram i := by
  simp only [step, TcSram.step_sram, mpqmetaWrite, mpqBusy]
  by_cases here : newherMpqIdx inp = i
  · subst here
    split <;> simp_all
  · have elsewhere : i ≠ newherMpqIdx inp := Ne.symm here
    split <;> simp [here, elsewhere]

/-- With nothing on offer or the offer taken, the engine follows the arbiter. -/
theorem moves_of_ready (moves : engine.stateQ = .idle ∨ inp.taskReadyI = true) :
    engine.taskSent inp = engine.arbValid ∧
      engine.stateD inp = if engine.arbValid then .ready else .idle := by
  rcases moves with idle | taken
  · simp [taskSent, arbReady, stateD, idle]
  · cases state : engine.stateQ <;> simp [taskSent, arbReady, stateD, state, taken]

/-- An offer that is not taken stalls the engine. -/
theorem stalls_of_not_ready (busy : engine.stateQ ≠ .idle) (refused : inp.taskReadyI = false) :
    engine.taskSent inp = false ∧ engine.stateD inp = .stalled := by
  cases state : engine.stateQ with
  | idle => exact absurd state busy
  | ready => simp [taskSent, arbReady, stateD, state, refused]
  | stalled => simp [taskSent, arbReady, stateD, state, refused]

/-- A task sent is on offer in the next cycle; until it is taken, it stays. -/
theorem offer_step :
    (if inp.taskReadyI then engine.offer else []) ++ (engine.step inp).offer =
      engine.offer ++ if engine.taskSent inp then [(engine.step inp).newTask] else [] := by
  by_cases moves : engine.stateQ = .idle ∨ inp.taskReadyI = true
  · obtain ⟨sent, next⟩ := engine.moves_of_ready inp moves
    have offers : (engine.step inp).offer =
        if engine.arbValid then [(engine.step inp).newTask] else [] := by
      have state : (engine.step inp).stateQ = _ := next
      cases valid : engine.arbValid <;> simp [offer, taskValidO, taskO, state, valid]
    have taken : (if inp.taskReadyI then engine.offer else []) = engine.offer := by
      rcases moves with idle | ready
      · simp [offer, taskValidO, idle]
      · simp [ready]
    rw [offers, taken, sent]
  · simp only [not_or, Bool.not_eq_true] at moves
    obtain ⟨sent, next⟩ := engine.stalls_of_not_ready inp moves.1 moves.2
    have stalled : (engine.step inp).stateQ = .stalled := next
    have kept : (engine.step inp).taskO = engine.taskO := by
      rw [taskO, stalled]
      rfl
    have valid : engine.taskValidO = true := by
      cases state : engine.stateQ with
      | idle => exact absurd state moves.1
      | ready => simp [taskValidO, state]
      | stalled => simp [taskValidO, state]
    have stays : (engine.step inp).taskValidO = true := by simp [taskValidO, stalled]
    simp [moves.2, sent, offer, valid, stays, kept]

theorem offered_eq_filter (i : params.Idx) :
    engine.offered i = engine.offer.filter (fun task => decide (params.mpqIdx task.msgid = i)) := by
  unfold offered offer
  cases engine.taskValidO with
  | false => rfl
  | true => simp [List.filter_singleton]

/-- The offer of one MPQ. -/
theorem offered_step (i : params.Idx) :
    (if inp.taskReadyI then engine.offered i else []) ++ (engine.step inp).offered i =
      engine.offered i ++ if engine.taskSent inp && decide (engine.tasksentMpqIdx = i)
        then [(engine.step inp).newTask] else [] := by
  have all := congrArg (List.filter fun task => decide (params.mpqIdx task.msgid = i))
    (engine.offer_step inp)
  rw [List.filter_append, List.filter_append, ← offered_eq_filter, ← offered_eq_filter] at all
  have taken : (if inp.taskReadyI then engine.offer else []).filter
      (fun task => decide (params.mpqIdx task.msgid = i)) =
      if inp.taskReadyI then engine.offered i else [] := by
    rw [offered_eq_filter]
    split <;> rfl
  rw [← taken, all]
  congr 1
  cases sends : engine.taskSent inp with
  | false => rfl
  | true =>
    have selected : (engine.step inp).selectedMpqQ = engine.tasksentMpqIdx := by
      simp [step, sends]
    have own : params.mpqIdx (engine.step inp).newTask.msgid = engine.tasksentMpqIdx := by
      rw [newTask_msgid, selected, mpqIdx_idxMsgid]
    simp [List.filter_singleton, own]

variable {engine inp}

/-- Whether its `mpq_fsm` writes back or not, an MPQ takes the step of its event. -/
theorem mpqD_of_idle (inp : MpqEngineIn) {i : params.Idx}
    (idle : MpqFsm.mpqO (fsmIn inp false false false) (engine.mpqQ i) = engine.mpqQ i) :
    engine.mpqD inp i = MpqFsm.mpqO (engine.eventAt inp i) (engine.mpqQ i) := by
  rw [mpqD_eq]
  split
  · rfl
  next quiet =>
    have none : engine.eventAt inp i = fsmIn inp false false false := by
      simp only [MpqFsm.updateO, eventAt, fsmIn, Bool.or_eq_true, not_or, Bool.not_eq_true] at quiet
      simp only [eventAt, quiet.1.1, quiet.1.2, quiet.2]
    rw [none, idle]

theorem mpqD_of_phase (inp : MpqEngineIn) {i : params.Idx} {stored : MpqMeta}
    {opened : Option MpqMeta} {rest : List Planned} {queue : List MpqPkt}
    (phase : InPhase (idxMsgid i) stored (engine.mpqQ i) opened rest queue) :
    engine.mpqD inp i = MpqFsm.mpqO (engine.eventAt inp i) (engine.mpqQ i) :=
  mpqD_of_idle inp phase.mpqO_idle

/-- The MPQ a task is sent for requested it. -/
theorem requests_of_sent
    (held : engine.mpqRrArb.Latched engine.mpqValid)
    (sends : engine.taskSent inp = true) :
    requests (engine.mpqQ engine.tasksentMpqIdx) = true := by
  have requested : engine.mpqRrArb.reqO engine.mpqValid = true := by
    simp only [taskSent, Bool.and_eq_true] at sends
    exact sends.1
  exact held.reqI_idxO requested

/-- The task on offer after a task was sent is built from the metadata and the
    front packet of its MPQ at that time. -/
theorem newTask_step {queue : params.Idx → List MpqPkt} {front : MpqPkt}
    (represents : engine.fifoEngine.Represents queue) (sends : engine.taskSent inp = true)
    (requesting : requests (engine.mpqQ engine.tasksentMpqIdx) = true)
    (isFront : (queue engine.tasksentMpqIdx).head? = some front) :
    (engine.step inp).newTask =
      (taskFor (idxMsgid engine.tasksentMpqIdx) (engine.mpqQ engine.tasksentMpqIdx).state
        (engine.mpqMetaMem.sram engine.tasksentMpqIdx) front (engine.fifoPop inp)).task := by
  have head : (engine.step inp).mpqHead = front :=
    represents.dataO_step isFront
  have stored : (engine.step inp).mpqmetaReadMpq =
      engine.mpqMetaMem.sram engine.tasksentMpqIdx := by
    simp [step, mpqmetaReadMpq, mpqmetaRead, sends, TcSram.step]
  have state : (engine.step inp).mpqOutStateQ = (engine.mpqQ engine.tasksentMpqIdx).state := by
    simp [step, sends]
  have selected : (engine.step inp).selectedMpqQ = engine.tasksentMpqIdx := by simp [step, sends]
  have triggers : (engine.step inp).newTaskTriggersFeedbackQ = engine.fifoPop inp := by
    simp [step, sends]
  rw [newTask, head, stored, state, selected, triggers]
  cases isState : (engine.mpqQ engine.tasksentMpqIdx).state <;>
    simp [requests, isState] at requesting <;> rfl

/-- An MPQ that requests goes on requesting until its task is sent. -/
theorem requests_step {mpq : Mpq} {new feedback : Bool}
    (fits : mpq.length + 1 < 2 ^ mpqCountWidth) (requesting : requests mpq = true) :
    requests (MpqFsm.mpqO (fsmIn inp new false feedback) mpq) = true := by
  have grows : mpq.length ≤ MpqFsm.lengthO (fsmIn inp new false feedback) mpq := by
    rw [length_arrive fits (by simp [MpqFsm.poppingHer])]
    omega
  cases isState : mpq.state <;>
    simp [requests, isState, MpqFsm.mpqO, MpqFsm.stateO] at requesting ⊢
  omega

end Local

end MpqEngine

/-! ## The invariant -/

namespace MpqTrace

variable {params : MpqEngineParams} {trace : MpqTrace params} {inp : MpqEngineIn}

theorem tracks_reset (cells : Nat → MpqPkt) (metas : params.Idx → MpqMeta) :
    Tracks (mpqTrace params cells metas).reset where
  queues := ⟨_, ⟨_, FifoEngine.stores_reset cells⟩, fun _ => InPhase.free 0 false⟩
  sent _ := rfl
  held := RrArbTree.Latched.reset _

theorem fits_of_phase {queue : params.Idx → List MpqPkt}
    (represents : trace.1.fifoEngine.Represents queue) {i : params.Idx} {stored : MpqMeta}
    {opened : Option MpqMeta} {rest : List Planned}
    (phase : InPhase (MpqEngine.idxMsgid i) stored (trace.1.mpqQ i) opened rest (queue i)) :
    (trace.1.mpqQ i).length + 1 < 2 ^ mpqCountWidth := by
  have held := represents.length_le i
  have counted := params.counted
  have width : 2 ^ mpqCountWidth = 256 := by decide
  have most := phase.length_le
  simp only [MpqEngineParams.fifoShape, numMpqStaticCells, numMpqCells] at held counted
  omega

theorem issued_append_pending (i : params.Idx) :
    plan (MpqEngine.idxMsgid i) (trace.2.hers i) = trace.issued i ++ trace.pending i :=
  (List.take_append_drop _ _).symm

theorem Tracks.length_issued (tracks : trace.Tracks) (i : params.Idx) :
    (trace.issued i).length = trace.sentCount i := by
  rw [← List.length_map Planned.task, tracks.sent]
  rfl

/-- A cycle issues the task that is sent, and nothing else changes of what was issued. -/
theorem sent_step (i : params.Idx) :
    (trace.step inp).2.handed i ++ (trace.step inp).1.offered i =
      trace.2.handed i ++ trace.1.offered i ++
        if trace.1.taskSent inp && decide (trace.1.tasksentMpqIdx = i)
        then [(trace.1.step inp).newTask] else [] := by
  simp only [step, MpqHistory.record]
  rw [List.append_assoc, MpqEngine.offered_step, List.append_assoc]

theorem Tracks.requesting (tracks : trace.Tracks) (inp : MpqEngineIn) (i : params.Idx)
    (here : (trace.1.taskSent inp && decide (trace.1.tasksentMpqIdx = i)) = true) :
    requests (trace.1.mpqQ i) = true := by
  simp only [Bool.and_eq_true, decide_eq_true_eq] at here
  obtain ⟨sends, rfl⟩ := here
  exact MpqEngine.requests_of_sent tracks.held sends

/-- One cycle for one MPQ. -/
theorem Tracks.local_step (tracks : trace.Tracks) (permits : trace.Permits inp)
    {queue : params.Idx → List MpqPkt} (represents : trace.1.fifoEngine.Represents queue)
    (i : params.Idx)
    (phase : InPhase (MpqEngine.idxMsgid i) (trace.1.mpqMetaMem.sram i) (trace.1.mpqQ i)
      (openMeta (trace.2.hers i)) (trace.pending i) (queue i)) :
    ∃ granted, (trace.step inp).issued i = trace.issued i ++ granted ∧
      granted.map Planned.task = (if trace.1.taskSent inp && decide (trace.1.tasksentMpqIdx = i)
        then [(trace.1.step inp).newTask] else []) ∧
      (∀ planned ∈ granted, requests (trace.1.mpqQ i) = true ∧
        planned.solitary = decide ((trace.1.mpqQ i).state ≠ .payload)) ∧
      InPhase (MpqEngine.idxMsgid i) ((trace.1.step inp).mpqMetaMem.sram i)
        ((trace.1.step inp).mpqQ i) (openMeta ((trace.step inp).2.hers i))
        ((trace.step inp).pending i)
        (turn ((trace.1.fifoIn inp).pops i) ((trace.1.fifoIn inp).pushes i) (pktOf inp.herI)
          (queue i)) := by
  -- a message starts only where the one before it has ended
  have boundary : (trace.1.herNew inp && decide (MpqEngine.newherMpqIdx inp = i)) = true →
      openMeta (trace.2.hers i) = none → (trace.1.mpqQ i).state = .free := by
    intro here
    simp only [Bool.and_eq_true, decide_eq_true_eq] at here
    obtain ⟨arrives, rfl⟩ := here
    exact permits.1 arrives
  have requesting := tracks.requesting inp i
  obtain ⟨granted, rest', split, grants, phase'⟩ :=
    phase.advances inp (MpqEngine.feedbackTaken inp && decide (MpqEngine.feedbackMpqIdx inp = i))
      boundary (fits_of_phase represents phase) requesting
  have tasks : granted.map Planned.task =
      if trace.1.taskSent inp && decide (trace.1.tasksentMpqIdx = i)
      then [(trace.1.step inp).newTask] else [] := by
    split at grants
    next here =>
      obtain ⟨front, isFront, rfl⟩ := grants
      have requested := requesting here
      simp only [Bool.and_eq_true, decide_eq_true_eq] at here
      obtain ⟨sends, rfl⟩ := here
      rw [MpqEngine.newTask_step represents sends requested isFront, MpqEngine.fifoPop_eq]
      simp [sends, MpqEngine.eventAt]
    next elsewhere => rw [grants, if_neg elsewhere]; rfl
  have kinds : ∀ planned ∈ granted, requests (trace.1.mpqQ i) = true ∧
      planned.solitary = decide ((trace.1.mpqQ i).state ≠ .payload) := by
    intro planned member
    split at grants
    next here =>
      obtain ⟨front, -, rfl⟩ := grants
      rw [List.mem_singleton] at member
      exact ⟨requesting here, member ▸ taskFor_solitary (requesting here)⟩
    next => simp [grants] at member
  -- the granted task moves from what is pending to what was issued
  have grows : plan (MpqEngine.idxMsgid i) ((trace.step inp).2.hers i) =
      (trace.issued i ++ granted) ++ rest' := by
    have extended : plan (MpqEngine.idxMsgid i) ((trace.step inp).2.hers i) =
        plan (MpqEngine.idxMsgid i) (trace.2.hers i) ++
          if trace.1.herNew inp && decide (MpqEngine.newherMpqIdx inp = i)
          then block (MpqEngine.idxMsgid i) (openMeta (trace.2.hers i)) inp.herI else [] := by
      simp only [step, MpqHistory.record]
      split
      · exact plan_append _ _ _
      · simp
    rw [extended, issued_append_pending, List.append_assoc, split, List.append_assoc]
  have count : (trace.step inp).sentCount i = (trace.issued i ++ granted).length := by
    rw [List.length_append, tracks.length_issued, sentCount, sent_step, ← tasks,
      List.length_append, List.length_map]
    rfl
  have issued' : (trace.step inp).issued i = trace.issued i ++ granted := by
    rw [issued, grows, count, List.take_left]
  have pending' : (trace.step inp).pending i = rest' := by
    rw [pending, grows, count, List.drop_left]
  have opens : openMeta ((trace.step inp).2.hers i) =
      if trace.1.herNew inp && decide (MpqEngine.newherMpqIdx inp = i)
      then metaAfter (openMeta (trace.2.hers i)) inp.herI else openMeta (trace.2.hers i) := by
    simp only [step, MpqHistory.record]
    split
    · exact openMeta_append _ _
    · simp
  refine ⟨granted, issued', tasks, kinds, ?_⟩
  rw [pending', opens, MpqEngine.sram_step, MpqEngine.fifoIn_pops, MpqEngine.fifoIn_pushes]
  have mpq' : (trace.1.step inp).mpqQ i = _ := MpqEngine.mpqD_of_phase inp phase
  rw [mpq']
  exact phase'

/-- Every permitted cycle keeps the engine where its history says. -/
theorem Tracks.step (tracks : trace.Tracks) (permits : trace.Permits inp) :
    (trace.step inp).Tracks := by
  obtain ⟨queue, represents, phases⟩ := tracks.queues
  have fifoPermits : trace.1.fifoEngine.Permits queue (trace.1.fifoIn inp) := by
    constructor
    · intro pushes
      simp only [MpqEngine.fifoIn, MpqEngine.fifoPush, MpqEngine.herNew, MpqEngine.herReadyO,
        Bool.and_eq_true, Bool.not_eq_true'] at pushes
      exact pushes.2
    · intro popsNow
      have sends : trace.1.taskSent inp = true := by
        simp only [MpqEngine.fifoIn, MpqEngine.fifoPop, Bool.and_eq_true] at popsNow
        exact popsNow.1
      exact (phases trace.1.tasksentMpqIdx).queue_ne_nil
        (MpqEngine.requests_of_sent tracks.held sends)
  have locals := fun i => tracks.local_step permits represents i (phases i)
  refine ⟨⟨_, represents.step fifoPermits, fun i => ?_⟩, fun i => ?_, ?_⟩
  · obtain ⟨granted, -, -, -, phase⟩ := locals i
    exact phase
  · obtain ⟨granted, issued', tasks, -⟩ := locals i
    rw [issued', List.map_append, tracks.sent, tasks, sent_step]
  · refine tracks.held.step (fun _ => id) fun refused i requested => ?_
    have waits : trace.1.taskSent inp = false := by
      simp [MpqEngine.taskSent, refused]
    have event : trace.1.eventAt inp i = MpqEngine.fsmIn inp
        (trace.1.herNew inp && decide (MpqEngine.newherMpqIdx inp = i)) false
        (MpqEngine.feedbackTaken inp && decide (MpqEngine.feedbackMpqIdx inp = i)) := by
      rw [MpqEngine.eventAt, waits, Bool.false_and]
    have next : (trace.1.step inp).mpqQ i = _ := MpqEngine.mpqD_of_phase inp (phases i)
    show requests ((trace.1.step inp).mpqQ i) = true
    rw [next, event]
    exact MpqEngine.requests_step (fits_of_phase represents (phases i)) requested

end MpqTrace

end Pspin
