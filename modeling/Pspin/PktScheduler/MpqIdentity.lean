import Pspin.PktScheduler.MpqLifecycle
import Pspin.PktScheduler.MpqStock

/-! # The identity of a message

A HER names its message, the engine an index, and a task the message again.  The
laws here hold whatever messages follow each other on an MPQ: the packets queued
for an index are those of the HERs it was cut from, each task reads the packet at
the front of its queue, and an MPQ steps with the events of its own message.
-/

namespace Pspin

open Clocked MpqPlan MpqPhase

namespace MpqEngine

variable {params : MpqEngineParams} (engine : MpqEngine params) (inp : MpqEngineIn)

/-- The event one cycle is for one message. -/
def msgEvent (msgid : MsgId) : MpqFsmIn :=
  fsmIn inp (engine.herNew inp && decide (inp.herI.msgid = msgid))
    (engine.taskSent inp && decide (idxMsgid engine.tasksentMpqIdx = msgid))
    (feedbackTaken inp && decide (inp.feedbackI.msgid = msgid))

/-- A message id below `NUM_MPQ` names the MPQ its index names. -/
theorem mpqIdx_eq_iff {msgid : MsgId} (inRange : msgid.toNat < params.numMpq) {i : params.Idx} :
    params.mpqIdx msgid = i ↔ msgid = idxMsgid i := by
  constructor
  · rintro rfl
    have indexed := inRange.trans_le (le_two_pow_clog2 params.numMpq)
    apply BitVec.eq_of_toNat_eq
    simp only [idxMsgid, MpqEngineParams.mpqIdx, BitVec.toNat_ofNat, Fin.val_ofNat]
    rw [truncate_of_lt indexed, Nat.mod_eq_of_lt inRange, Nat.mod_eq_of_lt msgid.isLt]
  · rintro rfl
    exact mpqIdx_idxMsgid i

theorem idxMsgid_inj {i j : params.Idx} : idxMsgid i = idxMsgid j ↔ i = j := by
  constructor
  · intro same
    rw [← mpqIdx_idxMsgid i, same, mpqIdx_idxMsgid]
  · exact congrArg idxMsgid

/-- In range, the events of an index are those of its message. -/
theorem eventAt_eq (herInRange : engine.herNew inp = true → inp.herI.msgid.toNat < params.numMpq)
    (feedbackInRange : feedbackTaken inp = true → inp.feedbackI.msgid.toNat < params.numMpq)
    (i : params.Idx) : engine.eventAt inp i = engine.msgEvent inp (idxMsgid i) := by
  have her : (engine.herNew inp && decide (newherMpqIdx inp = i)) =
      (engine.herNew inp && decide (inp.herI.msgid = idxMsgid i)) := by
    cases arrives : engine.herNew inp with
    | false => rfl
    | true => simp only [newherMpqIdx, mpqIdx_eq_iff (herInRange arrives)]
  have feedback : (feedbackTaken inp && decide (feedbackMpqIdx inp = i)) =
      (feedbackTaken inp && decide (inp.feedbackI.msgid = idxMsgid i)) := by
    cases taken : feedbackTaken inp with
    | false => rfl
    | true => simp only [feedbackMpqIdx, mpqIdx_eq_iff (feedbackInRange taken)]
  simp only [eventAt, msgEvent, her, feedback, idxMsgid_inj]

end MpqEngine

/-- What crossed the interface of the engine, by message: HERs accepted, how many of
    the packets of each MPQ left the FIFO engine, the HER of the packet each granted
    task reads, the events of each message, tasks handed out and feedbacks forwarded. -/
structure MsgHistory (params : MpqEngineParams) where
  hers : List HerDescr
  popped : params.Idx → Nat
  read : List HerDescr
  events : MsgId → List MpqFsmIn
  handed : List HandlerTask
  nic : List FeedbackDescr

namespace MsgHistory

variable {params : MpqEngineParams}

def empty : MsgHistory params where
  hers := []
  popped := fun _ => 0
  read := []
  events := fun _ => []
  handed := []
  nic := []

/-- The HERs an index was cut from. -/
def addressed (history : MsgHistory params) (i : params.Idx) : List HerDescr :=
  history.hers.filter fun her => decide (params.mpqIdx her.msgid = i)

/-- Of these, the ones whose packets are still queued. -/
def queued (history : MsgHistory params) (i : params.Idx) : List HerDescr :=
  (history.addressed i).drop (history.popped i)

/-- The HERs of the message an index stands for. -/
def own (history : MsgHistory params) (i : params.Idx) : List HerDescr :=
  history.hers.filter fun her => decide (her.msgid = MpqEngine.idxMsgid i)

def record (engine : MpqEngine params) (history : MsgHistory params) (inp : MpqEngineIn) :
    MsgHistory params where
  hers := history.hers ++ if engine.herNew inp then [inp.herI] else []
  popped i := history.popped i + ((engine.fifoIn inp).pops i).toNat
  read := history.read ++
    if engine.taskSent inp then (history.queued engine.tasksentMpqIdx).head?.toList else []
  events msgid := history.events msgid ++ [engine.msgEvent inp msgid]
  handed := history.handed ++ if inp.taskReadyI then engine.offer else []
  nic := history.nic ++
    if MpqEngine.nicFeedbackValidO inp && inp.nicFeedbackReadyI then [MpqEngine.nicFeedbackO inp]
    else []

end MsgHistory

/-- An engine and its history by message. -/
abbrev MsgTrace (params : MpqEngineParams) := MpqEngine params × MsgHistory params

def msgTrace (params : MpqEngineParams) (cells : Nat → MpqPkt) (metas : params.Idx → MpqMeta) :
    Machine (MsgTrace params) MpqEngineIn :=
  (mpqEngine params cells metas).observedBy MsgHistory.empty MsgHistory.record

namespace MsgTrace

variable {params : MpqEngineParams} (trace : MsgTrace params)

def step (inp : MpqEngineIn) : MsgTrace params :=
  (trace.1.step inp, MsgHistory.record trace.1 trace.2 inp)

/-- Accepted HERs have an MPQ of their own, and feedbacks answer tasks handed out. -/
def InRange (inp : MpqEngineIn) : Prop :=
  (trace.1.herNew inp = true → inp.herI.msgid.toNat < params.numMpq) ∧
  (MpqEngine.feedbackTaken inp = true → inp.feedbackI ∈ trace.2.handed.map HandlerTask.feedback)

instance (inp : MpqEngineIn) : Decidable (trace.InRange inp) :=
  inferInstanceAs (Decidable (_ ∧ _))

/-- A task for a packet carries the message id and the packet of its HER. -/
structure Carries (task : HandlerTask) (her : HerDescr) : Prop where
  msgid : task.msgid = her.msgid
  pktAddr : task.pktAddr = her.herAddr
  pktSize : task.pktSize = her.xferSize

/-- A feedback of a task handed out, with the HER of the packet that task read. -/
def Answers (history : MsgHistory params) (feedback : FeedbackDescr) : Prop :=
  ∃ (k : Nat) (task : HandlerTask) (her : HerDescr), history.handed[k]? = some task ∧
    history.read[k]? = some her ∧ feedback = task.feedback ∧ feedback.msgid = her.msgid

/-- Messages are kept apart and their tasks and feedbacks carry their own id. -/
structure KeepsIdentity : Prop where
  packets : trace.1.fifoEngine.Represents fun i =>
    ((trace.2.own i).drop (trace.2.popped i)).map pktOf
  states : ∀ i, trace.1.mpqQ i = (trace.2.events (MpqEngine.idxMsgid i)).foldl
    (fun mpq event => MpqFsm.mpqO event mpq) ⟨.free, 0, 0, false, false⟩
  metas : ∀ i, (trace.1.mpqQ i).state ≠ .free →
    ∃ her ∈ trace.2.own i, trace.1.mpqMetaMem.sram i = her.mpqMeta
  tasks : List.Forall₂ Carries (trace.2.handed ++ trace.1.offer) trace.2.read
  accepted : ∀ her ∈ trace.2.read, her ∈ trace.2.hers
  feedbacks : ∀ feedback ∈ trace.2.nic, Answers trace.2 feedback

/-- The invariant. -/
structure Identified : Prop where
  packets : trace.1.fifoEngine.Represents fun i => (trace.2.queued i).map pktOf
  within : ∀ i, trace.2.popped i ≤ (trace.2.addressed i).length
  stocked : ∀ i, Stocked (trace.1.mpqQ i) (trace.2.queued i).length
  states : ∀ i, trace.1.mpqQ i = (trace.2.events (MpqEngine.idxMsgid i)).foldl
    (fun mpq event => MpqFsm.mpqO event mpq) ⟨.free, 0, 0, false, false⟩
  metas : ∀ i, (trace.1.mpqQ i).state ≠ .free →
    ∃ her ∈ trace.2.addressed i, trace.1.mpqMetaMem.sram i = her.mpqMeta
  tasks : List.Forall₂ Carries (trace.2.handed ++ trace.1.offer) trace.2.read
  accepted : ∀ her ∈ trace.2.read, her ∈ trace.2.hers
  feedbacks : ∀ feedback ∈ trace.2.nic, Answers trace.2 feedback
  inRange : ∀ her ∈ trace.2.hers, her.msgid.toNat < params.numMpq
  held : trace.1.mpqRrArb.Latched trace.1.mpqValid

variable {trace} {inp : MpqEngineIn}

theorem identified_reset (cells : Nat → MpqPkt) (metas : params.Idx → MpqMeta) :
    Identified (msgTrace params cells metas).reset where
  packets := ⟨_, FifoEngine.stores_reset cells⟩
  states _ := rfl
  metas _ busy := absurd rfl busy
  tasks := .nil
  accepted := nofun
  feedbacks := nofun
  within _ := Nat.le_refl _
  stocked _ :=
    { counted := rfl
      opened := nofun
      completes := by rintro (runs | runs) <;> cases runs
      cleared := fun _ => rfl }
  inRange := nofun
  held := RrArbTree.Latched.reset _

theorem mem_of_queued {i : params.Idx} {her : HerDescr} (member : her ∈ trace.2.queued i) :
    her ∈ trace.2.hers ∧ params.mpqIdx her.msgid = i := by
  have addressed := List.mem_of_mem_drop member
  simpa [MsgHistory.addressed] using addressed

theorem addressed_step (i : params.Idx) : (trace.step inp).2.addressed i =
    trace.2.addressed i ++ if (trace.1.fifoIn inp).pushes i then [inp.herI] else [] := by
  rw [MpqEngine.fifoIn_pushes]
  simp only [MsgTrace.step, MsgHistory.record, MsgHistory.addressed, List.filter_append]
  congr 1
  cases trace.1.herNew inp with
  | false => rfl
  | true =>
    by_cases same : params.mpqIdx inp.herI.msgid = i <;> simp [MpqEngine.newherMpqIdx, same]

theorem Answers.mono {feedback : FeedbackDescr} (answers : Answers trace.2 feedback) :
    Answers (trace.step inp).2 feedback := by
  obtain ⟨k, task, her, handed, read, same⟩ := answers
  refine ⟨k, task, her, ?_, ?_, same⟩
  · simp only [MsgTrace.step, MsgHistory.record]
    rw [List.getElem?_append_left (List.getElem?_eq_some_iff.mp handed).1, handed]
  · simp only [MsgTrace.step, MsgHistory.record]
    rw [List.getElem?_append_left (List.getElem?_eq_some_iff.mp read).1, read]

namespace Identified

variable (identified : trace.Identified)

include identified

theorem supplied : trace.1.Supplied fun i => (trace.2.queued i).map pktOf where
  packets := identified.packets
  stocked i := by
    rw [List.length_map]
    exact identified.stocked i
  held := identified.held

/-- The HER whose packet a granted task reads. -/
theorem front (sends : trace.1.taskSent inp = true) :
    ∃ her, (trace.2.queued trace.1.tasksentMpqIdx).head? = some her := by
  obtain ⟨pkt, isFront⟩ := identified.supplied.front sends
  rw [List.head?_map, Option.map_eq_some_iff] at isFront
  exact ⟨_, isFront.choose_spec.1⟩

/-- A task handed out and the HER it reads a packet of. -/
theorem read_of_handed {k : Nat} {task : HandlerTask} (handed : trace.2.handed[k]? = some task) :
    ∃ her, trace.2.read[k]? = some her ∧ Carries task her := by
  have here : (trace.2.handed ++ trace.1.offer)[k]? = some task := by
    rw [List.getElem?_append_left (List.getElem?_eq_some_iff.mp handed).1, handed]
  obtain ⟨inside, isTask⟩ := List.getElem?_eq_some_iff.mp here
  obtain ⟨same, each⟩ := List.forall₂_iff_get.mp identified.tasks
  have insideRead : k < trace.2.read.length := same ▸ inside
  refine ⟨trace.2.read[k], List.getElem?_eq_getElem insideRead, ?_⟩
  have carries := each k inside insideRead
  simpa [isTask] using carries

/-- A pop takes a packet that is there. -/
theorem queued_ne_nil {i : params.Idx} (popped : (trace.1.fifoIn inp).pops i = true) :
    trace.2.queued i ≠ [] := by
  simpa using identified.supplied.queue_ne_nil popped

theorem tasks_step : List.Forall₂ Carries
    ((trace.step inp).2.handed ++ (trace.step inp).1.offer) (trace.step inp).2.read := by
  have issued : (trace.step inp).2.handed ++ (trace.step inp).1.offer =
      trace.2.handed ++ trace.1.offer ++
        if trace.1.taskSent inp then [(trace.1.step inp).newTask] else [] := by
    simp only [MsgTrace.step, MsgHistory.record]
    rw [List.append_assoc, MpqEngine.offer_step, List.append_assoc]
  rw [issued]
  refine List.rel_append identified.tasks ?_
  cases sends : trace.1.taskSent inp with
  | false => exact .nil
  | true =>
    -- the task that is built reads the front of its queue, which was accepted and addressed here
    obtain ⟨her, front⟩ := identified.front sends
    have isFront : ((trace.2.queued trace.1.tasksentMpqIdx).map pktOf).head? = some (pktOf her) := by
      rw [List.head?_map, front]
      rfl
    have built := MpqEngine.newTask_step identified.packets sends
      (MpqEngine.requests_of_sent identified.held sends) isFront
    obtain ⟨accepted, addressed⟩ := mem_of_queued (List.mem_of_mem_head? front)
    have own := (MpqEngine.mpqIdx_eq_iff (identified.inRange her accepted)).mp addressed
    have carries : Carries (trace.1.step inp).newTask her := by
      rw [built]
      cases (trace.1.mpqQ trace.1.tasksentMpqIdx).state <;> exact ⟨own.symm, rfl, rfl⟩
    simpa [front] using List.Forall₂.cons carries .nil

theorem accepted_step (her : HerDescr) (member : her ∈ (trace.step inp).2.read) :
    her ∈ (trace.step inp).2.hers := by
  refine List.mem_append_left _ ?_
  rcases List.mem_append.mp member with before | now
  · exact identified.accepted her before
  · split at now
    · exact (mem_of_queued (List.mem_of_mem_head? (Option.mem_toList.mp now))).1
    · cases now

theorem queued_step (i : params.Idx) : (trace.step inp).2.queued i =
    turn ((trace.1.fifoIn inp).pops i) ((trace.1.fifoIn inp).pushes i) inp.herI
      (trace.2.queued i) := by
  have within := identified.within i
  have popped : (trace.step inp).2.popped i =
      trace.2.popped i + ((trace.1.fifoIn inp).pops i).toNat := rfl
  rw [MsgHistory.queued, addressed_step, popped]
  cases pops : (trace.1.fifoIn inp).pops i with
  | false => exact List.drop_append_of_le_length within
  | true =>
    have nonempty := List.length_pos_of_ne_nil (identified.queued_ne_nil pops)
    rw [MsgHistory.queued, List.length_drop] at nonempty
    rw [Bool.toNat_true, List.drop_append_of_le_length (by omega), ← List.tail_drop]
    rfl

theorem supplied_step (inp : MpqEngineIn) :
    (trace.step inp).1.Supplied fun i => ((trace.step inp).2.queued i).map pktOf := by
  have queues : (fun i => ((trace.step inp).2.queued i).map pktOf) = fun i =>
      turn ((trace.1.fifoIn inp).pops i) ((trace.1.fifoIn inp).pushes i)
        (MpqEngine.newPkt inp) ((trace.2.queued i).map pktOf) := by
    funext i
    rw [identified.queued_step]
    exact map_turn (fun _ _ => rfl) _ _
  rw [queues]
  exact identified.supplied.step inp

theorem stocked_step (i : params.Idx) :
    Stocked ((trace.step inp).1.mpqQ i) ((trace.step inp).2.queued i).length := by
  have stocked := (identified.supplied_step inp).stocked i
  rwa [List.length_map] at stocked

theorem metas_step (i : params.Idx) (busy : ((trace.step inp).1.mpqQ i).state ≠ .free) :
    ∃ her ∈ (trace.step inp).2.addressed i,
      (trace.step inp).1.mpqMetaMem.sram i = her.mpqMeta := by
  have stored : (trace.step inp).1.mpqMetaMem.sram i = _ := MpqEngine.sram_step trace.1 inp i
  rw [addressed_step, MpqEngine.fifoIn_pushes, stored]
  cases arrives : trace.1.herNew inp && decide (MpqEngine.newherMpqIdx inp = i) with
  | true =>
    by_cases opens : (trace.1.mpqQ i).state = .free
    · exact ⟨inp.herI, by simp, by simp [opens]⟩
    · obtain ⟨her, member, same⟩ := identified.metas i opens
      exact ⟨her, by simp [member], by simpa [opens] using same⟩
  | false =>
    -- nothing arrives, so that no message opens here in this cycle
    have before : (trace.1.mpqQ i).state ≠ .free := by
      intro isFree
      have sends : (trace.1.taskSent inp && decide (trace.1.tasksentMpqIdx = i)) = false := by
        rw [← Bool.not_eq_true]
        exact fun sends => by simpa [requests, isFree] using identified.supplied.requesting inp i sends
      have next : (trace.step inp).1.mpqQ i = _ :=
        MpqEngine.mpqD_of_idle inp (identified.stocked i).mpqO_idle
      apply busy
      rw [next, MpqEngine.eventAt, arrives, sends]
      simp [MpqFsm.mpqO, MpqFsm.stateO, isFree]
    obtain ⟨her, member, same⟩ := identified.metas i before
    exact ⟨her, by simpa using member, by simpa using same⟩

/-- In range, an index was cut from the HERs of its own message only. -/
theorem addressed_eq (i : params.Idx) : trace.2.addressed i = trace.2.own i := by
  refine List.filter_congr fun her accepted => ?_
  simp only [MpqEngine.mpqIdx_eq_iff (identified.inRange her accepted)]

theorem keeps : trace.KeepsIdentity where
  packets := by
    have queues : (fun i => (trace.2.queued i).map pktOf) =
        fun i => ((trace.2.own i).drop (trace.2.popped i)).map pktOf := by
      funext i
      rw [MsgHistory.queued, identified.addressed_eq]
    exact (congrArg trace.1.fifoEngine.Represents queues).mp identified.packets
  states := identified.states
  metas := by
    simpa only [identified.addressed_eq] using identified.metas
  tasks := identified.tasks
  accepted := identified.accepted
  feedbacks := identified.feedbacks

variable (permits : trace.InRange inp)

include permits

theorem feedbackInRange (taken : MpqEngine.feedbackTaken inp = true) :
    inp.feedbackI.msgid.toNat < params.numMpq := by
  obtain ⟨task, member, same⟩ := List.mem_map.mp (permits.2 taken)
  obtain ⟨k, handed⟩ := List.mem_iff_getElem?.mp member
  obtain ⟨her, read, carries⟩ := identified.read_of_handed handed
  have accepted := identified.accepted her (List.mem_of_getElem? read)
  rw [← same, HandlerTask.feedback, carries.msgid]
  exact identified.inRange her accepted

theorem mpq_step (i : params.Idx) : (trace.step inp).1.mpqQ i =
    MpqFsm.mpqO (trace.1.msgEvent inp (MpqEngine.idxMsgid i)) (trace.1.mpqQ i) := by
  have next : (trace.step inp).1.mpqQ i = _ :=
    MpqEngine.mpqD_of_idle inp (identified.stocked i).mpqO_idle
  rw [next, MpqEngine.eventAt_eq _ _ permits.1 (identified.feedbackInRange permits)]

theorem feedbacks_step (feedback : FeedbackDescr) (member : feedback ∈ (trace.step inp).2.nic) :
    Answers (trace.step inp).2 feedback := by
  refine Answers.mono ?_
  rcases List.mem_append.mp member with before | now
  · exact identified.feedbacks feedback before
  · split at now
    next forwards =>
      obtain rfl : feedback = inp.feedbackI := by simpa [MpqEngine.nicFeedbackO] using now
      rw [MpqEngine.nicFeedback_eq, Bool.and_eq_true] at forwards
      have taken : MpqEngine.feedbackTaken inp = true := forwards.1
      obtain ⟨task, member, same⟩ := List.mem_map.mp (permits.2 taken)
      obtain ⟨k, handed⟩ := List.mem_iff_getElem?.mp member
      obtain ⟨her, read, carries⟩ := identified.read_of_handed handed
      exact ⟨k, task, her, handed, read, same.symm, same ▸ carries.msgid⟩
    next => cases now

theorem step : (trace.step inp).Identified where
  packets := (identified.supplied_step inp).packets
  states i := by
    have events : (trace.step inp).2.events (MpqEngine.idxMsgid i) =
        trace.2.events (MpqEngine.idxMsgid i) ++
          [trace.1.msgEvent inp (MpqEngine.idxMsgid i)] := rfl
    rw [identified.mpq_step permits, events, List.foldl_append, ← identified.states i]
    rfl
  metas := identified.metas_step
  tasks := identified.tasks_step
  accepted := identified.accepted_step
  feedbacks := identified.feedbacks_step permits
  within i := by
    have popped : (trace.step inp).2.popped i =
        trace.2.popped i + ((trace.1.fifoIn inp).pops i).toNat := rfl
    have within := identified.within i
    rw [addressed_step, popped, List.length_append]
    cases pops : (trace.1.fifoIn inp).pops i with
    | false => exact Nat.le_add_right_of_le within
    | true =>
      -- a queue that is popped is not empty
      have nonempty := List.length_pos_of_ne_nil (identified.queued_ne_nil pops)
      rw [MsgHistory.queued, List.length_drop] at nonempty
      rw [Bool.toNat_true]
      omega
  stocked := identified.stocked_step
  inRange her member := by
    rcases List.mem_append.mp member with before | now
    · exact identified.inRange her before
    · split at now
      next arrives =>
        obtain rfl : her = inp.herI := by simpa using now
        exact permits.1 arrives
      next => cases now
  held := (identified.supplied_step inp).held

end Identified

/-- Message identity: while every accepted HER has a message id below `NUM_MPQ`, the
    packets, the state and the metadata of messages are kept apart, and every task
    and every forwarded feedback carries the message id of the HER it is for. -/
theorem mpqEngine_keeps_identity (params : MpqEngineParams) (cells : Nat → MpqPkt)
    (metas : params.Idx → MpqMeta) (inputs : List MpqEngineIn)
    (permitted : (msgTrace params cells metas).Admits InRange inputs) :
    KeepsIdentity ((msgTrace params cells metas).run inputs) := by
  have identified := permitted.invariant Identified (identified_reset cells metas)
    fun _ _ identified permits => identified.step permits
  exact identified.keeps

/-- The run of two queues: one feedback reaches the NIC. -/
theorem mpqEngine_keeps_identity_interleaving :
    let trace := (msgTrace MpqTrace.twoQueues (fun _ => default) fun _ => default).run
      MpqTrace.interleaving
    (trace.2.nic.map FeedbackDescr.msgid = [0] ∧ trace.2.read.map HerDescr.msgid = [1, 0, 1]) ∧
      KeepsIdentity trace :=
  ⟨by decide +kernel, mpqEngine_keeps_identity _ _ _ _ (by decide +kernel)⟩

/-- At the deployed sizes: the task for the packet of message 257 is one of message 1. -/
theorem mpqEngine_renames_message :
    let params : MpqEngineParams := ⟨128, 256, by decide, by decide, by decide⟩
    let her : HerDescr := ⟨257, true, 0x200, 32, { (default : MpqMeta) with phAddr := 0x40 }⟩
    let quiet : MpqEngineIn := ⟨false, default, false, default, true, true⟩
    let trace := (msgTrace params (fun _ => default) fun _ => default).run
      [{ quiet with herValidI := true, herI := her }, quiet, quiet]
    trace.2.handed.map HandlerTask.msgid = [1] ∧ trace.2.read.map HerDescr.msgid = [257] ∧
      ¬KeepsIdentity trace := by
  intro params her quiet trace
  have handed : trace.2.handed.map HandlerTask.msgid = [1] := by decide +kernel
  have read : trace.2.read.map HerDescr.msgid = [257] := by decide +kernel
  have offer : trace.1.offer = [] := by decide +kernel
  refine ⟨handed, read, fun keeps => ?_⟩
  have tasks := keeps.tasks
  obtain ⟨task, isTask, renamed⟩ := List.map_eq_singleton_iff.mp handed
  obtain ⟨reader, isReader, original⟩ := List.map_eq_singleton_iff.mp read
  rw [isTask, isReader, offer] at tasks
  have same := (List.forall₂_cons.mp tasks).1.msgid
  rw [renamed, original] at same
  exact absurd same (by decide)

end MsgTrace

end Pspin
