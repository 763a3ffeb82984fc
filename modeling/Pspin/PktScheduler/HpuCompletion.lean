import Pspin.PktScheduler.CmdInFlight
import Pspin.PktScheduler.HpuDriver

/-! # Completion of tasks in an HPU driver

A history of the driver records the tasks accepted and the feedbacks taken.  Each
task is answered once, in order; its feedback is offered when no command of the HPU
is unanswered, and while it is buffered no command of a later task is entered.
-/

namespace Pspin

open Clocked

/-- What crossed the interfaces of an HPU driver.  `issuer` is the number of tasks that
    had been accepted when the request on the bus was first presented, `overtaking`
    the commands of later tasks entered while a feedback was held back. -/
structure HpuHistory (params : HpuDriverParams) where
  held : Option XbarPeriphReq
  accepted : List HpuHandlerTask
  feedbacks : List TaskFeedbackDescr
  issuer : Nat
  overtaking : List params.cmd.Cmd
  cmd : CmdHistory params.cmd

namespace HpuHistory

open HpuDriver

variable {params : HpuDriverParams}

def empty : HpuHistory params where
  held := none
  accepted := []
  feedbacks := []
  issuer := 0
  overtaking := []
  cmd := CmdHistory.empty

variable (driver : HpuDriver params) (history : HpuHistory params) (inp : HpuDriverIn params)

/-- The task, counted from one, during which the request on the bus was presented. -/
def issuerNow : Nat := if history.held.isNone then history.accepted.length else history.issuer

/-- A command is entered while the feedback of an earlier task is held back. -/
def overtakes : Bool :=
  driver.cmdFrontend.cmdBuffPush (driver.cmdIn inp) && !driver.taskFrontend.feedbackBuffEmpty &&
    decide (history.feedbacks.length + 1 < issuerNow history)

def record : HpuHistory params where
  held := if inp.hpuDriverSlaveI.req && !driver.gnt inp then some inp.hpuDriverSlaveI else none
  accepted := history.accepted ++
    if inp.hpuTaskValidI && driver.hpuTaskReadyO then [inp.hpuTaskI] else []
  feedbacks := history.feedbacks ++
    if driver.feedbackTaken inp then [driver.hpuFeedbackO] else []
  issuer := issuerNow history
  overtaking := history.overtaking ++
    if overtakes driver history inp then [driver.cmdFrontend.cmdD (driver.cmdIn inp)] else []
  cmd := CmdHistory.record driver.cmdFrontend history.cmd (driver.cmdIn inp)

end HpuHistory

abbrev HpuTrace (params : HpuDriverParams) := HpuDriver params × HpuHistory params

def hpuTrace (params : HpuDriverParams) : Machine (HpuTrace params) (HpuDriverIn params) :=
  (hpuDriver params).observedBy HpuHistory.empty HpuHistory.record

namespace HpuTrace

open HpuDriver HpuHistory

variable {params : HpuDriverParams}

def step (trace : HpuTrace params) (inp : HpuDriverIn params) : HpuTrace params :=
  (trace.1.step inp, record trace.1 trace.2 inp)

/-- The command frontend of a driver with its part of the history. -/
def cmd (trace : HpuTrace params) : CmdTrace params.cmd := (trace.1.cmdFrontend, trace.2.cmd)

/-- The core holds a request until it is granted, and responses are for commands that
    were sent and not answered. -/
def Permits (trace : HpuTrace params) (inp : HpuDriverIn params) : Prop :=
  (trace.2.held = none ∨ trace.2.held = some inp.hpuDriverSlaveI) ∧
    trace.cmd.PermitsResp (trace.1.cmdIn inp)

instance (trace : HpuTrace params) (inp : HpuDriverIn params) : Decidable (trace.Permits inp) :=
  inferInstanceAs (Decidable (_ ∧ _))

/-- The task that runs or whose feedback waits for the buffer. -/
def current (frontend : TaskFrontend) : List TaskFeedbackDescr :=
  match frontend.stateQ with
  | .running | .sendingFeedback => [frontend.hpuFeedback]
  | _ => []

/-- The feedbacks of the tasks accepted and not answered, oldest first. -/
def unfed (trace : HpuTrace params) : List TaskFeedbackDescr :=
  trace.1.taskFrontend.feedbackBuff.contents ++ current trace.1.taskFrontend

/-- Every accepted task is answered once and in order.  A feedback is offered for the
    oldest task not answered, when none of the commands entered is unanswered; it is
    offered then if the core has no DMA transfers and no request waits.  No command of
    a later task is entered while a feedback is held back. -/
structure Completes (trace : HpuTrace params) : Prop where
  in_order : Flows (trace.2.accepted.map HpuHandlerTask.feedback) trace.2.feedbacks trace.unfed
  offers : ∀ noDmaReqPending, trace.1.hpuFeedbackValidO noDmaReqPending = true →
    trace.2.accepted[trace.2.feedbacks.length]?.map HpuHandlerTask.feedback =
      some trace.1.hpuFeedbackO ∧ trace.cmd.outstanding = []
  offered : trace.1.taskFrontend.feedbackBuffEmpty = false → trace.2.held = none →
    trace.cmd.outstanding = [] → trace.1.hpuFeedbackValidO true = true
  overtaking : trace.2.overtaking = []

/-- What the induction carries.  A command that waits for an id or for room in the
    buffer was issued by the task answered next, or earlier. -/
structure Answering (trace : HpuTrace params) : Prop where
  inFlight : trace.cmd.InFlight
  held : ∀ bus, trace.2.cmd.held = some bus → ∃ slave, trace.2.held = some slave ∧
    bus = { slave with req := slave.req && decide (slave.add.extractLsb' 7 2 = 1#2) }
  in_order : Flows (trace.2.accepted.map HpuHandlerTask.feedback) trace.2.feedbacks trace.unfed
  issuer_le : trace.2.issuer ≤ trace.2.accepted.length
  stalled : trace.1.cmdFrontend.stateQ = .waitingID ∨ trace.1.cmdFrontend.stateQ = .waitingBuffer →
    trace.2.issuer ≤ trace.2.feedbacks.length + 1
  overtaking : trace.2.overtaking = []

theorem answering_reset : Answering (hpuTrace params).reset where
  inFlight := CmdTrace.inFlight_reset
  held _ none := by cases none
  in_order := .nil
  issuer_le := Nat.le_refl _
  stalled states := by rcases states with ⟨⟨⟩⟩ | ⟨⟨⟩⟩
  overtaking := rfl

/-! ## The law from the invariant -/

theorem Answering.hpuFeedbackO {trace : HpuTrace params} (answering : Answering trace)
    (some : trace.1.taskFrontend.feedbackBuffEmpty = false) :
    trace.2.accepted[trace.2.feedbacks.length]?.map HpuHandlerTask.feedback =
      .some trace.1.hpuFeedbackO := by
  obtain ⟨front, rest, holds⟩ := List.exists_cons_of_ne_nil (FifoV3.emptyO_eq_false.mp some)
  have order : trace.2.accepted.map HpuHandlerTask.feedback = trace.2.feedbacks ++ trace.unfed :=
    answering.in_order
  have front_eq : trace.1.hpuFeedbackO = front := FifoV3.dataO_eq_head holds
  rw [← List.getElem?_map, order, unfed, holds, front_eq]
  simp

theorem Answering.completes {trace : HpuTrace params} (answering : Answering trace) :
    Completes trace where
  in_order := answering.in_order
  offers _ valid := by
    obtain ⟨-, settled, buffered⟩ := trace.1.hpuFeedbackValidO_eq_true.mp valid
    refine ⟨answering.hpuFeedbackO buffered, ?_⟩
    have none := answering.inFlight.noPendingCmdO_iff.mp settled
    simpa using (List.append_eq_nil_iff.mp none).1
  offered some quiet none := by
    -- a command that waits for room would hold a request of the core
    have pending : CmdTrace.pendingId trace.1.cmdFrontend = [] := by
      apply if_neg
      intro waits
      obtain ⟨bus, held, -⟩ := answering.inFlight.issuing (.inr (.inr waits))
      obtain ⟨slave, same, -⟩ := answering.held bus held
      rw [quiet] at same
      cases same
    have ids : trace.cmd.ids = [] := by
      rw [CmdTrace.ids, none]
      exact pending
    have settled : trace.1.cmdFrontend.noPendingCmdO = true :=
      answering.inFlight.noPendingCmdO_iff.mpr ids
    exact trace.1.hpuFeedbackValidO_eq_true.mpr ⟨rfl, settled, some⟩
  overtaking := answering.overtaking

/-! ## One cycle -/

section Step

variable {trace : HpuTrace params} {inp : HpuDriverIn params}

/-- A task is pushed as a feedback or stays current, and a new one becomes current. -/
theorem current_step (frontend : TaskFrontend) (inp : TaskFrontendIn) :
    (if frontend.feedbackBuffPush inp then [frontend.hpuFeedback] else []) ++
        current (frontend.step inp) =
      current frontend ++
        if inp.hpuTaskValidI && frontend.hpuTaskReadyO then [inp.hpuTaskI.feedback] else [] := by
  have next : current (frontend.step inp) = match frontend.stateD inp with
      | .running | .sendingFeedback => [(frontend.currentTaskD inp).feedback]
      | _ => [] := rfl
  rw [next, current, TaskFrontend.feedbackBuffPush]
  cases state : frontend.stateQ with
  | init =>
    have quiet : frontend.triggerFeedback inp = false := by
      simp [TaskFrontend.triggerFeedback, state]
    cases requests : inp.reqI <;>
      simp [TaskFrontend.stateD, TaskFrontend.hpuTaskReadyO, state, quiet, requests]
  | idle =>
    have quiet : frontend.triggerFeedback inp = false := by
      simp [TaskFrontend.triggerFeedback, state]
    cases valid : inp.hpuTaskValidI with
    | false => simp [TaskFrontend.stateD, state, quiet, valid]
    | true =>
      -- a task without a handler is answered at once
      have starts : frontend.stateD inp = .sendingFeedback ∨ frontend.stateD inp = .running := by
        simp only [TaskFrontend.stateD, state, valid, if_true]
        split <;> simp
      rcases starts with null | runs
      · simp [TaskFrontend.currentTaskD, TaskFrontend.hpuTaskReadyO, state, quiet, valid, null]
      · simp [TaskFrontend.currentTaskD, TaskFrontend.hpuTaskReadyO, state, quiet, valid, runs]
  | running =>
    cases ends : frontend.triggerFeedback inp <;> cases full : frontend.feedbackBuffFull <;>
      simp [TaskFrontend.stateD, TaskFrontend.currentTaskD, TaskFrontend.hpuTaskReadyO,
        TaskFrontend.hpuFeedback, state, ends, full]
  | sendingFeedback =>
    cases full : frontend.feedbackBuffFull <;>
      simp [TaskFrontend.stateD, TaskFrontend.currentTaskD, TaskFrontend.hpuTaskReadyO,
        TaskFrontend.hpuFeedback, state, full]

theorem unfed_step : (trace.step inp).unfed =
    (if trace.1.feedbackTaken inp then trace.unfed.tail else trace.unfed) ++
      if inp.hpuTaskValidI && trace.1.hpuTaskReadyO then [inp.hpuTaskI.feedback] else [] := by
  have moves := current_step trace.1.taskFrontend (trace.1.taskIn inp)
  have contents := trace.1.feedbackBuff_step inp
  have unfed : (trace.step inp).unfed = (trace.1.step inp).taskFrontend.feedbackBuff.contents ++
    current (trace.1.step inp).taskFrontend := rfl
  rw [unfed, contents, List.append_assoc]
  refine (congrArg _ moves).trans ?_
  rw [← List.append_assoc, HpuTrace.unfed]
  congr 1
  cases takes : trace.1.feedbackTaken inp with
  | false => rfl
  | true =>
    obtain ⟨rest, front⟩ := trace.1.taken_front (Bool.and_eq_true_iff.mp takes).2
    rw [front]
    rfl

theorem in_order_step (answering : Answering trace) :
    Flows ((trace.step inp).2.accepted.map HpuHandlerTask.feedback) (trace.step inp).2.feedbacks
      (trace.step inp).unfed := by
  have flows := answering.in_order.step (trace.1.feedbackTaken inp)
    (if inp.hpuTaskValidI && trace.1.hpuTaskReadyO then [inp.hpuTaskI.feedback] else [])
  have accepted : (trace.step inp).2.accepted.map HpuHandlerTask.feedback =
      trace.2.accepted.map HpuHandlerTask.feedback ++
        if inp.hpuTaskValidI && trace.1.hpuTaskReadyO then [inp.hpuTaskI.feedback] else [] := by
    have entered : (trace.step inp).2.accepted = trace.2.accepted ++
      if inp.hpuTaskValidI && trace.1.hpuTaskReadyO then [inp.hpuTaskI] else [] := rfl
    rw [entered, List.map_append]
    split <;> rfl
  -- what leaves the buffer is the oldest of those that wait
  have feedbacks : (trace.step inp).2.feedbacks = trace.2.feedbacks ++
      if trace.1.feedbackTaken inp then trace.unfed.head?.toList else [] := by
    have left : (trace.step inp).2.feedbacks = trace.2.feedbacks ++
      if trace.1.feedbackTaken inp then [trace.1.hpuFeedbackO] else [] := rfl
    rw [left]
    cases takes : trace.1.feedbackTaken inp with
    | false => rfl
    | true =>
      obtain ⟨rest, front⟩ := trace.1.taken_front (Bool.and_eq_true_iff.mp takes).2
      rw [HpuTrace.unfed, front]
      rfl
  rw [accepted, feedbacks, unfed_step]
  exact flows

/-! ## Who issued a command -/

theorem issuerNow_le (answering : Answering trace) :
    issuerNow trace.2 ≤ trace.2.accepted.length := by
  unfold issuerNow
  split
  · exact Nat.le_refl _
  · exact answering.issuer_le

/-- While no feedback is buffered, only the last task can be unanswered. -/
theorem issuerNow_le_of_empty (answering : Answering trace)
    (enabled : trace.1.taskFrontend.disableCommandsO = false) :
    issuerNow trace.2 ≤ trace.2.feedbacks.length + 1 := by
  have empty : trace.1.taskFrontend.feedbackBuff.contents = [] := by
    simpa [TaskFrontend.disableCommandsO, TaskFrontend.feedbackBuffEmpty] using enabled
  have order := answering.in_order.length
  have one : (current trace.1.taskFrontend).length ≤ 1 := by
    unfold current
    split <;> simp
  have issuer := issuerNow_le answering
  rw [unfed, empty, List.nil_append, List.length_map] at order
  omega

theorem Answering.holdsRequest (answering : Answering trace) (permits : trace.Permits inp) :
    trace.cmd.HoldsRequest (trace.1.cmdIn inp) := by
  rw [CmdTrace.HoldsRequest]
  cases held : trace.cmd.2.held with
  | none => exact .inl rfl
  | some bus =>
    obtain ⟨slave, same, bus_eq⟩ := answering.held bus held
    rcases permits.1 with none | still
    · rw [same] at none
      cases none
    · rw [same, Option.some_inj] at still
      rw [bus_eq, still]
      exact .inr rfl

/-- A command that waits for an id or for room keeps the issuer it was presented by. -/
theorem issuerNow_of_stalled (answering : Answering trace)
    (stalls : trace.1.cmdFrontend.stateQ = .waitingID ∨
      trace.1.cmdFrontend.stateQ = .waitingBuffer) :
    issuerNow trace.2 ≤ trace.2.feedbacks.length + 1 := by
  obtain ⟨bus, held, -⟩ := answering.inFlight.issuing (.inr stalls)
  obtain ⟨slave, same, -⟩ := answering.held bus held
  rw [issuerNow, same]
  exact answering.stalled stalls

/-- What a disabled command frontend can do: only commands that were issued before go on. -/
theorem stalled_before (frontend : CmdFrontend params.cmd) (inp : CmdFrontendIn params.cmd)
    (disabled : inp.disabledI = true)
    (goesOn : frontend.stateD inp = .waitingID ∨ frontend.stateD inp = .waitingBuffer ∨
      frontend.cmdBuffPush inp = true ∧ frontend.stateQ ≠ .waiting) :
    frontend.stateQ = .waitingID ∨ frontend.stateQ = .waitingBuffer := by
  cases state : frontend.stateQ with
  | waitingID => exact .inl rfl
  | waitingBuffer => exact .inr rfl
  | ready =>
    -- disabled, `ready` stays or turns to `disabled`: no issue is begun
    have stays : frontend.stateD inp ≠ .waitingID ∧ frontend.stateD inp ≠ .waitingBuffer := by
      simp only [CmdFrontend.stateD, state, disabled, if_true]
      split_ifs <;> simp
    rcases goesOn with next | next | ⟨push, -⟩
    · exact absurd next stays.1
    · exact absurd next stays.2
    · simp only [CmdFrontend.cmdBuffPush, Bool.and_eq_true, decide_eq_true_eq] at push
      obtain ⟨⟨-, issued⟩, next⟩ := push
      simp only [CmdFrontend.stateD, state, disabled, issued, if_true] at next
      split at next <;> cases next
  | disabled =>
    have stays : frontend.stateD inp = .disabled := by
      simp [CmdFrontend.stateD, state, disabled]
    rcases goesOn with next | next | ⟨push, -⟩
    · rw [stays] at next
      cases next
    · rw [stays] at next
      cases next
    · simp [CmdFrontend.cmdBuffPush, stays] at push
  | waiting =>
    have stays : frontend.stateD inp ≠ .waitingID ∧ frontend.stateD inp ≠ .waitingBuffer := by
      simp only [CmdFrontend.stateD, state]
      split <;> simp
    rcases goesOn with next | next | ⟨-, other⟩
    · exact absurd next stays.1
    · exact absurd next stays.2
    · exact absurd state other

/-- A request the command frontend did not grant was not granted to the core. -/
theorem held_step {bus : XbarPeriphReq} (held : (trace.step inp).2.cmd.held = some bus) :
    (trace.step inp).2.held = some inp.hpuDriverSlaveI ∧
      bus = { inp.hpuDriverSlaveI with
        req := inp.hpuDriverSlaveI.req &&
          decide (inp.hpuDriverSlaveI.add.extractLsb' 7 2 = 1#2) } := by
  have cmdHeld : (trace.step inp).2.cmd.held =
    if (trace.1.cmdIn inp).bus.req && !trace.1.cmdFrontend.gntO (trace.1.cmdIn inp)
    then some (trace.1.cmdIn inp).bus else none := rfl
  rw [cmdHeld] at held
  split at held
  next stalls =>
    simp only [Bool.and_eq_true, Bool.not_eq_true', cmdIn, frontendReq, decide_eq_true_eq] at stalls
    obtain ⟨⟨requests, type⟩, refused⟩ := stalls
    -- an access to the command registers is granted by the command frontend alone
    have gnt : trace.1.gnt inp = false := by
      simp only [gnt, type]
      exact refused
    refine ⟨?_, (Option.some_inj.mp held).symm⟩
    show (if inp.hpuDriverSlaveI.req && !trace.1.gnt inp then some inp.hpuDriverSlaveI else none) = _
    rw [requests, gnt]
    rfl
  next => cases held

theorem not_overtakes (answering : Answering trace) (permits : trace.Permits inp) :
    overtakes trace.1 trace.2 inp = false := by
  by_contra overtaking
  simp only [overtakes, Bool.not_eq_false, Bool.and_eq_true, decide_eq_true_eq] at overtaking
  obtain ⟨⟨push, buffered⟩, later⟩ := overtaking
  have other : trace.1.cmdFrontend.stateQ ≠ .waiting := by
    intro waiting
    have waits := (answering.inFlight.waitIssued (answering.holdsRequest permits) waiting).1
    simp only [CmdFrontend.cmdBuffPush, Bool.and_eq_true] at push
    rw [CmdTrace.not_cmdIssued_of_waitIssued waits] at push
    cases push.1.2
  have stalled := stalled_before trace.1.cmdFrontend (trace.1.cmdIn inp) buffered
    (.inr (.inr ⟨push, other⟩))
  have before := issuerNow_of_stalled answering stalled
  omega

theorem Answering.step (answering : Answering trace) (permits : trace.Permits inp) :
    Answering (trace.step inp) where
  inFlight := answering.inFlight.step (answering.holdsRequest permits) permits.2
  held _ held := ⟨_, held_step held⟩
  in_order := in_order_step answering
  issuer_le := by
    have entered : (trace.step inp).2.accepted = trace.2.accepted ++
      if inp.hpuTaskValidI && trace.1.hpuTaskReadyO then [inp.hpuTaskI] else [] := rfl
    rw [entered, List.length_append]
    exact (issuerNow_le answering).trans (Nat.le_add_right _ _)
  stalled stalls := by
    have left : (trace.step inp).2.feedbacks = trace.2.feedbacks ++
      if trace.1.feedbackTaken inp then [trace.1.hpuFeedbackO] else [] := rfl
    have before : issuerNow trace.2 ≤ trace.2.feedbacks.length + 1 := by
      -- commands are disabled while a feedback is buffered
      cases disabled : trace.1.taskFrontend.disableCommandsO with
      | false => exact issuerNow_le_of_empty answering disabled
      | true =>
        exact issuerNow_of_stalled answering
          (stalled_before trace.1.cmdFrontend (trace.1.cmdIn inp) disabled (by tauto))
    rw [left, List.length_append]
    exact before.trans (by omega)
  overtaking := by
    have recorded : (trace.step inp).2.overtaking = trace.2.overtaking ++
      if overtakes trace.1 trace.2 inp
      then [trace.1.cmdFrontend.cmdD (trace.1.cmdIn inp)] else [] := rfl
    rw [recorded, answering.overtaking, not_overtakes answering permits]
    rfl

end Step

/-- Completion: in every run in which the core holds its requests and each command gets
    at most one response after it was sent, tasks are answered as the law says. -/
theorem hpuDriver_completes (params : HpuDriverParams) (inputs : List (HpuDriverIn params))
    (permitted : (hpuTrace params).Admits Permits inputs) :
    Completes ((hpuTrace params).run inputs) :=
  (permitted.invariant Answering answering_reset
    fun _ _ answering permits => answering.step permits).completes

/-- A handler issues a command and ends; the task after it, without a handler, is
    accepted while the response is missing, and the feedback goes out after it. -/
theorem hpuDriver_completes_delayed :
    let params : HpuDriverParams := ⟨1, 0, 0, 1, by decide⟩
    let read (add : BitVec 32) : XbarPeriphReq := ⟨true, add, true, 0⟩
    let idle : HpuDriverIn params := ⟨false, default, true, default, true, true, false, default⟩
    let task : HandlerTask := { (default : HandlerTask) with handlerFun := 64, pktSize := 128 }
    let inputs := [{ idle with hpuDriverSlaveI := read 0 },
      { idle with hpuDriverSlaveI := read 0, hpuTaskValidI := true, hpuTaskI := ⟨task, 0⟩ },
      { idle with hpuDriverSlaveI := read 0 }, { idle with hpuDriverSlaveI := read 0x80 },
      { idle with hpuDriverSlaveI := read 0x50 }, { idle with hpuTaskValidI := true },
      { idle with cmdRespValidI := true }, idle]
    let trace := (hpuTrace params).run inputs
    (trace.2.accepted.length = 2 ∧ trace.2.feedbacks = [HpuHandlerTask.feedback ⟨task, 0⟩] ∧
      trace.unfed.length = 1) ∧ Completes trace :=
  ⟨by decide +kernel, hpuDriver_completes _ _ (by decide +kernel)⟩

end HpuTrace

end Pspin
