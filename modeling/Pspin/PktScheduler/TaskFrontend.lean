import Pspin.Config
import Pspin.CommonCells.FifoV3

/-! # `task_frontend`

The half of an HPU driver that takes a task, answers the core's reads of it and
turns the end of its handler into a feedback.  One feedback is buffered while it
cannot be sent; the next task runs in the meantime.  The PMP configuration and the
handler error, which is only printed, are left out.
-/

namespace Pspin

inductive TaskFrontendState where
  | init
  | idle
  | running
  | sendingFeedback
deriving DecidableEq, Repr

structure TaskFrontend where
  stateQ : TaskFrontendState
  currentTaskQ : HpuHandlerTask
  validQ : Bool
  rdataQ : BitVec 32
  feedbackBuff : FifoV3 TaskFeedbackDescr 1

structure TaskFrontendIn where
  hpuTaskValidI : Bool
  hpuTaskI : HpuHandlerTask
  hpuFeedbackReadyI : Bool
  reqI : Bool
  addI : BitVec 32
  canSendFeedbackI : Bool

namespace TaskFrontend

def reset : TaskFrontend where
  stateQ := .init
  currentTaskQ := default
  validQ := false
  rdataQ := 0
  feedbackBuff := FifoV3.reset (by decide)

variable (frontend : TaskFrontend) (inp : TaskFrontendIn)

/-! ## Feedbacks -/

def feedbackBuffFull : Bool := frontend.feedbackBuff.fullO

def feedbackBuffEmpty : Bool := frontend.feedbackBuff.emptyO

def disableCommandsO : Bool := !frontend.feedbackBuffEmpty

def hpuFeedbackValidO (canSendFeedbackI : Bool) : Bool :=
  canSendFeedbackI && !frontend.feedbackBuffEmpty

def hpuFeedbackO : TaskFeedbackDescr := frontend.feedbackBuff.dataO

def hpuFeedback : TaskFeedbackDescr := frontend.currentTaskQ.feedback

/-- The core reads the feedback flag. -/
def triggerFeedback : Bool :=
  decide (frontend.stateQ = .running) && inp.reqI && decide (inp.addI.setWidth 8 = 0x50#8)

def feedbackBuffPush : Bool :=
  !frontend.feedbackBuffFull &&
    (frontend.triggerFeedback inp || decide (frontend.stateQ = .sendingFeedback))

/-! ## Tasks -/

def hpuTaskReadyO : Bool := decide (frontend.stateQ = .idle)

def hpuActiveO : Bool := decide (frontend.stateQ ≠ .init)

def stateD : TaskFrontendState :=
  match frontend.stateQ with
  | .init => if inp.reqI then .idle else .init
  | .idle =>
    if inp.hpuTaskValidI then
      (if inp.hpuTaskI.handlerTask.handlerFun = 0 then .sendingFeedback else .running)
    else .idle
  | .running =>
    if frontend.triggerFeedback inp then
      (if frontend.feedbackBuffFull then .sendingFeedback else .idle)
    else .running
  | .sendingFeedback => if frontend.feedbackBuffFull then .sendingFeedback else .idle

def currentTaskD : HpuHandlerTask :=
  if frontend.hpuTaskReadyO && inp.hpuTaskValidI then inp.hpuTaskI else frontend.currentTaskQ

/-! ## The core's reads -/

/-- `l1_scratchpad_addr`: the scratchpads of a message, one in each cluster. -/
def l1ScratchpadAddr (task : HandlerTask) : Vector (BitVec 32) numClusters :=
  task.scratchpadAddr.mapIdx fun i addr =>
    BitVec.ofNat 32 (l1ClusterBase + i * l1ClusterMemSize + l1ScratchpadOffset) + addr

def homeClusterId (task : HandlerTask) : BitVec (Clocked.clog2 numClusters) :=
  task.msgid.setWidth _

/-- The words a core can read about its task; other addresses keep the last one. -/
def taskInfo (current : HpuHandlerTask) (add : BitVec 8) : Option (BitVec 32) :=
  let task := current.handlerTask
  match add with
  | 0x00#8 => some task.handlerFun
  | 0x04#8 => some task.handlerFunSize
  | 0x08#8 => some task.handlerMemAddr
  | 0x0c#8 => some task.handlerMemSize
  | 0x10#8 => some current.pktPtr
  | 0x14#8 => some task.pktSize
  | 0x18#8 => some (l1ScratchpadAddr task)[0]
  | 0x1c#8 => some (l1ScratchpadAddr task)[1]
  | 0x20#8 => some (l1ScratchpadAddr task)[2]
  | 0x24#8 => some (l1ScratchpadAddr task)[3]
  | 0x28#8 => some task.scratchpadSize[0]
  | 0x2c#8 => some task.scratchpadSize[1]
  | 0x30#8 => some task.scratchpadSize[2]
  | 0x34#8 => some task.scratchpadSize[3]
  | 0x38#8 => some (task.hostMemAddr.extractLsb' 32 32)
  | 0x3c#8 => some (task.hostMemAddr.extractLsb' 0 32)
  | 0x40#8 => some task.hostMemSize
  | 0x44#8 => some task.pktAddr
  | 0x48#8 => some ((homeClusterId task).setWidth 32)
  | 0x4c#8 => some (task.msgid.setWidth 32)
  | 0x50#8 => some 0
  | _ => none

def gntO : Bool := decide (frontend.stateQ = .running) && inp.reqI

def rdataD : BitVec 32 :=
  if frontend.gntO inp then
    (taskInfo frontend.currentTaskQ (inp.addI.setWidth 8)).getD frontend.rdataQ
  else frontend.rdataQ

def rRdataO : BitVec 32 := frontend.rdataQ

def rValidO : Bool := frontend.validQ

/-- One clock edge. -/
def step : TaskFrontend where
  stateQ := frontend.stateD inp
  currentTaskQ := frontend.currentTaskD inp
  validQ := frontend.gntO inp
  rdataQ := frontend.rdataD inp
  feedbackBuff := frontend.feedbackBuff.step frontend.hpuFeedback (frontend.feedbackBuffPush inp)
    (inp.hpuFeedbackReadyI && frontend.hpuFeedbackValidO inp.canSendFeedbackI)

/-- A feedback that is pushed finds room in the buffer. -/
theorem contents_step : (frontend.step inp).feedbackBuff.contents =
    (if inp.hpuFeedbackReadyI && frontend.hpuFeedbackValidO inp.canSendFeedbackI
      then frontend.feedbackBuff.contents.tail else frontend.feedbackBuff.contents) ++
      if frontend.feedbackBuffPush inp then [frontend.hpuFeedback] else [] := by
  have contents : (frontend.step inp).feedbackBuff.contents = _ :=
    FifoV3.contents_step frontend.feedbackBuff frontend.hpuFeedback (frontend.feedbackBuffPush inp)
      (inp.hpuFeedbackReadyI && frontend.hpuFeedbackValidO inp.canSendFeedbackI)
  have room : (frontend.feedbackBuffPush inp && !frontend.feedbackBuff.fullO) =
      frontend.feedbackBuffPush inp := by
    cases full : frontend.feedbackBuff.fullO <;> simp [feedbackBuffPush, feedbackBuffFull, full]
  rw [contents, room]

end TaskFrontend

end Pspin
