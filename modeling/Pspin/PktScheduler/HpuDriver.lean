import Pspin.PktScheduler.CmdFrontend
import Pspin.PktScheduler.TaskFrontend

/-! # `hpu_driver`

Task and command frontend of one HPU behind one bus, which addresses them by two
address bits.  A feedback can be sent while the core has no DMA transfers and no
commands in flight, and commands are disabled while a feedback is buffered.
-/

namespace Pspin

open Clocked

structure HpuDriverParams where
  numCores : Nat
  coreId : Nat
  clusterId : BitVec 6
  idBits : Nat
  idBits_le : idBits ≤ 32

/-- The command buffer has room for `NUM_CMDS` commands. -/
def HpuDriverParams.cmd (params : HpuDriverParams) : CmdFrontendParams where
  numCores := params.numCores
  coreId := params.coreId
  clusterId := params.clusterId
  idBits := params.idBits
  numBufferedCmd := 2 ^ params.idBits
  idBits_le := params.idBits_le
  someBuffer := Nat.two_pow_pos _

structure HpuDriver (params : HpuDriverParams) where
  addTypeQ : BitVec 2
  taskFrontend : TaskFrontend
  cmdFrontend : CmdFrontend params.cmd

structure HpuDriverIn (params : HpuDriverParams) where
  hpuTaskValidI : Bool
  hpuTaskI : HpuHandlerTask
  hpuFeedbackReadyI : Bool
  hpuDriverSlaveI : XbarPeriphReq
  noDmaReqPendingI : Bool
  cmdReadyI : Bool
  cmdRespValidI : Bool
  cmdRespI : params.cmd.CmdResp

namespace HpuDriver

variable {params : HpuDriverParams}

def reset : HpuDriver params where
  addTypeQ := 0
  taskFrontend := TaskFrontend.reset
  cmdFrontend := CmdFrontend.reset

variable (driver : HpuDriver params) (inp : HpuDriverIn params)

/-- The frontend a request is for: 0 is the task frontend, 1 the command frontend. -/
def addTypeD (inp : HpuDriverIn params) : BitVec 2 := inp.hpuDriverSlaveI.add.extractLsb' 7 2

def frontendReq (inp : HpuDriverIn params) (i : BitVec 2) : Bool :=
  inp.hpuDriverSlaveI.req && decide (addTypeD inp = i)

def canSendFeedback (noDmaReqPendingI : Bool) : Bool :=
  noDmaReqPendingI && driver.cmdFrontend.noPendingCmdO

/-- The response is for a command of this HPU. -/
def cmdRespValid (inp : HpuDriverIn params) : Bool :=
  inp.cmdRespValidI && decide (inp.cmdRespI.cmdId.clusterId.toNat = params.clusterId.toNat) &&
    decide (inp.cmdRespI.cmdId.coreId.toNat = params.coreId)

def taskIn : TaskFrontendIn where
  hpuTaskValidI := inp.hpuTaskValidI
  hpuTaskI := inp.hpuTaskI
  hpuFeedbackReadyI := inp.hpuFeedbackReadyI
  reqI := frontendReq inp 0
  addI := inp.hpuDriverSlaveI.add
  canSendFeedbackI := driver.canSendFeedback inp.noDmaReqPendingI

def cmdIn : CmdFrontendIn params.cmd where
  bus := { inp.hpuDriverSlaveI with req := frontendReq inp 1 }
  cmdRespValidI := cmdRespValid inp
  cmdRespI := inp.cmdRespI
  disabledI := driver.taskFrontend.disableCommandsO
  cmdReadyI := inp.cmdReadyI

def hpuTaskReadyO : Bool := driver.taskFrontend.hpuTaskReadyO

def hpuFeedbackValidO (noDmaReqPendingI : Bool) : Bool :=
  driver.taskFrontend.hpuFeedbackValidO (driver.canSendFeedback noDmaReqPendingI)

def hpuFeedbackO : TaskFeedbackDescr := driver.taskFrontend.hpuFeedbackO

/-- `hpu_feedback_ready_i && hpu_feedback_valid_o` -/
def feedbackTaken : Bool :=
  inp.hpuFeedbackReadyI && driver.hpuFeedbackValidO inp.noDmaReqPendingI

def hpuActiveO : Bool := driver.taskFrontend.hpuActiveO

def cmdValidO : Bool := driver.cmdFrontend.cmdValidO

def cmdO : params.cmd.Cmd := driver.cmdFrontend.cmdO

def gnt : Bool :=
  match addTypeD inp with
  | 0#2 => driver.taskFrontend.gntO (driver.taskIn inp)
  | 1#2 => driver.cmdFrontend.gntO (driver.cmdIn inp)
  | _ => false

def rRdata : BitVec 32 :=
  match driver.addTypeQ with
  | 0#2 => driver.taskFrontend.rRdataO
  | 1#2 => driver.cmdFrontend.rRdataO
  | _ => 0

def rValid : Bool :=
  match driver.addTypeQ with
  | 0#2 => driver.taskFrontend.rValidO
  | 1#2 => driver.cmdFrontend.rValidO
  | _ => false

/-- One clock edge. -/
def step : HpuDriver params where
  addTypeQ := addTypeD inp
  taskFrontend := driver.taskFrontend.step (driver.taskIn inp)
  cmdFrontend := driver.cmdFrontend.step (driver.cmdIn inp)

/-! ## The feedback buffer -/

/-- The feedback of the current task enters the buffer. -/
def feedbackPushed : Bool := driver.taskFrontend.feedbackBuffPush (driver.taskIn inp)

theorem feedbackBuff_step : (driver.step inp).taskFrontend.feedbackBuff.contents =
    (if driver.feedbackTaken inp then driver.taskFrontend.feedbackBuff.contents.tail
      else driver.taskFrontend.feedbackBuff.contents) ++
      if driver.feedbackPushed inp then [driver.taskFrontend.hpuFeedback] else [] :=
  driver.taskFrontend.contents_step (driver.taskIn inp)

theorem hpuFeedbackValidO_eq_true {noDmaReqPending : Bool} :
    driver.hpuFeedbackValidO noDmaReqPending = true ↔ noDmaReqPending = true ∧
      driver.cmdFrontend.noPendingCmdO = true ∧ driver.taskFrontend.feedbackBuffEmpty = false := by
  simp only [hpuFeedbackValidO, TaskFrontend.hpuFeedbackValidO, canSendFeedback, Bool.and_eq_true,
    Bool.not_eq_true', and_assoc]

/-- The feedback on offer is the front of the buffer. -/
theorem taken_front {noDmaReqPending : Bool}
    (valid : driver.hpuFeedbackValidO noDmaReqPending = true) :
    ∃ rest, driver.taskFrontend.feedbackBuff.contents = driver.hpuFeedbackO :: rest := by
  have buffered := (driver.hpuFeedbackValidO_eq_true.mp valid).2.2
  obtain ⟨front, rest, holds⟩ := List.exists_cons_of_ne_nil (FifoV3.emptyO_eq_false.mp buffered)
  exact ⟨rest, holds.trans (by rw [← FifoV3.dataO_eq_head holds]; rfl)⟩

end HpuDriver

def hpuDriver (params : HpuDriverParams) : Machine (HpuDriver params) (HpuDriverIn params) where
  reset := HpuDriver.reset
  step := HpuDriver.step

end Pspin
