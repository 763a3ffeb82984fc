import Pspin.Clocked.Machine
import Pspin.Cmds.CmdDescr
import Pspin.CommonCells.FifoV3

/-! # `host_direct`

Commands that carry their data.  A write goes to the host as one address and one beat of data, a
read as one address; the ids of both wait in queues of their own for the host to answer.
-/

namespace Pspin

open Clocked

/-- `AW_FIFO_DEPTH` and so on, all positive; `AXI_DW` and `CMD_IMM_DATA_SIZE` are 512. -/
structure HostDirectParams where
  awFifoDepth : Nat
  arFifoDepth : Nat
  wFifoDepth : Nat
  writesFifoDepth : Nat
  readsFifoDepth : Nat
  numCores : Nat
  idBits : Nat
  someAw : 0 < awFifoDepth
  someAr : 0 < arFifoDepth
  someW : 0 < wFifoDepth
  someWrite : 0 < writesFifoDepth
  someRead : 0 < readsFifoDepth

namespace HostDirectParams

variable (params : HostDirectParams)

abbrev Cmd := PspinCmd params.numCores params.idBits

abbrev CmdId := PspinCmdId params.numCores params.idBits

abbrev Resp := PspinCmdResp params.numCores params.idBits

end HostDirectParams

/-- `w_descr_t` -/
structure WDescr where
  data : BitVec 512
  strb : BitVec 64
deriving DecidableEq, Inhabited, Repr

namespace HostDirectCmd

variable (cmd : HostDirectCmd)

/-- `fifo_w_data_in` -/
def wDescr : WDescr where
  data := cmd.immData
  strb := BitVec.allOnes 64 >>> (64#32 - cmd.immDataSize.setWidth 32)

/-- The command writes to the host. -/
def isWrite : Bool := cmd.nicToHost == 1

end HostDirectCmd

/-- The queues of `host_direct`. -/
structure HostDirect (params : HostDirectParams) where
  awFifo : FifoV3 HostAddr params.awFifoDepth
  arFifo : FifoV3 HostAddr params.arFifoDepth
  wFifo : FifoV3 WDescr params.wFifoDepth
  writeIdFifo : FifoV3 params.CmdId params.writesFifoDepth
  readIdFifo : FifoV3 params.CmdId params.readsFifoDepth

/-- The command interface, and the handshake signals of `host_resp_i`. -/
structure HostDirectIn (params : HostDirectParams) where
  cmdReqValidI : Bool
  cmdReqI : params.Cmd
  awReady : Bool
  arReady : Bool
  wReady : Bool
  bValid : Bool
  rValid : Bool

namespace HostDirectIn

variable {params : HostDirectParams} (inp : HostDirectIn params)

def hostDirectCmd : HostDirectCmd := inp.cmdReqI.descr.hostDirectCmd

end HostDirectIn

namespace HostDirect

variable {params : HostDirectParams}

def reset : HostDirect params where
  awFifo := FifoV3.reset params.someAw
  arFifo := FifoV3.reset params.someAr
  wFifo := FifoV3.reset params.someW
  writeIdFifo := FifoV3.reset params.someWrite
  readIdFifo := FifoV3.reset params.someRead

variable (unit : HostDirect params) (inp : HostDirectIn params)

/-! ## Commands -/

/-- Commands are accepted only if they can be pushed to the queues. -/
def cmdReqReadyO : Bool :=
  (inp.hostDirectCmd.isWrite && !unit.awFifo.fullO && !unit.wFifo.fullO && !unit.writeIdFifo.fullO) ||
    (!inp.hostDirectCmd.isWrite && !unit.arFifo.fullO && !unit.readIdFifo.fullO)

/-- `fifo_aw_push`, and the push of the data and of the id of a write. -/
def fifoAwPush : Bool :=
  inp.cmdReqValidI && unit.cmdReqReadyO inp && inp.hostDirectCmd.isWrite

/-- `fifo_ar_push`, and the push of the id of a read. -/
def fifoArPush : Bool :=
  inp.cmdReqValidI && unit.cmdReqReadyO inp && !inp.hostDirectCmd.isWrite

/-! ## Requests to the host -/

def awValid : Bool := !unit.awFifo.emptyO

def arValid : Bool := !unit.arFifo.emptyO

def wValid : Bool := !unit.wFifo.emptyO

/-- Address of the beat on `host_req_o.aw`; its size is the width of the bus. -/
def awAddr : HostAddr := unit.awFifo.dataO

def arAddr : HostAddr := unit.arFifo.dataO

/-- Data and strobes on `host_req_o.w`. -/
def wBeat : WDescr := unit.wFifo.dataO

def fifoAwPop : Bool := inp.awReady && unit.awValid

def fifoArPop : Bool := inp.arReady && unit.arValid

def fifoWPop : Bool := inp.wReady && unit.wValid

/-! ## Responses -/

/-- The answer to a read goes first. -/
def rReady (inp : HostDirectIn params) : Bool := inp.rValid

def bReady (inp : HostDirectIn params) : Bool := inp.bValid && !inp.rValid

def cmdRespValidO (inp : HostDirectIn params) : Bool := inp.rValid || inp.bValid

def cmdRespO : params.Resp where
  cmdId := if inp.rValid then unit.readIdFifo.dataO
    else if inp.bValid then unit.writeIdFifo.dataO
    else default

/-- One clock edge. -/
def step : HostDirect params where
  awFifo := unit.awFifo.step inp.hostDirectCmd.hostAddr (unit.fifoAwPush inp) (unit.fifoAwPop inp)
  arFifo := unit.arFifo.step inp.hostDirectCmd.hostAddr (unit.fifoArPush inp) (unit.fifoArPop inp)
  wFifo := unit.wFifo.step inp.hostDirectCmd.wDescr (unit.fifoAwPush inp) (unit.fifoWPop inp)
  writeIdFifo := unit.writeIdFifo.step inp.cmdReqI.cmdId (unit.fifoAwPush inp)
    (bReady inp && inp.bValid)
  readIdFifo := unit.readIdFifo.step inp.cmdReqI.cmdId (unit.fifoArPush inp)
    (rReady inp && inp.rValid)

end HostDirect

def hostDirect (params : HostDirectParams) : Machine (HostDirect params) (HostDirectIn params) where
  reset := HostDirect.reset
  step := HostDirect.step

end Pspin
