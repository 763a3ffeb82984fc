import Pspin.Clocked.Machine
import Pspin.Cmds.CmdDescr
import Pspin.CommonCells.FifoV3
import Pspin.CommonCells.RrArbTree

/-! # `soc_dma_wrap`

Commands to the SoC-level DMA.  A transfer to the host goes to the RX port of the engine and one
from the host to its TX port; both have the same response logic.  The engine only says that a
transfer of a port is complete.  Completions are counted, and as long as there are some the port
asks the arbiter to send the oldest id in its FIFO.
-/

namespace Pspin

open Clocked

/-- The parameters of `soc_dma_wrap`, and `INTF_RESP_BUFF_SIZE` of the `cmd_unit` it answers to,
    which keeps fewer commands than that outstanding. -/
structure SocDmaWrapParams where
  axiAxReqDepth : Nat
  tfReqFifoDepth : Nat
  intfRespBuffSize : Nat
  numCores : Nat
  idBits : Nat
  someDepth : 0 < tfReqFifoDepth + axiAxReqDepth
  buffers : intfRespBuffSize - 1 ≤ tfReqFifoDepth + axiAxReqDepth

/-- The RX port is 0, as in the requests of the arbiter, and the TX port 1. -/
abbrev DmaPort := Fin 2

def DmaPort.rx : DmaPort := ⟨0, Nat.two_pos⟩

def DmaPort.tx : DmaPort := ⟨1, Nat.one_lt_two⟩

theorem DmaPort.neZero : NeZero 2 := ⟨Nat.two_pos.ne'⟩

namespace SocDmaWrapParams

variable (params : SocDmaWrapParams)

def respFifoDepth : Nat := params.tfReqFifoDepth + params.axiAxReqDepth

/-- Width of `to_pop_rx_q` and `to_pop_tx_q`. -/
def toPopWidth : Nat := clog2 params.respFifoDepth + 1

abbrev Cmd := PspinCmd params.numCores params.idBits

abbrev Resp := PspinCmdResp params.numCores params.idBits

end SocDmaWrapParams

structure SocDmaWrap (params : SocDmaWrapParams) where
  toPopQ : DmaPort → Nat
  respFifo : DmaPort → FifoV3 params.Resp params.respFifoDepth
  respArb : RrArbTree 2

/-- The command interface, and what the engine drives on its two ports. -/
structure SocDmaWrapIn (params : SocDmaWrapParams) where
  cmdReqValidI : Bool
  cmdReqI : params.Cmd
  reqReady : DmaPort → Bool
  respValid : DmaPort → Bool

namespace SocDmaWrapIn

variable {params : SocDmaWrapParams} (inp : SocDmaWrapIn params)

/-- The port that the command selects. -/
def port : DmaPort := if inp.cmdReqI.descr.hostDmaCmd.rxReqValid then DmaPort.rx else DmaPort.tx

/-- `rx_req_valid`, `tx_req_valid` -/
def reqValid (i : DmaPort) : Bool := inp.cmdReqValidI && decide (inp.port = i)

def xferDescr : TransfDescrSoc := inp.cmdReqI.descr.hostDmaCmd.xferDescr

end SocDmaWrapIn

/-- The response to a command. -/
def PspinCmd.resp {numCores idBits : Nat} (cmd : PspinCmd numCores idBits) :
    PspinCmdResp numCores idBits where
  cmdId := cmd.cmdId

namespace SocDmaWrap

variable {params : SocDmaWrapParams}

def reset : SocDmaWrap params where
  toPopQ := fun _ => 0
  respFifo := fun _ => FifoV3.reset params.someDepth
  respArb := RrArbTree.reset

variable (wrap : SocDmaWrap params) (inp : SocDmaWrapIn params)

/-- `fifo_rx_full`, `fifo_tx_full` -/
def fifoFull (i : DmaPort) : Bool := (wrap.respFifo i).fullO

def cmdReqReadyO : Bool :=
  inp.cmdReqValidI && (!wrap.fifoFull inp.port && inp.reqReady inp.port)

/-- `fifo_rx_resp_avail`, `fifo_tx_resp_avail` -/
def fifoRespAvail (i : DmaPort) : Bool := decide (0 < wrap.toPopQ i)

/-- `fifo_rx_sel`, `fifo_tx_sel` -/
def fifoSel (i : DmaPort) : Bool := wrap.respArb.gntO wrap.fifoRespAvail true i

/-- `fifo_rx_pop`, `fifo_tx_pop` -/
def fifoPop (i : DmaPort) : Bool := wrap.fifoRespAvail i && wrap.fifoSel i

def fifoPush (i : DmaPort) : Bool := wrap.cmdReqReadyO inp && inp.reqValid i

/-- `to_pop_rx_d`, `to_pop_tx_d` -/
def toPopD (i : DmaPort) : Nat :=
  match inp.respValid i, wrap.fifoPop i with
  | true, false => increment params.toPopWidth (wrap.toPopQ i)
  | false, true => decrement params.toPopWidth (wrap.toPopQ i)
  | _, _ => wrap.toPopQ i

def cmdRespValidO : Bool := wrap.respArb.reqO wrap.fifoRespAvail

/-- The port whose response is on `cmd_resp_o`. -/
def respIdx : DmaPort := @RrArbTree.idxO 2 DmaPort.neZero wrap.respArb wrap.fifoRespAvail

def cmdRespO : params.Resp := (wrap.respFifo wrap.respIdx).dataO

/-- One clock edge. -/
def step : SocDmaWrap params where
  toPopQ := wrap.toPopD inp
  respFifo := fun i => (wrap.respFifo i).step inp.cmdReqI.resp (wrap.fifoPush inp i) (wrap.fifoPop i)
  respArb := wrap.respArb.step wrap.fifoRespAvail true

end SocDmaWrap

def socDmaWrap (params : SocDmaWrapParams) : Machine (SocDmaWrap params) (SocDmaWrapIn params) where
  reset := SocDmaWrap.reset
  step := SocDmaWrap.step

end Pspin
