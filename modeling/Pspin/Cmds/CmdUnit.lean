import Pspin.Config
import Pspin.Clocked.Machine
import Pspin.CommonCells.FifoV3
import Pspin.CommonCells.RrArbTree
import Pspin.CommonCells.SpillRegister

/-! # `cmd_unit`

Commands of the clusters go to the interface they name, one cluster at a time for
each interface; responses of all interfaces go to the clusters through one
arbiter.  An interface that cannot be held back must not overflow its response
buffer, so a command takes a place in a second FIFO of the same depth, which it
gives back when its response has left the buffer.
-/

namespace Pspin

open Clocked

/-- The parameters of `cmd_unit`; `INTF_RESP_BUFF_SIZE` is `2 ^ respBuffBits`. -/
structure CmdUnitParams where
  numClusters : Nat
  numCmdInterfaces : Nat
  respBuffBits : Nat
  numCores : Nat
  idBits : Nat
  someCluster : 0 < numClusters
  someInterface : 0 < numCmdInterfaces
  buffers : 1 ≤ respBuffBits

namespace CmdUnitParams

variable (params : CmdUnitParams)

instance : NeZero params.numClusters := ⟨params.someCluster.ne'⟩

instance : NeZero params.numCmdInterfaces := ⟨params.someInterface.ne'⟩

/-- `INTF_RESP_BUFF_SIZE` -/
def intfRespBuffSize : Nat := 2 ^ params.respBuffBits

abbrev Cluster := Fin params.numClusters

abbrev Intf := Fin params.numCmdInterfaces

abbrev Cmd := PspinCmd params.numCores params.idBits

abbrev Resp := PspinCmdResp params.numCores params.idBits

end CmdUnitParams

/-- The units in `cmd_unit`. -/
structure CmdUnit (params : CmdUnitParams) where
  clusterCmdSpill : params.Cluster → SpillRegister params.Cmd
  cmdIntfArb : params.Intf → RrArbTree params.numClusters
  reqFifo : params.Intf → FifoV3 Bool params.intfRespBuffSize
  respFifo : params.Intf → FifoV3 params.Resp params.intfRespBuffSize
  cmdRespArb : RrArbTree params.numCmdInterfaces
  clusterCmdRespSpill : SpillRegister params.Resp

structure CmdUnitIn (params : CmdUnitParams) where
  cmdValidI : params.Cluster → Bool
  cmdI : params.Cluster → params.Cmd
  intfReadyI : params.Intf → Bool
  intfCmdRespValidI : params.Intf → Bool
  intfCmdRespI : params.Intf → params.Resp

namespace CmdUnit

variable {params : CmdUnitParams}

def reset : CmdUnit params where
  clusterCmdSpill := fun _ => SpillRegister.reset
  cmdIntfArb := fun _ => RrArbTree.reset
  reqFifo := fun _ => FifoV3.reset (Nat.two_pow_pos _)
  respFifo := fun _ => FifoV3.reset (Nat.two_pow_pos _)
  cmdRespArb := RrArbTree.reset
  clusterCmdRespSpill := SpillRegister.reset

variable (unit : CmdUnit params) (inp : CmdUnitIn params)

/-! ## Commands -/

def cmdReadyO (j : params.Cluster) : Bool := (unit.clusterCmdSpill j).readyO

def clusterCmdValid (j : params.Cluster) : Bool := (unit.clusterCmdSpill j).validO

def clusterCmd (j : params.Cluster) : params.Cmd := (unit.clusterCmdSpill j).dataO

/-- The output of `stream_demux` for an interface, crossed over to its arbiter. -/
def intfMuxValid (i : params.Intf) (j : params.Cluster) : Bool :=
  unit.clusterCmdValid j && decide ((unit.clusterCmd j).intfId.toNat = i)

def cmdArbValid (i : params.Intf) : Bool := (unit.cmdIntfArb i).reqO (unit.intfMuxValid i)

def cmdArbIdx (i : params.Intf) : params.Cluster := (unit.cmdIntfArb i).idxO (unit.intfMuxValid i)

def cmdArbCmd (i : params.Intf) : params.Cmd := unit.clusterCmd (unit.cmdArbIdx i)

def fifoInFlightReqHasSpace (i : params.Intf) : Bool :=
  decide ((unit.reqFifo i).usageO < params.intfRespBuffSize - 1)

def cmdArbReady (i : params.Intf) : Bool := inp.intfReadyI i && unit.fifoInFlightReqHasSpace i

def intfValidO (i : params.Intf) : Bool := unit.cmdArbValid i && unit.fifoInFlightReqHasSpace i

def intfCmdO (i : params.Intf) : params.Cmd := unit.cmdArbCmd i

def intfMuxReady (i : params.Intf) (j : params.Cluster) : Bool :=
  (unit.cmdIntfArb i).gntO (unit.intfMuxValid i) (unit.cmdArbReady inp i) j

/-- `inp_ready_o` of `stream_demux`: the ready of the output that is selected. -/
def clusterCmdReady (j : params.Cluster) : Bool :=
  if exists_ : (unit.clusterCmd j).intfId.toNat < params.numCmdInterfaces
  then unit.intfMuxReady inp ⟨_, exists_⟩ j else false

/-! ## Responses -/

def fifoInFlightReqPush (i : params.Intf) : Bool := unit.cmdArbValid i && unit.cmdArbReady inp i

def fifoRespBufferValid (i : params.Intf) : Bool := !(unit.respFifo i).emptyO

def fifoRespBufferReady (i : params.Intf) : Bool :=
  unit.cmdRespArb.gntO unit.fifoRespBufferValid true i

def fifoRespBufferPop (i : params.Intf) : Bool :=
  unit.fifoRespBufferReady i && unit.fifoRespBufferValid i

def respArbValid : Bool := unit.cmdRespArb.reqO unit.fifoRespBufferValid

def respArbIdx : params.Intf := unit.cmdRespArb.idxO unit.fifoRespBufferValid

def respArbData : params.Resp := (unit.respFifo unit.respArbIdx).dataO

def cmdRespValidO : Bool := unit.clusterCmdRespSpill.validO

def cmdRespO : params.Resp := unit.clusterCmdRespSpill.dataO

/-- One clock edge. -/
def step : CmdUnit params where
  clusterCmdSpill := fun j => (unit.clusterCmdSpill j).step (inp.cmdValidI j) (inp.cmdI j)
    (unit.clusterCmdReady inp j)
  cmdIntfArb := fun i => (unit.cmdIntfArb i).step (unit.intfMuxValid i) (unit.cmdArbReady inp i)
  reqFifo := fun i => (unit.reqFifo i).step true (unit.fifoInFlightReqPush inp i)
    (unit.fifoRespBufferPop i)
  respFifo := fun i => (unit.respFifo i).step (inp.intfCmdRespI i) (inp.intfCmdRespValidI i)
    (unit.fifoRespBufferPop i)
  cmdRespArb := unit.cmdRespArb.step unit.fifoRespBufferValid true
  clusterCmdRespSpill := unit.clusterCmdRespSpill.step unit.respArbValid unit.respArbData true

end CmdUnit

def cmdUnit (params : CmdUnitParams) : Machine (CmdUnit params) (CmdUnitIn params) where
  reset := CmdUnit.reset
  step := CmdUnit.step

end Pspin
