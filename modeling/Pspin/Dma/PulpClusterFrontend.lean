import Pspin.Config
import Pspin.Clocked.Machine
import Pspin.CommonCells.FifoV3
import Pspin.CommonCells.RrArbTree

/-! # `pulp_cluster_frontend`

The DMA engine of a cluster as its cores see it.  Every core, the peripherals and
an external unit can start a transfer; an arbiter passes one on to the backend and
a FIFO remembers where it came from until the backend completes it.  A counter for
each core tells whether it has transfers pending.

The backend is the environment: whether it takes a transfer, whether it is idle and
when the oldest transfer is complete.  The id of peripheral requests, events and
interrupts are left out.
-/

namespace Pspin

open Clocked

/-! ## Registers -/

/-- A request on a control port: `ctrlType` is set for a read. -/
structure DmaCtrlReq where
  ctrlReq : Bool
  ctrlType : Bool
  ctrlBe : BitVec 4
  ctrlAdd : BitVec 32
  ctrlData : BitVec 32
deriving DecidableEq, Inhabited, Repr

/-- `pulp_cluster_frontend_regs`, the words of `data_store_q` by their names. -/
structure PulpClusterFrontendRegs where
  srcAddrQ : BitVec 32
  dstAddrQ : BitVec 32
  numBytesQ : BitVec 32
  confStoreQ : BitVec 3
  rdataQ : BitVec 32
  validQ : Bool
deriving DecidableEq, Repr

namespace PulpClusterFrontendRegs

def reset : PulpClusterFrontendRegs where
  srcAddrQ := 0
  dstAddrQ := 0
  numBytesQ := 0
  confStoreQ := 1
  rdataQ := 0
  validQ := false

variable (regs : PulpClusterFrontendRegs) (ctrl : DmaCtrlReq) (beReadyI : Bool)

def regAddr : BitVec 6 := ctrl.ctrlAdd.extractLsb' 0 6

/-- The address that starts a transfer when it is read. -/
def nextIdAddr : BitVec 6 := 0x18

def isRead : Bool := ctrl.ctrlReq && ctrl.ctrlType

def isWrite : Bool := ctrl.ctrlReq && !ctrl.ctrlType

def beValidO : Bool := isRead ctrl && decide (regAddr ctrl = nextIdAddr)

def ctrlGntO : Bool :=
  if beValidO ctrl then beReadyI else ctrl.ctrlReq

/-- The bytes a write enables. -/
def byteMask (be : BitVec 4) : BitVec 32 :=
  let byte (i : Nat) : BitVec 8 := if be.getLsbD i then 0xff else 0
  byte 3 ++ byte 2 ++ byte 1 ++ byte 0

def writeBytes (word : BitVec 32) : BitVec 32 :=
  (word &&& ~~~byteMask ctrl.ctrlBe) ||| (ctrl.ctrlData &&& byteMask ctrl.ctrlBe)

/-- A word of `data_store_d`, which its address lets a core write. -/
def storeD (addr : BitVec 6) (word : BitVec 32) : BitVec 32 :=
  if isWrite ctrl && decide (regAddr ctrl = addr) then writeBytes ctrl word else word

def confStoreD : BitVec 3 :=
  if isWrite ctrl && decide (regAddr ctrl = 0x28) then ctrl.ctrlData.extractLsb' 0 3
  else regs.confStoreQ

def rdataD (nextIdI doneIdI : BitVec 32) (beBusyI : Bool) : BitVec 32 :=
  if isRead ctrl then
    match regAddr ctrl with
    | 0x00#6 => regs.srcAddrQ
    | 0x08#6 => regs.dstAddrQ
    | 0x10#6 => regs.numBytesQ
    | 0x18#6 => nextIdI
    | 0x20#6 => doneIdI
    | 0x28#6 => 0#15 ++ BitVec.ofBool beBusyI ++ 0#13 ++ regs.confStoreQ
    | _ => 0
  else 0

def validD : Bool :=
  if regAddr ctrl = nextIdAddr then ctrl.ctrlReq && beReadyI else ctrl.ctrlReq

def transfDescrO : TransfDescr32 where
  numBytes := regs.numBytesQ
  dstAddr := regs.dstAddrQ
  srcAddr := regs.srcAddrQ
  deburst := regs.confStoreQ.getLsbD 1
  decouple := regs.confStoreQ.getLsbD 0
  serialize := regs.confStoreQ.getLsbD 2

/-- One clock edge. -/
def step (nextIdI doneIdI : BitVec 32) (beBusyI : Bool) : PulpClusterFrontendRegs where
  srcAddrQ := storeD ctrl 0x00 regs.srcAddrQ
  dstAddrQ := storeD ctrl 0x08 regs.dstAddrQ
  numBytesQ := storeD ctrl 0x10 regs.numBytesQ
  confStoreQ := regs.confStoreD ctrl
  rdataQ := regs.rdataD ctrl nextIdI doneIdI beBusyI
  validQ := validD ctrl beReadyI

end PulpClusterFrontendRegs

/-- `transfer_id_gen` -/
structure TransferIdGen where
  nextQ : BitVec 32
  completedQ : BitVec 32
deriving DecidableEq, Repr

namespace TransferIdGen

def reset : TransferIdGen where
  nextQ := 1
  completedQ := 0

/-- One clock edge. -/
def step (ids : TransferIdGen) (issueI retireI : Bool) : TransferIdGen where
  nextQ := if issueI then ids.nextQ + 1 else ids.nextQ
  completedQ := if retireI then ids.completedQ + 1 else ids.completedQ

end TransferIdGen

/-! ## The frontend -/

structure PulpClusterFrontendParams where
  numCores : Nat
  axiAxReqDepth : Nat
  tfReqFifoDepth : Nat

namespace PulpClusterFrontendParams

variable (params : PulpClusterFrontendParams)

abbrev CoreId := Fin params.numCores

abbrev numRegs : Nat := params.numCores + 1

/-- The inputs of the arbiter: the cores, the peripherals and the external unit. -/
abbrev Port := Fin (params.numRegs + 1)

def corePort (i : params.CoreId) : params.Port := i.castSucc.castSucc

def bufferDepth : Nat := 3

def tfFifoDepth : Nat := params.tfReqFifoDepth + params.axiAxReqDepth + bufferDepth + 1

def maxNumRequests : Nat := params.tfReqFifoDepth + bufferDepth + 1

def maxReqWidth : Nat := clog2 params.maxNumRequests

theorem tfFifoDepth_pos : 0 < params.tfFifoDepth := Nat.succ_pos _

end PulpClusterFrontendParams

structure PulpClusterFrontend (params : PulpClusterFrontendParams) where
  confRegsCores : params.CoreId → PulpClusterFrontendRegs
  confRegsPeriphs : PulpClusterFrontendRegs
  rrArbTree : RrArbTree (params.numRegs + 1)
  transferIdGen : TransferIdGen
  tfIdFifo : FifoV3 params.Port params.tfFifoDepth
  coreTfNumQ : params.CoreId → Nat

structure PulpClusterFrontendIn (params : PulpClusterFrontendParams) where
  ctrlTarg : params.CoreId → DmaCtrlReq
  ctrlPeTarg : DmaCtrlReq
  dmaReqValidI : Bool
  dmaReqI : TransfDescr32
  beReadyArb : Bool
  beIdle : Bool
  transComplete : Bool

namespace PulpClusterFrontend

open PulpClusterFrontendRegs

variable {params : PulpClusterFrontendParams}

def reset : PulpClusterFrontend params where
  confRegsCores := fun _ => PulpClusterFrontendRegs.reset
  confRegsPeriphs := PulpClusterFrontendRegs.reset
  rrArbTree := RrArbTree.reset
  transferIdGen := TransferIdGen.reset
  tfIdFifo := FifoV3.reset params.tfFifoDepth_pos
  coreTfNumQ := fun _ => 0

variable (frontend : PulpClusterFrontend params) (inp : PulpClusterFrontendIn params)

/-- `{dma_req_valid_i, be_valid}` -/
def beValid (inp : PulpClusterFrontendIn params) : params.Port → Bool :=
  Fin.lastCases inp.dmaReqValidI
    (Fin.lastCases (beValidO inp.ctrlPeTarg) fun i => beValidO (inp.ctrlTarg i))

/-- `{dma_req_i, transf_descr}` -/
def transfDescr : params.Port → TransfDescr32 :=
  Fin.lastCases inp.dmaReqI
    (Fin.lastCases frontend.confRegsPeriphs.transfDescrO fun i =>
      (frontend.confRegsCores i).transfDescrO)

/-- `{dma_req_ready_o, be_ready}` -/
def beReady (port : params.Port) : Bool :=
  frontend.rrArbTree.gntO (beValid inp) inp.beReadyArb port

def beValidArb : Bool := frontend.rrArbTree.reqO (beValid inp)

def peIdxArb : params.Port := frontend.rrArbTree.idxO (beValid inp)

def transfDescrArb : TransfDescr32 := frontend.transfDescr inp (frontend.peIdxArb inp)

/-- A transfer that moves something goes to the backend. -/
def issue : Bool :=
  inp.beReadyArb && frontend.beValidArb inp && decide ((frontend.transfDescrArb inp).numBytes ≠ 0)

def tfHead : params.Port := frontend.tfIdFifo.dataO

def tfEmpty : Bool := frontend.tfIdFifo.emptyO

def dmaRspValidO : Bool :=
  decide (frontend.tfHead = Fin.last params.numRegs) && !frontend.tfEmpty && inp.transComplete

def busyO (inp : PulpClusterFrontendIn params) : Bool := !inp.beIdle

/-! ## The counters -/

/-- A transfer of the core starts. -/
def coreStarts (i : params.CoreId) : Bool :=
  frontend.beReady inp (params.corePort i) && beValid inp (params.corePort i) &&
    decide ((frontend.transfDescr inp (params.corePort i)).numBytes ≠ 0)

/-- A transfer of the core is complete. -/
def coreCompletes (i : params.CoreId) : Bool :=
  decide (frontend.tfHead = params.corePort i) && !frontend.tfEmpty && inp.transComplete

def coreTfNumD (i : params.CoreId) : Nat :=
  let started := if frontend.coreStarts inp i then increment params.maxReqWidth (frontend.coreTfNumQ i)
    else frontend.coreTfNumQ i
  if frontend.coreCompletes inp i then decrement params.maxReqWidth started else started

def noReqPendingO (i : params.CoreId) : Bool := decide (frontend.coreTfNumD inp i = 0)

/-- One clock edge. -/
def step : PulpClusterFrontend params where
  confRegsCores := fun i => (frontend.confRegsCores i).step (inp.ctrlTarg i)
    (frontend.beReady inp (params.corePort i)) frontend.transferIdGen.nextQ
    frontend.transferIdGen.completedQ (busyO inp)
  confRegsPeriphs := frontend.confRegsPeriphs.step inp.ctrlPeTarg
    (frontend.beReady inp (Fin.last params.numCores).castSucc) frontend.transferIdGen.nextQ
    frontend.transferIdGen.completedQ (busyO inp)
  rrArbTree := frontend.rrArbTree.step (beValid inp) inp.beReadyArb
  transferIdGen := frontend.transferIdGen.step (frontend.issue inp) inp.transComplete
  tfIdFifo := frontend.tfIdFifo.step (frontend.peIdxArb inp) (frontend.issue inp) inp.transComplete
  coreTfNumQ := frontend.coreTfNumD inp

end PulpClusterFrontend

end Pspin
