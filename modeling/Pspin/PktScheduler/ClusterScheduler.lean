import Pspin.Clocked.Machine
import Pspin.CommonCells.FifoV3
import Pspin.CommonCells.RrArbTree
import Pspin.PktScheduler.ClusterRb

/-! # `cluster_scheduler`

An accepted task gets a place in the L1 packet buffer and waits in a FIFO while the
DMA engine copies its packet; a task with a packet is given to a free HPU once
enough copies have completed, one without at any time.  Feedbacks of the HPUs are
arbitrated, free the packet and go to the scheduler.
-/

namespace Pspin

open Clocked

/-- The packet buffer has `2 ^ slotBits` slots in each ring and fits into the address space. -/
structure ClusterSchedulerParams where
  numCores : Nat
  numHersPerCluster : Nat
  slotBits : Nat
  clusterId : BitVec 6
  someCore : 0 < numCores
  someHer : 0 < numHersPerCluster
  addressable : slotBits ≤ 23

namespace ClusterSchedulerParams

variable (params : ClusterSchedulerParams)

instance : NeZero params.numCores := ⟨params.someCore.ne'⟩

abbrev CoreId := Fin params.numCores

/-- `L1_PKT_BUFF_SIZE` -/
def l1PktBuffSize : Nat := numRB * rbMemLength params.slotBits

def l1PktBaseAddr : BitVec 32 :=
  BitVec.ofNat 32 (l1ClusterBase + params.clusterId.toNat * l1ClusterMemSize + l1PktBuffOffset)

end ClusterSchedulerParams

inductive ClusterSchedulerState where
  | ready
  | waitDma
deriving DecidableEq, Repr

/-- The registers of `cluster_scheduler` and of the units in it. -/
structure ClusterScheduler (params : ClusterSchedulerParams) where
  stateQ : ClusterSchedulerState
  toPopQ : Nat
  dmaXferQ : TransfDescr32
  dmaRequestFifo : FifoV3 HpuHandlerTask params.numHersPerCluster
  herAlloc : ClusterRbShim params.slotBits
  hpuFeedbackRrArb : RrArbTree params.numCores

structure ClusterSchedulerIn (params : ClusterSchedulerParams) where
  taskValidI : Bool
  taskDescrI : HandlerTask
  feedbackReadyI : Bool
  dmaXferReadyI : Bool
  dmaRespI : Bool
  hpuTaskReadyI : params.CoreId → Bool
  hpuFeedbackValidI : params.CoreId → Bool
  hpuFeedbackI : params.CoreId → TaskFeedbackDescr

namespace ClusterScheduler

variable {params : ClusterSchedulerParams}

def reset : ClusterScheduler params where
  stateQ := .ready
  toPopQ := 0
  dmaXferQ := default
  dmaRequestFifo := FifoV3.reset params.someHer
  herAlloc := ClusterRbShim.reset
  hpuFeedbackRrArb := RrArbTree.reset

variable (cluster : ClusterScheduler params) (inp : ClusterSchedulerIn params)

/-! ## Feedbacks -/

def feedbackValidO : Bool := cluster.hpuFeedbackRrArb.reqO inp.hpuFeedbackValidI

def hpuFeedbackIdx : params.CoreId := cluster.hpuFeedbackRrArb.idxO inp.hpuFeedbackValidI

def hpuFeedbackArbI : TaskFeedbackDescr := inp.hpuFeedbackI (cluster.hpuFeedbackIdx inp)

def feedbackO : FeedbackDescr := (cluster.hpuFeedbackArbI inp).feedbackDescr

def hpuFeedbackReadyO (i : params.CoreId) : Bool :=
  cluster.hpuFeedbackRrArb.gntO inp.hpuFeedbackValidI inp.feedbackReadyI i

def feedbackPktIdx : Nat :=
  truncate (clog2 params.l1PktBuffSize)
    ((cluster.hpuFeedbackArbI inp).pktPtr - params.l1PktBaseAddr).toNat

/-! ## Accepting tasks -/

/-- A packet size as the allocator's ports take it. -/
def allocSize (params : ClusterSchedulerParams) (pktSize : MemSize) : Nat :=
  truncate (clog2 params.l1PktBuffSize + 1) pktSize.toNat

def pktBuffFreeSpace : Nat := cluster.herAlloc.freeSpaceO

def dmaReqFull : Bool := cluster.dmaRequestFifo.fullO

def taskReadyO : Bool :=
  decide (cluster.stateQ = .ready) && !cluster.dmaReqFull &&
    decide (cluster.pktBuffFreeSpace ≥ inp.taskDescrI.pktSize.toNat)

/-- `task_valid_i && task_ready_o` -/
def taskAccepted : Bool := inp.taskValidI && cluster.taskReadyO inp

def herAllocIn : ClusterRbIn where
  allocValidI := cluster.taskAccepted inp
  allocSizeI := allocSize params inp.taskDescrI.pktSize
  freeValidI := cluster.feedbackValidO inp && inp.feedbackReadyI
  freeIndexI := cluster.feedbackPktIdx inp
  freeSizeI := allocSize params (cluster.hpuFeedbackArbI inp).feedbackDescr.pktSize

def pktAllocReady : Bool := cluster.herAlloc.allocReadyO (cluster.herAllocIn inp)

def freePktIdx : Nat := cluster.herAlloc.allocIndexO (cluster.herAllocIn inp)

def l1PktPtr : BitVec 32 := params.l1PktBaseAddr + BitVec.ofNat 32 (cluster.freePktIdx inp)

def newTask : HpuHandlerTask where
  handlerTask := inp.taskDescrI
  pktPtr := cluster.l1PktPtr inp

/-! ## DMA transfers -/

def canIssueDma : Bool := cluster.taskAccepted inp && decide (inp.taskDescrI.pktSize ≠ 0)

/-- The transfer of a task's packet to its place in L1. -/
def dmaXferOf (task : HpuHandlerTask) : TransfDescr32 where
  numBytes := task.handlerTask.pktSize
  dstAddr := task.pktPtr
  srcAddr := task.handlerTask.pktAddr
  deburst := false
  decouple := true
  serialize := false

def dmaXfer : TransfDescr32 := dmaXferOf (cluster.newTask inp)

def dmaXferO : TransfDescr32 :=
  if cluster.stateQ = .ready then cluster.dmaXfer inp else cluster.dmaXferQ

def dmaXferValidO : Bool :=
  (decide (cluster.stateQ = .ready) && cluster.canIssueDma inp) ||
    decide (cluster.stateQ = .waitDma)

def stateD : ClusterSchedulerState :=
  match cluster.stateQ with
  | .ready =>
    if cluster.canIssueDma inp then (if inp.dmaXferReadyI then .ready else .waitDma) else .ready
  | .waitDma => if inp.dmaXferReadyI then .ready else .waitDma

/-! ## Dispatch -/

def readyTask : HpuHandlerTask := cluster.dmaRequestFifo.dataO

/-- The ready vector of the HPUs, read with zeros past its end. -/
def hpuReady (k : Nat) : Bool := RrArbTree.pad inp.hpuTaskReadyI k

def freeHpuIdx : Nat := lzcCnt params.numCores (hpuReady inp)

def noFreeHpu : Bool := lzcEmpty params.numCores (hpuReady inp)

def dmaReqPop : Bool :=
  !cluster.dmaRequestFifo.emptyO && !noFreeHpu inp &&
    (decide (cluster.toPopQ > 0) || decide (cluster.readyTask.handlerTask.pktSize = 0))

def dmaReqPopNz : Bool :=
  !cluster.dmaRequestFifo.emptyO && !noFreeHpu inp && decide (cluster.toPopQ > 0) &&
    decide (cluster.readyTask.handlerTask.pktSize > 0)

def hpuTaskValidO (i : params.CoreId) : Bool :=
  cluster.dmaReqPop inp && decide (i.val = freeHpuIdx inp)

def hpuTaskO : HpuHandlerTask := cluster.readyTask

/-- One bit more than an index of a task of the cluster. -/
def toPopWidth (params : ClusterSchedulerParams) : Nat := clog2 params.numHersPerCluster + 1

def toPopD : Nat :=
  match inp.dmaRespI, cluster.dmaReqPopNz inp with
  | true, false => increment (toPopWidth params) cluster.toPopQ
  | false, true => decrement (toPopWidth params) cluster.toPopQ
  | _, _ => cluster.toPopQ

/-- One clock edge. -/
def step : ClusterScheduler params where
  stateQ := cluster.stateD inp
  toPopQ := cluster.toPopD inp
  dmaXferQ := if cluster.stateQ = .ready then cluster.dmaXfer inp else cluster.dmaXferQ
  dmaRequestFifo := cluster.dmaRequestFifo.step (cluster.newTask inp) (cluster.taskAccepted inp)
    (cluster.dmaReqPop inp)
  herAlloc := cluster.herAlloc.step (cluster.herAllocIn inp)
  hpuFeedbackRrArb := cluster.hpuFeedbackRrArb.step inp.hpuFeedbackValidI inp.feedbackReadyI

end ClusterScheduler

def clusterScheduler (params : ClusterSchedulerParams) :
    Machine (ClusterScheduler params) (ClusterSchedulerIn params) where
  reset := ClusterScheduler.reset
  step := ClusterScheduler.step

end Pspin
