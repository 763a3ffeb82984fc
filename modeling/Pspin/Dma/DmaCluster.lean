import Pspin.Dma.BackendProgress
import Pspin.Dma.ClusterDma
import Pspin.PktScheduler.ClusterDispatch

/-! # A cluster with its DMA engine

`pulp_cluster` connects the cluster scheduler and the cores with the DMA frontend, and the frontend
contains the backend.  Here all these wires are closed: the transfers of packets go to the external port
of the frontend, its response tells the scheduler that a packet is there, and whatever the frontend
hands on goes to the backend.  What is left open is the bus, the cores and the two schedulers above.
-/

namespace Pspin

open Clocked

structure DmaClusterParams extends ClusterDmaParams where
  offsetWidth : Nat
  addrWidth : Nat
  offsetWidth_pos : 0 < offsetWidth
  offsetWidth_le : offsetWidth ≤ 7
  addrWidth_ge : 32 ≤ addrWidth
  axiAxReqDepth_pos : 0 < axiAxReqDepth
  tfReqFifoDepth_pos : 0 < tfReqFifoDepth

/-- The parameters `pulp_cluster_frontend` hands on. -/
def DmaClusterParams.backend (params : DmaClusterParams) : AxiDmaParams where
  offsetWidth := params.offsetWidth
  addrWidth := params.addrWidth
  axReqFifoDepth := params.axiAxReqDepth
  transFifoDepth := params.tfReqFifoDepth
  bufferDepth := PulpClusterFrontendParams.bufferDepth
  offsetWidth_pos := params.offsetWidth_pos
  offsetWidth_le := params.offsetWidth_le
  addrWidth_ge := params.addrWidth_ge
  axReqFifoDepth_pos := params.axiAxReqDepth_pos
  transFifoDepth_pos := params.tfReqFifoDepth_pos
  bufferDepth_pos := Nat.succ_pos _

/-- `proc_map_to_1D_burst` -/
def TransfDescr32.burstReq (descr : TransfDescr32) : BurstReq where
  id := 0
  src := descr.srcAddr.toNat
  dst := descr.dstAddr.toNat
  numBytes := descr.numBytes.toNat
  cacheSrc := 0
  cacheDst := 0
  burstSrc := burstIncr
  burstDst := burstIncr
  decoupleRw := descr.decouple
  deburst := descr.deburst
  serialize := descr.serialize

/-- Where a packet is put depends on nothing but its size. -/
theorem ClusterRbShim.allocIndexO_congr {slotBits : Nat} (shim : ClusterRbShim slotBits)
    {inp inp' : ClusterRbIn} (same : inp.allocSizeI = inp'.allocSizeI) :
    shim.allocIndexO inp = shim.allocIndexO inp' := by
  have ring : shim.selRbIdx inp = shim.selRbIdx inp' := by
    have space : shim.rbWithSpace inp = shim.rbWithSpace inp' :=
      funext fun i => by simp only [rbWithSpace, same]
    rw [selRbIdx, selRbIdx, space]
  have size (i : Fin numRB) : ClusterRb.pushSize (numSlots slotBits) (shim.rbIn inp i) =
      ClusterRb.pushSize (numSlots slotBits) (shim.rbIn inp' i) := by
    simp only [ClusterRb.pushSize, rbIn, same]
  simp only [allocIndexO, ClusterRb.allocIndexO, ClusterRb.pushIdx, ClusterRb.padding, ClusterRb.fit,
    ring, size]

theorem ClusterScheduler.newTask_congr {params : ClusterSchedulerParams} (cluster : ClusterScheduler params)
    {inp inp' : ClusterSchedulerIn params} (same : inp.taskDescrI = inp'.taskDescrI) :
    cluster.newTask inp = cluster.newTask inp' := by
  have size : (cluster.herAllocIn inp).allocSizeI = (cluster.herAllocIn inp').allocSizeI := by
    simp only [herAllocIn, same]
  rw [newTask, newTask, l1PktPtr, l1PktPtr, freePktIdx, freePktIdx,
    ClusterRbShim.allocIndexO_congr cluster.herAlloc size, same]

structure DmaCluster (params : DmaClusterParams) where
  system : ClusterDma params.toClusterDmaParams
  backend : AxiDmaBackend params.backend

/-- What the cores, the schedulers above and the bus drive. -/
structure DmaClusterIn (params : DmaClusterParams) where
  taskValidI : Bool
  taskDescrI : HandlerTask
  feedbackReadyI : Bool
  hpuDriverBus : params.CoreId → XbarPeriphReq
  coreCmdReady : params.CoreId → Bool
  cmdRespValidI : Bool
  cmdRespI : PspinCmdResp params.numCores params.idBits
  ctrlTarg : params.CoreId → DmaCtrlReq
  ctrlPeTarg : DmaCtrlReq
  axiDmaResI : AxiDmaRes

namespace DmaCluster

variable {params : DmaClusterParams}

def reset : DmaCluster params where
  system := ClusterDma.reset
  backend := AxiDmaBackend.reset

variable (cluster : DmaCluster params) (inp : DmaClusterIn params)

def scheduler : ClusterScheduler params.toClusterSchedulerParams :=
  cluster.system.cluster.clusterScheduler

def frontend : PulpClusterFrontend params.dma := cluster.system.frontend

/-- The cluster with what the DMA engine tells it; the status of the cores is driven by the frontend. -/
def pulpClusterIn (dmaXferReadyI dmaRespI : Bool) : PulpClusterIn params.toPulpClusterParams where
  taskValidI := inp.taskValidI
  taskDescrI := inp.taskDescrI
  feedbackReadyI := inp.feedbackReadyI
  dmaXferReadyI := dmaXferReadyI
  dmaRespI := dmaRespI
  hpuDriverBus := inp.hpuDriverBus
  noReqPending := fun _ => false
  coreCmdReady := inp.coreCmdReady
  cmdRespValidI := inp.cmdRespValidI
  cmdRespI := inp.cmdRespI

/-- What the scheduler decides before the DMA engine answers. -/
def offerIn : ClusterSchedulerIn params.toClusterSchedulerParams :=
  cluster.system.cluster.schedulerIn (pulpClusterIn inp false false)

def dmaIn : PulpClusterFrontendIn params.dma where
  ctrlTarg := inp.ctrlTarg
  ctrlPeTarg := inp.ctrlPeTarg
  dmaReqValidI := cluster.scheduler.dmaXferValidO (cluster.offerIn inp)
  dmaReqI := cluster.scheduler.dmaXferO (cluster.offerIn inp)
  beReadyArb := cluster.backend.readyO
  beIdle := cluster.backend.mover.dataMoverIdleO inp.axiDmaResI
  transComplete := cluster.backend.mover.transCompleteO inp.axiDmaResI

/-- The port of the cluster scheduler. -/
def extPort : params.dma.Port := Fin.last params.dma.numRegs

def clusterDmaIn : ClusterDmaIn params.toClusterDmaParams where
  cluster := pulpClusterIn inp (cluster.frontend.beReady (cluster.dmaIn inp) extPort)
    (cluster.frontend.dmaRspValidO (cluster.dmaIn inp))
  dma := cluster.dmaIn inp

def schedulerIn : ClusterSchedulerIn params.toClusterSchedulerParams :=
  cluster.system.cluster.schedulerIn (cluster.system.clusterIn (cluster.clusterDmaIn inp))

def backendIn : AxiDmaBackendIn where
  burstReqI := (cluster.frontend.transfDescrArb (cluster.dmaIn inp)).burstReq
  validI := cluster.frontend.beValidArb (cluster.dmaIn inp)
  axiDmaResI := inp.axiDmaResI

/-- One clock edge. -/
def step : DmaCluster params where
  system := cluster.system.step (cluster.clusterDmaIn inp)
  backend := cluster.backend.step (cluster.backendIn inp)

/-- What the scheduler offers does not depend on what the DMA engine answers. -/
theorem dmaXferValidO_eq : cluster.scheduler.dmaXferValidO (cluster.schedulerIn inp) =
    cluster.scheduler.dmaXferValidO (cluster.offerIn inp) := rfl

theorem dmaXferO_eq : cluster.scheduler.dmaXferO (cluster.schedulerIn inp) =
    cluster.scheduler.dmaXferO (cluster.offerIn inp) := by
  have same : (cluster.schedulerIn inp).taskDescrI = (cluster.offerIn inp).taskDescrI := rfl
  rw [ClusterScheduler.dmaXferO, ClusterScheduler.dmaXferO, ClusterScheduler.dmaXfer,
    ClusterScheduler.dmaXfer, ClusterScheduler.newTask_congr cluster.scheduler same]

end DmaCluster

def dmaCluster (params : DmaClusterParams) : Machine (DmaCluster params) (DmaClusterIn params) where
  reset := DmaCluster.reset
  step := DmaCluster.step

/-! ## What happened -/

/-- The histories of the units, and the transfers that the backend took, each with its port. -/
structure DmaClusterHistory (params : DmaClusterParams) where
  scheduler : ClusterHistory params.toClusterSchedulerParams
  system : ClusterDmaHistory params.toClusterDmaParams
  backend : AxiDmaHistory
  issued : List (params.dma.Port × BurstReq)

namespace DmaClusterHistory

variable {params : DmaClusterParams}

def empty : DmaClusterHistory params where
  scheduler := ClusterHistory.empty
  system := ClusterDmaHistory.empty
  backend := AxiDmaHistory.empty
  issued := []

def record (cluster : DmaCluster params) (history : DmaClusterHistory params)
    (inp : DmaClusterIn params) : DmaClusterHistory params where
  scheduler := ClusterHistory.record cluster.scheduler history.scheduler (cluster.schedulerIn inp)
  system := ClusterDmaHistory.record cluster.system history.system (cluster.clusterDmaIn inp)
  backend := AxiDmaHistory.record cluster.backend history.backend (cluster.backendIn inp)
  issued := history.issued ++ if cluster.backend.takes (cluster.backendIn inp) then
    [(cluster.frontend.peIdxArb (cluster.dmaIn inp), (cluster.backendIn inp).burstReqI)] else []

/-- The transfers that move something. -/
def moving (history : DmaClusterHistory params) : List (params.dma.Port × BurstReq) :=
  history.issued.filter fun entry => decide (entry.2.numBytes ≠ 0)

end DmaClusterHistory

abbrev DmaClusterTrace (params : DmaClusterParams) := DmaCluster params × DmaClusterHistory params

def dmaClusterTrace (params : DmaClusterParams) :
    Machine (DmaClusterTrace params) (DmaClusterIn params) :=
  (dmaCluster params).observedBy DmaClusterHistory.empty DmaClusterHistory.record

namespace DmaClusterTrace

variable {params : DmaClusterParams}

section

variable (trace : DmaClusterTrace params) (inp : DmaClusterIn params)

def step : DmaClusterTrace params := (trace.1.step inp, DmaClusterHistory.record trace.1 trace.2 inp)

/-! The units with their own histories. -/

def sched : ClusterTrace params.toClusterSchedulerParams := (trace.1.scheduler, trace.2.scheduler)

def sys : ClusterDmaTrace params.toClusterDmaParams := (trace.1.system, trace.2.system)

def dma : DmaTrace params.dma := trace.sys.dma

def back : AxiDmaTrace params.backend := (trace.1.backend, trace.2.backend)

/-- A core or the peripherals wait for a grant, and the bus keeps to its rules. -/
structure PermitsBus : Prop where
  waits : ∀ port, port ≠ DmaCluster.extPort → trace.1.frontend.rrArbTree.lockQ = true →
    trace.1.frontend.rrArbTree.reqQ port = true →
    PulpClusterFrontend.beValid (trace.1.dmaIn inp) port = true
  reads : inp.axiDmaResI.rValid = true →
    trace.back.2.arOpened trace.back.1 (trace.1.backendIn inp) ≠ []
  rLast : inp.axiDmaResI.rValid = true → inp.axiDmaResI.rLast = (trace.back.2.rBeat ==
    ((trace.back.2.arOpened trace.back.1 (trace.1.backendIn inp)).headD default).len)
  writes : trace.back.1.wGives (trace.1.backendIn inp) = true →
    trace.back.2.awOpened trace.back.1 (trace.1.backendIn inp) ≠ []
  answers : inp.axiDmaResI.bValid = true → trace.back.2.answering ≠ []
  room : trace.back.1.awPop (trace.1.backendIn inp) = true →
    (trace.back.2.answering ++ trace.back.2.awOpen).length < params.backend.lastQueueDepth

/-- Besides, a transfer is started only if fewer are outstanding than the frontend can remember. -/
structure Permits : Prop extends trace.PermitsBus inp where
  tracked : trace.1.frontend.issue (trace.1.dmaIn inp) = true →
    trace.dma.2.inProgress.length < params.dma.tfFifoDepth

instance : Decidable (trace.PermitsBus inp) :=
  decidable_of_iff ((∀ port : Fin (params.dma.numRegs + 1), port ≠ DmaCluster.extPort →
      trace.1.frontend.rrArbTree.lockQ = true → trace.1.frontend.rrArbTree.reqQ port = true →
      PulpClusterFrontend.beValid (trace.1.dmaIn inp) port = true) ∧
    (inp.axiDmaResI.rValid = true →
      trace.back.2.arOpened trace.back.1 (trace.1.backendIn inp) ≠ []) ∧
    (inp.axiDmaResI.rValid = true → inp.axiDmaResI.rLast = (trace.back.2.rBeat ==
      ((trace.back.2.arOpened trace.back.1 (trace.1.backendIn inp)).headD default).len)) ∧
    (trace.back.1.wGives (trace.1.backendIn inp) = true →
      trace.back.2.awOpened trace.back.1 (trace.1.backendIn inp) ≠ []) ∧
    (inp.axiDmaResI.bValid = true → trace.back.2.answering ≠ []) ∧
    (trace.back.1.awPop (trace.1.backendIn inp) = true →
      (trace.back.2.answering ++ trace.back.2.awOpen).length < params.backend.lastQueueDepth))
    ⟨fun h => ⟨h.1, h.2.1, h.2.2.1, h.2.2.2.1, h.2.2.2.2.1, h.2.2.2.2.2⟩,
      fun h => ⟨h.waits, h.reads, h.rLast, h.writes, h.answers, h.room⟩⟩

instance : Decidable (trace.Permits inp) :=
  decidable_of_iff (trace.PermitsBus inp ∧
    (trace.1.frontend.issue (trace.1.dmaIn inp) = true →
      trace.dma.2.inProgress.length < params.dma.tfFifoDepth))
    ⟨fun h => ⟨h.1, h.2⟩, fun h => ⟨h.toPermitsBus, h.tracked⟩⟩

end

end DmaClusterTrace

end Pspin
