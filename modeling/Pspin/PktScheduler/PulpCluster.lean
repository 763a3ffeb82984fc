import Pspin.PktScheduler.ClusterScheduler
import Pspin.PktScheduler.HpuDriver

/-! # The scheduler of a cluster and its HPU drivers

The part of `pulp_cluster` that connects the cluster scheduler with one driver for
each core.  Cores, DMA engine and command unit are the environment: requests of the
cores, whether a core has DMA transfers pending, and commands and responses.
-/

namespace Pspin

open Clocked

structure PulpClusterParams extends ClusterSchedulerParams where
  idBits : Nat
  idBits_le : idBits ≤ 32

/-- The driver of a core. -/
def PulpClusterParams.hpu (params : PulpClusterParams) (i : params.CoreId) : HpuDriverParams where
  numCores := params.numCores
  coreId := i
  clusterId := params.clusterId
  idBits := params.idBits
  idBits_le := params.idBits_le

structure PulpCluster (params : PulpClusterParams) where
  clusterScheduler : ClusterScheduler params.toClusterSchedulerParams
  hpuDriver : (i : params.CoreId) → HpuDriver (params.hpu i)

structure PulpClusterIn (params : PulpClusterParams) where
  taskValidI : Bool
  taskDescrI : HandlerTask
  feedbackReadyI : Bool
  dmaXferReadyI : Bool
  dmaRespI : Bool
  hpuDriverBus : params.CoreId → XbarPeriphReq
  noReqPending : params.CoreId → Bool
  coreCmdReady : params.CoreId → Bool
  cmdRespValidI : Bool
  cmdRespI : PspinCmdResp params.numCores params.idBits

namespace PulpCluster

variable {params : PulpClusterParams}

def reset : PulpCluster params where
  clusterScheduler := ClusterScheduler.reset
  hpuDriver := fun _ => HpuDriver.reset

variable (cluster : PulpCluster params) (inp : PulpClusterIn params)

def hpuFeedbackValid (i : params.CoreId) : Bool :=
  (cluster.hpuDriver i).hpuFeedbackValidO (inp.noReqPending i)

def hpuFeedback (i : params.CoreId) : TaskFeedbackDescr := (cluster.hpuDriver i).hpuFeedbackO

def schedulerIn : ClusterSchedulerIn params.toClusterSchedulerParams where
  taskValidI := inp.taskValidI
  taskDescrI := inp.taskDescrI
  feedbackReadyI := inp.feedbackReadyI
  dmaXferReadyI := inp.dmaXferReadyI
  dmaRespI := inp.dmaRespI
  hpuTaskReadyI := fun i => (cluster.hpuDriver i).hpuTaskReadyO
  hpuFeedbackValidI := cluster.hpuFeedbackValid inp
  hpuFeedbackI := cluster.hpuFeedback

def hpuIn (i : params.CoreId) : HpuDriverIn (params.hpu i) where
  hpuTaskValidI := cluster.clusterScheduler.hpuTaskValidO (cluster.schedulerIn inp) i
  hpuTaskI := cluster.clusterScheduler.hpuTaskO
  hpuFeedbackReadyI := cluster.clusterScheduler.hpuFeedbackReadyO (cluster.schedulerIn inp) i
  hpuDriverSlaveI := inp.hpuDriverBus i
  noDmaReqPendingI := inp.noReqPending i
  cmdReadyI := inp.coreCmdReady i
  cmdRespValidI := inp.cmdRespValidI
  cmdRespI := inp.cmdRespI

/-- One clock edge. -/
def step : PulpCluster params where
  clusterScheduler := cluster.clusterScheduler.step (cluster.schedulerIn inp)
  hpuDriver := fun i => (cluster.hpuDriver i).step (cluster.hpuIn inp i)

end PulpCluster

def pulpCluster (params : PulpClusterParams) :
    Machine (PulpCluster params) (PulpClusterIn params) where
  reset := PulpCluster.reset
  step := PulpCluster.step

end Pspin
