import Pspin.Dma.Outstanding
import Pspin.PktScheduler.PulpCluster

/-! # Feedbacks wait for DMA transfers

`pulp_cluster` connects `no_req_pending_o` of the DMA frontend with the HPU drivers.
What the cluster scheduler and the frontend say to each other on the external port is
left open: any transfers of packets are allowed.
-/

namespace Pspin

open Clocked

structure ClusterDmaParams extends PulpClusterParams where
  axiAxReqDepth : Nat
  tfReqFifoDepth : Nat

/-- The parameters `dmac_wrap` hands on. -/
abbrev ClusterDmaParams.dma (params : ClusterDmaParams) : PulpClusterFrontendParams where
  numCores := params.numCores
  axiAxReqDepth := params.axiAxReqDepth
  tfReqFifoDepth := params.tfReqFifoDepth

structure ClusterDma (params : ClusterDmaParams) where
  cluster : PulpCluster params.toPulpClusterParams
  frontend : PulpClusterFrontend params.dma

/-- The inputs of both; `noReqPending` is driven by the frontend. -/
structure ClusterDmaIn (params : ClusterDmaParams) where
  cluster : PulpClusterIn params.toPulpClusterParams
  dma : PulpClusterFrontendIn params.dma

namespace ClusterDma

variable {params : ClusterDmaParams}

def reset : ClusterDma params where
  cluster := PulpCluster.reset
  frontend := PulpClusterFrontend.reset

variable (system : ClusterDma params) (inp : ClusterDmaIn params)

def clusterIn : PulpClusterIn params.toPulpClusterParams :=
  { inp.cluster with noReqPending := system.frontend.noReqPendingO inp.dma }

/-- The cluster scheduler sends a feedback, and frees its packet. -/
def feedbackValidO : Bool :=
  system.cluster.clusterScheduler.feedbackValidO (system.cluster.schedulerIn (system.clusterIn inp))

/-- The core whose feedback is sent. -/
def feedbackIdx : params.CoreId :=
  system.cluster.clusterScheduler.hpuFeedbackIdx (system.cluster.schedulerIn (system.clusterIn inp))

def driver (i : params.CoreId) : HpuDriver (params.hpu i) := system.cluster.hpuDriver i

def driverIn (i : params.CoreId) : HpuDriverIn (params.hpu i) :=
  system.cluster.hpuIn (system.clusterIn inp) i

/-- One clock edge. -/
def step : ClusterDma params where
  cluster := system.cluster.step (system.clusterIn inp)
  frontend := system.frontend.step inp.dma

end ClusterDma

def clusterDma (params : ClusterDmaParams) : Machine (ClusterDma params) (ClusterDmaIn params) where
  reset := ClusterDma.reset
  step := ClusterDma.step

/-- The transfers, and for the feedbacks in the buffer of a core how many transfers had
    been started when their handler ended. -/
structure ClusterDmaHistory (params : ClusterDmaParams) where
  dma : DmaHistory params.dma
  handlerEnds : params.CoreId → List Nat

namespace ClusterDmaHistory

variable {params : ClusterDmaParams}

def empty : ClusterDmaHistory params where
  dma := DmaHistory.empty
  handlerEnds := fun _ => []

def record (system : ClusterDma params) (history : ClusterDmaHistory params)
    (inp : ClusterDmaIn params) : ClusterDmaHistory params where
  dma := DmaHistory.record system.frontend history.dma inp.dma
  handlerEnds := fun i =>
    (if (system.driver i).feedbackTaken (system.driverIn inp i) then (history.handlerEnds i).tail
      else history.handlerEnds i) ++
    if (system.driver i).feedbackPushed (system.driverIn inp i)
    then [(DmaHistory.record system.frontend history.dma inp.dma).started.length] else []

end ClusterDmaHistory

abbrev ClusterDmaTrace (params : ClusterDmaParams) :=
  ClusterDma params × ClusterDmaHistory params

def clusterDmaTrace (params : ClusterDmaParams) :
    Machine (ClusterDmaTrace params) (ClusterDmaIn params) :=
  (clusterDma params).observedBy ClusterDmaHistory.empty ClusterDmaHistory.record

namespace ClusterDmaTrace

variable {params : ClusterDmaParams}

def step (trace : ClusterDmaTrace params) (inp : ClusterDmaIn params) : ClusterDmaTrace params :=
  (trace.1.step inp, ClusterDmaHistory.record trace.1 trace.2 inp)

/-- The part of the DMA frontend. -/
def dma (trace : ClusterDmaTrace params) : DmaTrace params.dma := (trace.1.frontend, trace.2.dma)

def Permits (trace : ClusterDmaTrace params) (inp : ClusterDmaIn params) : Prop :=
  trace.dma.Permits inp.dma

instance (trace : ClusterDmaTrace params) (inp : ClusterDmaIn params) :
    Decidable (trace.Permits inp) :=
  inferInstanceAs (Decidable (trace.dma.Permits inp.dma))

/-- Nothing of a handler is outstanding: the transfers its core had started when it ended. -/
def Done (history : DmaHistory params.dma) (ends : params.CoreId → List Nat) (i : params.CoreId) :
    Prop :=
  ∃ count rest, ends i = count :: rest ∧ history.outstandingOf count i = 0

/-- A core is told that no transfer is pending only if it has none outstanding, and a
    feedback is sent only when no transfer of its handler is. -/
structure Waits (trace : ClusterDmaTrace params) (inp : ClusterDmaIn params) : Prop where
  pending : ∀ i, trace.1.frontend.noReqPendingO inp.dma i = true →
    (trace.step inp).2.dma.outstanding i = 0
  feedback : trace.1.feedbackValidO inp = true →
    Done (trace.step inp).2.dma trace.2.handlerEnds (trace.1.feedbackIdx inp)

/-- No core has as many transfers outstanding as its counter has values. -/
def Few (trace : ClusterDmaTrace params) (inp : ClusterDmaIn params) : Prop :=
  ∀ i, (trace.step inp).2.dma.outstanding i < 2 ^ params.dma.maxReqWidth

instance (trace : ClusterDmaTrace params) (inp : ClusterDmaIn params) :
    Decidable (trace.Few inp) :=
  inferInstanceAs (Decidable (∀ _ : Fin params.numCores, _ < _))

/-- A driver with a feedback whose handler's transfers are complete. -/
def settled (history : DmaHistory params.dma) (ends : params.CoreId → List Nat)
    (i : params.CoreId) : Bool :=
  match ends i with
  | [] => false
  | count :: _ => decide (history.outstandingOf count i = 0)

theorem settled_eq_true {history : DmaHistory params.dma} {ends : params.CoreId → List Nat}
    {i : params.CoreId} : settled history ends i = true ↔ Done history ends i := by
  rw [settled, Done]
  cases ends i with
  | nil => simp
  | cons count rest => simp

/-- The invariant: besides, the arbiter is locked on feedbacks that are settled. -/
structure Inv (trace : ClusterDmaTrace params) : Prop where
  dma : trace.dma.Inv
  few : ∀ i, trace.2.dma.outstanding i < 2 ^ params.dma.maxReqWidth
  buffered : ∀ i, (trace.2.handlerEnds i).length =
    (trace.1.driver i).taskFrontend.feedbackBuff.contents.length
  ended : ∀ i, ∀ count ∈ trace.2.handlerEnds i, count ≤ trace.2.dma.started.length
  latched : trace.1.cluster.clusterScheduler.hpuFeedbackRrArb.Latched
    (settled trace.2.dma trace.2.handlerEnds)

theorem Inv.reset : Inv (clusterDmaTrace params).reset where
  dma := DmaTrace.Inv.reset
  few _ := Nat.two_pow_pos _
  buffered _ := rfl
  ended _ _ member := by cases member
  latched := .reset _

namespace Inv

variable {trace : ClusterDmaTrace params} {inp : ClusterDmaIn params}

theorem handlerEnds_step (i : params.CoreId) : (trace.step inp).2.handlerEnds i =
    (if (trace.1.driver i).feedbackTaken (trace.1.driverIn inp i)
      then (trace.2.handlerEnds i).tail else trace.2.handlerEnds i) ++
    if (trace.1.driver i).feedbackPushed (trace.1.driverIn inp i)
      then [(trace.step inp).2.dma.started.length] else [] := rfl

/-- What completes in a cycle settles more feedbacks. -/
theorem latched_now (inv : trace.Inv) (inp : ClusterDmaIn params) :
    trace.1.cluster.clusterScheduler.hpuFeedbackRrArb.Latched
    (settled (trace.step inp).2.dma trace.2.handlerEnds) := by
  refine inv.latched.mono fun i waits => ?_
  obtain ⟨count, rest, front, none⟩ := settled_eq_true.mp waits
  refine settled_eq_true.mpr ⟨count, rest, front, Nat.eq_zero_of_le_zero ?_⟩
  have inside := inv.ended i count (front ▸ List.mem_cons_self)
  exact none ▸ DmaHistory.outstandingOf_record_le inside i

section

variable (inv : trace.Inv) (permits : trace.Permits inp)

include inv permits

/-- A core's status is right while its counter does not wrap. -/
theorem pending_of_few (few : trace.Few inp) {i : params.CoreId}
    (shown : trace.1.frontend.noReqPendingO inp.dma i = true) :
    (trace.step inp).2.dma.outstanding i = 0 :=
  Nat.eq_zero_of_dvd_of_lt ((inv.dma.noReqPendingO_iff permits i).mp shown) (few i)

/-- A counter wraps at the first transfer it cannot count. -/
theorem few_of_pending
    (pending : ∀ i, trace.1.frontend.noReqPendingO inp.dma i = true →
      (trace.step inp).2.dma.outstanding i = 0) : trace.Few inp := by
  intro i
  have before := inv.few i
  have next : (trace.step inp).2.dma.outstanding i = _ := inv.dma.outstanding_step permits i
  have atMostOne := Bool.toNat_le (trace.1.frontend.coreStarts inp.dma i)
  by_contra wraps
  have full : (trace.step inp).2.dma.outstanding i = 2 ^ params.dma.maxReqWidth := by
    have old : trace.dma.2.outstanding i = trace.2.dma.outstanding i := rfl
    have starts : (trace.dma.1.coreStarts inp.dma i).toNat ≤ 1 := atMostOne
    omega
  have shown := (inv.dma.noReqPendingO_iff permits i).mpr
    (Dvd.intro 1 (by rw [Nat.mul_one]; exact full.symm))
  have positive := Nat.two_pow_pos params.dma.maxReqWidth
  have none := pending i shown
  omega

/-- A feedback that shows is settled. -/
theorem settled_of_valid (few : trace.Few inp) (i : params.CoreId)
    (valid : trace.1.cluster.hpuFeedbackValid (trace.1.clusterIn inp) i = true) :
    settled (trace.step inp).2.dma trace.2.handlerEnds i = true := by
  obtain ⟨shown, -, notEmpty⟩ := (HpuDriver.hpuFeedbackValidO_eq_true _).mp valid
  have some : trace.2.handlerEnds i ≠ [] := by
    have length := inv.buffered i
    have held := List.length_pos_of_ne_nil (FifoV3.emptyO_eq_false.mp notEmpty)
    exact List.ne_nil_of_length_pos (length ▸ held)
  obtain ⟨count, rest, front⟩ := List.exists_cons_of_ne_nil some
  have none := inv.pending_of_few permits few shown
  have atMost : (trace.step inp).2.dma.outstandingOf count i ≤ (trace.step inp).2.dma.outstanding i :=
    DmaHistory.outstandingOf_le (trace.step inp).2.dma count i
  exact settled_eq_true.mpr ⟨count, rest, front, by omega⟩

/-- The feedback that is sent is settled. -/
theorem waits_of_few (few : trace.Few inp) : trace.Waits inp where
  pending _ shown := inv.pending_of_few permits few shown
  feedback sent := settled_eq_true.mp ((inv.latched_now inp).wants_of_reqD
    (inv.settled_of_valid permits few) (RrArbTree.reqD_idxO sent))

theorem waits_iff : trace.Waits inp ↔ trace.Few inp :=
  ⟨fun waits => inv.few_of_pending permits waits.pending, inv.waits_of_few permits⟩

theorem step (few : trace.Few inp) : (trace.step inp).Inv where
  dma := inv.dma.step permits
  few := few
  buffered i := by
    have contents : ((trace.step inp).1.driver i).taskFrontend.feedbackBuff.contents = _ :=
      (trace.1.driver i).feedbackBuff_step (trace.1.driverIn inp i)
    have length := inv.buffered i
    rw [contents, handlerEnds_step, List.length_append, List.length_append]
    congr 1
    · split
      · rw [List.length_tail, List.length_tail, length]
      · exact length
    · split <;> rfl
  ended i count member := by
    have more : (trace.step inp).2.dma.started.length = _ := List.length_append
    have before : count ∈ trace.2.handlerEnds i → count ≤ trace.2.dma.started.length :=
      inv.ended i count
    rw [handlerEnds_step, List.mem_append] at member
    obtain old | new := member
    · split at old
      · have := before (List.mem_of_mem_tail old)
        omega
      · have := before old
        omega
    · split at new
      · exact Nat.le_of_eq (List.mem_singleton.mp new)
      · cases new
  latched := by
    refine (inv.latched_now inp).step (inv.settled_of_valid permits few) fun refused i waits => ?_
    obtain ⟨count, rest, front, none⟩ := settled_eq_true.mp waits
    -- a feedback that was refused stays at the front of its buffer
    have stays : (trace.1.driver i).feedbackTaken (trace.1.driverIn inp i) = false := by
      have ready : (trace.1.driverIn inp i).hpuFeedbackReadyI = false := by
        show RrArbTree.gntO _ _ inp.cluster.feedbackReadyI i = false
        rw [RrArbTree.gntO, show inp.cluster.feedbackReadyI = false from refused, Bool.false_and]
      rw [HpuDriver.feedbackTaken, ready, Bool.false_and]
    have next : (trace.step inp).2.handlerEnds i = _ := handlerEnds_step i
    rw [stays, if_neg Bool.false_ne_true, front, List.cons_append] at next
    exact settled_eq_true.mpr ⟨count, _, next, none⟩

end

end Inv

/-- Feedbacks wait for DMA transfers in exactly the runs in which no core has as many of
    them outstanding as its counter has values. -/
theorem clusterDma_waits (params : ClusterDmaParams) (inputs : List (ClusterDmaIn params))
    (permitted : (clusterDmaTrace params).Admits Permits inputs) :
    (clusterDmaTrace params).Admits Waits inputs ↔ (clusterDmaTrace params).Admits Few inputs :=
  permitted.congr Inv Inv.reset (fun _ _ inv permits => inv.waits_iff permits)
    fun _ _ inv permits few => inv.step permits few

/-- A cycle without requests. -/
def quiet (params : ClusterDmaParams) : ClusterDmaIn params :=
  ⟨⟨false, default, true, true, false, fun _ => default, fun _ => true, fun _ => true, false,
    default⟩, ⟨fun _ => default, default, false, default, true, false, false⟩⟩

/-- The first core runs a handler that starts the given number of transfers, and ends it. -/
def transfersRun (params : ClusterDmaParams) (transfers : Nat) : List (ClusterDmaIn params) :=
  let bus (inp : ClusterDmaIn params) (add : BitVec 32) : ClusterDmaIn params :=
    { inp with cluster.hpuDriverBus := fun i => ⟨decide (i.val = 0), add, true, 0⟩ }
  let ctrl (ctrlType : Bool) (add data : BitVec 32) : ClusterDmaIn params :=
    { quiet params with
      dma.ctrlTarg := fun i => ⟨decide (i.val = 0), ctrlType, 15, add, data⟩ }
  let task : HandlerTask := { (default : HandlerTask) with handlerFun := 64 }
  let wakes := bus (ctrl false 0x10 64) 0
  [{ wakes with cluster.taskValidI := true, cluster.taskDescrI := task }, quiet params] ++
    List.replicate transfers (ctrl true 0x18 0) ++ [bus (quiet params) 0x50]

/-- A feedback waits for the two transfers of its handler. -/
theorem clusterDma_waits_completed :
    let params : ClusterDmaParams :=
      ⟨⟨⟨2, 4, 2, 0, by decide, by decide, by decide⟩, 2, by decide⟩, 12, 12⟩
    let completes := { quiet params with dma.transComplete := true }
    let inputs := transfersRun params 2 ++ [quiet params, completes, completes]
    let trace := (clusterDmaTrace params).run inputs
    (trace.2.dma.completed = 2 ∧ trace.2.handlerEnds 0 = []) ∧
      (clusterDmaTrace params).Admits Waits inputs :=
  ⟨by decide +kernel, (clusterDma_waits _ _ (by decide +kernel)).mpr (by decide +kernel)⟩

/-- At the deployed sizes: a handler starts 16 transfers and its feedback is sent while
    all of them are outstanding. -/
theorem clusterDma_sends_early :
    let params : ClusterDmaParams :=
      ⟨⟨⟨8, 20, 8, 0, by decide, by decide, by decide⟩, 2, by decide⟩, 12, 12⟩
    let inputs := transfersRun params 16
    let trace := (clusterDmaTrace params).run inputs
    (clusterDmaTrace params).Admits Permits (inputs ++ [quiet params]) ∧
      trace.1.feedbackValidO (quiet params) = true ∧ trace.1.feedbackIdx (quiet params) = 0 ∧
      (trace.step (quiet params)).2.dma.outstanding 0 = 16 ∧ ¬trace.Waits (quiet params) := by
  intro params inputs trace
  have outstanding : (trace.step (quiet params)).2.dma.outstanding 0 = 16 := by decide +kernel
  have shown : trace.1.frontend.noReqPendingO (quiet params).dma 0 = true := by decide +kernel
  refine ⟨by decide +kernel, by decide +kernel, by decide +kernel, outstanding, fun waits => ?_⟩
  have none := waits.pending 0 shown
  rw [outstanding] at none
  cases none

end ClusterDmaTrace

end Pspin
