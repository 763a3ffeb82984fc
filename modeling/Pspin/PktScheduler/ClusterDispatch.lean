import Pspin.Clocked.Flow
import Pspin.PktScheduler.ClusterScheduler

/-! # Execution order in a cluster

A history of the cluster records the tasks accepted with their place in L1, the
transfers the DMA engine took and completed, and the tasks the HPUs took.  Tasks
are dispatched in the order they were accepted and never ahead of their packet.
-/

namespace Pspin

open Clocked

/-- What crossed the interfaces of a cluster scheduler.  `refused` are the accepted
    tasks whose packet the allocator did not take, `running` the dispatched ones
    that were not answered yet. -/
structure ClusterHistory (params : ClusterSchedulerParams) where
  accepted : List HpuHandlerTask
  refused : List HpuHandlerTask
  dmas : List TransfDescr32
  resps : Nat
  dispatched : List (params.CoreId × HpuHandlerTask)
  running : List HpuHandlerTask

/-- A task with a packet to be copied. -/
def HpuHandlerTask.hasPacket (task : HpuHandlerTask) : Bool :=
  decide (task.handlerTask.pktSize ≠ 0)

/-- A feedback carries the place and size of the packet of its task. -/
def TaskFeedbackDescr.answers (feedback : TaskFeedbackDescr) (task : HpuHandlerTask) : Bool :=
  decide (task.pktPtr = feedback.pktPtr) &&
    decide (task.handlerTask.pktSize = feedback.feedbackDescr.pktSize)

namespace ClusterHistory

variable {params : ClusterSchedulerParams}

def empty : ClusterHistory params where
  accepted := []
  refused := []
  dmas := []
  resps := 0
  dispatched := []
  running := []

/-- The tasks the HPUs take in a cycle. -/
def dispatchedNow (cluster : ClusterScheduler params) (inp : ClusterSchedulerIn params) :
    List (params.CoreId × HpuHandlerTask) :=
  (List.finRange params.numCores).filterMap fun i =>
    if cluster.hpuTaskValidO inp i && inp.hpuTaskReadyI i then some (i, cluster.hpuTaskO) else none

def record (cluster : ClusterScheduler params) (history : ClusterHistory params)
    (inp : ClusterSchedulerIn params) : ClusterHistory params where
  accepted := history.accepted ++ if cluster.taskAccepted inp then [cluster.newTask inp] else []
  refused := history.refused ++
    if cluster.taskAccepted inp && (cluster.newTask inp).hasPacket && !cluster.pktAllocReady inp
    then [cluster.newTask inp] else []
  dmas := history.dmas ++
    if cluster.dmaXferValidO inp && inp.dmaXferReadyI then [cluster.dmaXferO inp] else []
  resps := history.resps + inp.dmaRespI.toNat
  dispatched := history.dispatched ++ dispatchedNow cluster inp
  running :=
    (if cluster.feedbackValidO inp && inp.feedbackReadyI
      then history.running.eraseP (cluster.hpuFeedbackArbI inp).answers else history.running) ++
    (dispatchedNow cluster inp).map Prod.snd

end ClusterHistory

abbrev ClusterTrace (params : ClusterSchedulerParams) :=
  ClusterScheduler params × ClusterHistory params

def clusterTrace (params : ClusterSchedulerParams) :
    Machine (ClusterTrace params) (ClusterSchedulerIn params) :=
  (clusterScheduler params).observedBy ClusterHistory.empty ClusterHistory.record

namespace ClusterTrace

open ClusterScheduler ClusterHistory

variable {params : ClusterSchedulerParams}

def step (trace : ClusterTrace params) (inp : ClusterSchedulerIn params) : ClusterTrace params :=
  (trace.1.step inp, record trace.1 trace.2 inp)

/-- The DMA engine completes only transfers it took. -/
def PermitsDma (trace : ClusterTrace params) (inp : ClusterSchedulerIn params) : Prop :=
  (trace.step inp).2.resps ≤ (trace.step inp).2.dmas.length

instance (trace : ClusterTrace params) (inp : ClusterSchedulerIn params) :
    Decidable (trace.PermitsDma inp) :=
  inferInstanceAs (Decidable ((trace.step inp).2.resps ≤ (trace.step inp).2.dmas.length))

/-- The transfer the DMA engine has not taken yet. -/
def pendingDma (trace : ClusterTrace params) : List TransfDescr32 :=
  match trace.1.stateQ with
  | .ready => []
  | .waitDma => [trace.1.dmaXferQ]

def withPacket (tasks : List HpuHandlerTask) : List HpuHandlerTask :=
  tasks.filter HpuHandlerTask.hasPacket

/-- Every accepted task has one transfer of its own if it has a packet, the tasks
    are dispatched in order, each to one HPU that was ready, those with packets
    after their transfer completed, and the counter of completed transfers is exact. -/
structure Dispatches (trace : ClusterTrace params) : Prop where
  transfers : Flows ((withPacket trace.2.accepted).map dmaXferOf) trace.2.dmas trace.pendingDma
  in_order : Flows trace.2.accepted (trace.2.dispatched.map Prod.snd)
    trace.1.dmaRequestFifo.contents
  copied : (withPacket (trace.2.dispatched.map Prod.snd)).map dmaXferOf <+:
    trace.2.dmas.take trace.2.resps
  counted : trace.1.toPopQ + (withPacket (trace.2.dispatched.map Prod.snd)).length =
    trace.2.resps
  counted_le : trace.1.toPopQ ≤ params.numHersPerCluster

/-- What the induction carries. -/
structure InOrder (trace : ClusterTrace params) : Prop where
  transfers : Flows ((withPacket trace.2.accepted).map dmaXferOf) trace.2.dmas trace.pendingDma
  in_order : Flows trace.2.accepted (trace.2.dispatched.map Prod.snd)
    trace.1.dmaRequestFifo.contents
  counted : trace.1.toPopQ + (withPacket (trace.2.dispatched.map Prod.snd)).length =
    trace.2.resps
  completed : trace.2.resps ≤ trace.2.dmas.length

theorem withPacket_append (first second : List HpuHandlerTask) :
    withPacket (first ++ second) = withPacket first ++ withPacket second := List.filter_append ..

/-- There are no more completed transfers to be dispatched than tasks waiting. -/
theorem InOrder.toPopQ_le {trace : ClusterTrace params} (ordered : InOrder trace) :
    trace.1.toPopQ ≤ (withPacket trace.1.dmaRequestFifo.contents).length ∧
      trace.1.toPopQ ≤ params.numHersPerCluster := by
  have issued := ordered.transfers.length
  have accepted : trace.2.accepted = trace.2.dispatched.map Prod.snd ++
    trace.1.dmaRequestFifo.contents := ordered.in_order
  have counted := ordered.counted
  have completed := ordered.completed
  rw [List.length_map, accepted, withPacket_append, List.length_append] at issued
  have waiting : (withPacket trace.1.dmaRequestFifo.contents).length ≤
      trace.1.dmaRequestFifo.contents.length := List.length_filter_le ..
  have capacity := trace.1.dmaRequestFifo.length_contents_le
  omega

/-- Completed transfers come first, so the tasks dispatched are among their owners. -/
theorem InOrder.dispatches {trace : ClusterTrace params} (ordered : InOrder trace) :
    Dispatches trace where
  transfers := ordered.transfers
  in_order := ordered.in_order
  copied := by
    have accepted : trace.2.accepted = trace.2.dispatched.map Prod.snd ++
      trace.1.dmaRequestFifo.contents := ordered.in_order
    have issued : (withPacket trace.2.accepted).map dmaXferOf =
      trace.2.dmas ++ trace.pendingDma := ordered.transfers
    rw [accepted, withPacket_append, List.map_append] at issued
    have counted := ordered.counted
    have few : ((withPacket (trace.2.dispatched.map Prod.snd)).map dmaXferOf).length ≤
        trace.2.resps := by
      rw [List.length_map]
      omega
    have first : (withPacket (trace.2.dispatched.map Prod.snd)).map dmaXferOf <+:
        trace.2.dmas ++ trace.pendingDma := ⟨_, issued⟩
    have taken : trace.2.dmas.take trace.2.resps <+: trace.2.dmas ++ trace.pendingDma :=
      (List.take_prefix _ _).trans (List.prefix_append _ _)
    -- both are prefixes of the transfers in order, and the owners are not more
    apply List.prefix_of_prefix_length_le first taken
    rw [List.length_take]
    have completed := ordered.completed
    omega
  counted := ordered.counted
  counted_le := ordered.toPopQ_le.2

section Step

variable {trace : ClusterTrace params} {inp : ClusterSchedulerIn params}

/-- A task that leaves the FIFO is taken by exactly one HPU, the first that is ready. -/
theorem dispatchedNow_map (cluster : ClusterScheduler params) :
    (dispatchedNow cluster inp).map Prod.snd =
      if cluster.dmaReqPop inp then [cluster.readyTask] else [] := by
  cases pops : cluster.dmaReqPop inp with
  | false => simp [dispatchedNow, hpuTaskValidO, pops]
  | true =>
    have free : noFreeHpu inp = false := by
      simp only [dmaReqPop, Bool.and_eq_true, Bool.not_eq_true'] at pops
      exact pops.1.2
    -- the leading-zero counter finds the first HPU that is ready
    obtain ⟨chosen, index, ready⟩ := RrArbTree.pad_eq_true.mp (lzcCnt_set free)
    replace index : freeHpuIdx inp = chosen := index
    rw [dispatchedNow, filterMap_eq_toList (List.nodup_finRange _) (List.mem_finRange chosen)]
    · have valid : cluster.hpuTaskValidO inp chosen = true := by
        simp [hpuTaskValidO, pops, index]
      simp [valid, ready, hpuTaskO]
    · intro i ne
      have other : i.val ≠ freeHpuIdx inp := by
        intro same
        exact ne (Fin.ext (same.trans index))
      simp [hpuTaskValidO, other]

theorem dispatched_step : (trace.step inp).2.dispatched.map Prod.snd =
    trace.2.dispatched.map Prod.snd ++
      if trace.1.dmaReqPop inp then [trace.1.readyTask] else [] := by
  rw [← dispatchedNow_map, ← List.map_append]
  rfl

theorem popped_eq (cluster : ClusterScheduler params) :
    (if cluster.dmaReqPop inp then [cluster.readyTask] else []) =
      if cluster.dmaReqPop inp then cluster.dmaRequestFifo.contents.head?.toList else [] := by
  split
  next pops =>
    have nonempty : cluster.dmaRequestFifo.contents ≠ [] := by
      rw [← FifoV3.emptyO_eq_false]
      simp only [dmaReqPop, Bool.and_eq_true, Bool.not_eq_true'] at pops
      exact pops.1.1
    obtain ⟨front, rest, holds⟩ := List.exists_cons_of_ne_nil nonempty
    simp [readyTask, FifoV3.dataO_eq_head holds, holds]
  next => rfl

/-- A task that is accepted finds room in the FIFO. -/
theorem contents_step : (trace.step inp).1.dmaRequestFifo.contents =
    (if trace.1.dmaReqPop inp then trace.1.dmaRequestFifo.contents.tail
      else trace.1.dmaRequestFifo.contents) ++
      if trace.1.taskAccepted inp then [trace.1.newTask inp] else [] := by
  have contents : (trace.step inp).1.dmaRequestFifo.contents = _ :=
    FifoV3.contents_step trace.1.dmaRequestFifo (trace.1.newTask inp) (trace.1.taskAccepted inp)
      (trace.1.dmaReqPop inp)
  have room : (trace.1.taskAccepted inp && !trace.1.dmaRequestFifo.fullO) =
      trace.1.taskAccepted inp := by
    cases full : trace.1.dmaRequestFifo.fullO <;>
      simp [taskAccepted, taskReadyO, dmaReqFull, full]
  rw [contents, room]

theorem in_order_step (ordered : InOrder trace) :
    Flows (trace.step inp).2.accepted ((trace.step inp).2.dispatched.map Prod.snd)
      (trace.step inp).1.dmaRequestFifo.contents := by
  have flows := ordered.in_order.step (trace.1.dmaReqPop inp)
    (if trace.1.taskAccepted inp then [trace.1.newTask inp] else [])
  rw [dispatched_step, contents_step, popped_eq]
  exact flows

theorem accepted_step : withPacket (trace.step inp).2.accepted =
    withPacket trace.2.accepted ++
      if trace.1.canIssueDma inp then [trace.1.newTask inp] else [] := by
  have accepted : (trace.step inp).2.accepted = trace.2.accepted ++
    if trace.1.taskAccepted inp then [trace.1.newTask inp] else [] := rfl
  rw [accepted, withPacket_append]
  congr 1
  have packet : (trace.1.newTask inp).hasPacket = decide (inp.taskDescrI.pktSize ≠ 0) := rfl
  rw [canIssueDma, ← packet]
  cases accepts : trace.1.taskAccepted inp <;> cases has : (trace.1.newTask inp).hasPacket <;>
    simp [withPacket, has]

theorem transfers_step (ordered : InOrder trace) (inp : ClusterSchedulerIn params) :
    Flows ((withPacket (trace.step inp).2.accepted).map dmaXferOf) (trace.step inp).2.dmas
      (trace.step inp).pendingDma := by
  have transfers : (withPacket trace.2.accepted).map dmaXferOf =
    trace.2.dmas ++ trace.pendingDma := ordered.transfers
  have dmas : (trace.step inp).2.dmas = trace.2.dmas ++
    if trace.1.dmaXferValidO inp && inp.dmaXferReadyI then [trace.1.dmaXferO inp] else [] := rfl
  have pending : (trace.step inp).pendingDma = match trace.1.stateD inp with
      | .ready => []
      | .waitDma => [if trace.1.stateQ = .ready then trace.1.dmaXfer inp else trace.1.dmaXferQ] := rfl
  rw [Flows, accepted_step, dmas, pending, List.map_append, transfers]
  -- a transfer is handed over at once or kept until it is taken
  cases state : trace.1.stateQ with
  | ready =>
    have none : trace.pendingDma = [] := by simp [pendingDma, state]
    cases issues : trace.1.canIssueDma inp <;> cases taken : inp.dmaXferReadyI <;>
      simp [dmaXferValidO, dmaXferO, dmaXfer, stateD, state, issues, taken, none]
  | waitDma =>
    have one : trace.pendingDma = [trace.1.dmaXferQ] := by simp [pendingDma, state]
    have quiet : trace.1.canIssueDma inp = false := by
      simp [canIssueDma, taskAccepted, taskReadyO, state]
    cases taken : inp.dmaXferReadyI <;>
      simp [dmaXferValidO, dmaXferO, stateD, state, quiet, taken, one]

theorem dmaReqPopNz_eq (cluster : ClusterScheduler params) :
    cluster.dmaReqPopNz inp = (cluster.dmaReqPop inp && cluster.readyTask.hasPacket) := by
  have positive : decide (cluster.readyTask.handlerTask.pktSize > 0) =
      cluster.readyTask.hasPacket := by
    simp [HpuHandlerTask.hasPacket, BitVec.pos_iff_ne_zero]
  have none : decide (cluster.readyTask.handlerTask.pktSize = 0) =
      !cluster.readyTask.hasPacket := by
    simp [HpuHandlerTask.hasPacket]
  rw [dmaReqPopNz, dmaReqPop, positive, none]
  cases cluster.readyTask.hasPacket <;> simp

theorem withPacket_dispatched_step :
    (withPacket ((trace.step inp).2.dispatched.map Prod.snd)).length =
      (withPacket (trace.2.dispatched.map Prod.snd)).length + (trace.1.dmaReqPopNz inp).toNat := by
  rw [dispatched_step, withPacket_append, List.length_append, dmaReqPopNz_eq]
  congr 1
  cases pops : trace.1.dmaReqPop inp <;> cases packet : trace.1.readyTask.hasPacket <;>
    simp [withPacket, packet]

/-- The counter goes up with completions and down with the packets dispatched. -/
theorem toPopD_eq (ordered : InOrder trace) (permits : trace.PermitsDma inp) :
    trace.1.toPopD inp + (trace.1.dmaReqPopNz inp).toNat =
      trace.1.toPopQ + inp.dmaRespI.toNat := by
  have bound := ordered.toPopQ_le.2
  have fits : params.numHersPerCluster < 2 ^ toPopWidth params :=
    lt_two_pow_clog2_succ params.someHer
  unfold toPopD
  cases resp : inp.dmaRespI <;> cases pops : trace.1.dmaReqPopNz inp <;>
    simp only [Bool.toNat_true, Bool.toNat_false]
  -- a packet is dispatched only when its transfer has completed
  · have positive : 0 < trace.1.toPopQ := by
      simp only [dmaReqPopNz, Bool.and_eq_true, decide_eq_true_eq] at pops
      exact pops.1.2
    rw [decrement_of_pos positive (lt_of_le_of_lt bound fits)]
    omega
  · -- the transfer that completes belongs to a task that is still in the FIFO
    have issued := (transfers_step ordered inp).length
    have accepted : (trace.step inp).2.accepted = (trace.step inp).2.dispatched.map Prod.snd ++
      (trace.step inp).1.dmaRequestFifo.contents := in_order_step ordered
    rw [List.length_map, accepted, withPacket_append, List.length_append,
      withPacket_dispatched_step, pops, Bool.toNat_false] at issued
    have waiting : (withPacket (trace.step inp).1.dmaRequestFifo.contents).length ≤
        (trace.step inp).1.dmaRequestFifo.contents.length := List.length_filter_le ..
    have capacity := (trace.step inp).1.dmaRequestFifo.length_contents_le
    have completed : (trace.step inp).2.resps ≤ (trace.step inp).2.dmas.length := permits
    have resps : (trace.step inp).2.resps = trace.2.resps + inp.dmaRespI.toNat := rfl
    rw [resp, Bool.toNat_true] at resps
    have counted := ordered.counted
    have room : trace.1.toPopQ + 1 ≤ params.numHersPerCluster := by omega
    rw [increment_of_lt (lt_of_le_of_lt room fits)]

theorem InOrder.step (ordered : InOrder trace) (permits : trace.PermitsDma inp) :
    InOrder (trace.step inp) where
  transfers := transfers_step ordered inp
  in_order := in_order_step ordered
  counted := by
    have counts := toPopD_eq ordered permits
    have before := ordered.counted
    have next : (trace.step inp).1.toPopQ = trace.1.toPopD inp := rfl
    have resps : (trace.step inp).2.resps = trace.2.resps + inp.dmaRespI.toNat := rfl
    rw [withPacket_dispatched_step, next, resps]
    omega
  completed := permits

end Step

theorem inOrder_reset : InOrder (clusterTrace params).reset where
  transfers := .nil
  in_order := .nil
  counted := rfl
  completed := Nat.le_refl _

/-- Execution order: in every run in which the DMA engine completes only what it was
    given, tasks with and without packets are copied and dispatched as accepted. -/
theorem clusterScheduler_dispatches (params : ClusterSchedulerParams)
    (inputs : List (ClusterSchedulerIn params))
    (permitted : (clusterTrace params).Admits PermitsDma inputs) :
    Dispatches ((clusterTrace params).run inputs) :=
  (permitted.invariant InOrder inOrder_reset
    fun _ _ ordered permits => ordered.step permits).dispatches

/-- A task with a packet and one without: the second waits behind the first. -/
theorem clusterScheduler_dispatches_mixed :
    let params : ClusterSchedulerParams := ⟨2, 2, 1, 0, by decide, by decide, by decide⟩
    let quiet : ClusterSchedulerIn params :=
      ⟨false, default, true, true, false, fun i => decide (i = 1), fun _ => false, fun _ => default⟩
    let task (size : MemSize) : HandlerTask := { (default : HandlerTask) with pktSize := size }
    let inputs := [{ quiet with taskValidI := true, taskDescrI := task 64 },
      { quiet with taskValidI := true, taskDescrI := task 0 }, { quiet with dmaRespI := true },
      quiet, quiet]
    let trace := (clusterTrace params).run inputs
    (trace.2.dispatched.map (fun entry => (entry.1, entry.2.handlerTask.pktSize)) =
        [(1, 64), (1, 0)] ∧ trace.2.dmas.length = 1) ∧ Dispatches trace :=
  ⟨by decide +kernel, clusterScheduler_dispatches _ _ (by decide +kernel)⟩

end ClusterTrace

end Pspin
