import Pspin.Clocked.Flow
import Pspin.PktScheduler.PulpCluster

/-! # Feedbacks of a cluster

A feedback in the buffer of a driver wants a grant until it is taken, but shows it
only while its core has no DMA transfers.  The arbiter is locked on the feedbacks it
saw; if it is granted while the one it chose does not show, the feedback is forwarded
and stays in its buffer.  In every other run each feedback crosses exactly once.
-/

namespace Pspin

open Clocked

/-- The feedbacks each driver buffered, and those the scheduler took with the space that
    was freed for them. -/
structure FeedbackHistory (params : PulpClusterParams) where
  pushed : params.CoreId → List TaskFeedbackDescr
  forwarded : List (params.CoreId × TaskFeedbackDescr)
  freed : List (Nat × Nat)

/-- Place and size of the packet of a feedback, as the allocator is told. -/
def freeOf (params : ClusterSchedulerParams) (feedback : TaskFeedbackDescr) : Nat × Nat :=
  (truncate (clog2 params.l1PktBuffSize) (feedback.pktPtr - params.l1PktBaseAddr).toNat,
    ClusterScheduler.allocSize params feedback.feedbackDescr.pktSize)

namespace FeedbackHistory

open PulpCluster

variable {params : PulpClusterParams}

def empty : FeedbackHistory params where
  pushed := fun _ => []
  forwarded := []
  freed := []

/-- The cluster scheduler forwards a feedback. -/
def forwards (cluster : PulpCluster params) (inp : PulpClusterIn params) : Bool :=
  cluster.clusterScheduler.feedbackValidO (cluster.schedulerIn inp) && inp.feedbackReadyI

def record (cluster : PulpCluster params) (history : FeedbackHistory params)
    (inp : PulpClusterIn params) : FeedbackHistory params where
  pushed := fun i => history.pushed i ++
    if (cluster.hpuDriver i).feedbackPushed (cluster.hpuIn inp i)
    then [(cluster.hpuDriver i).taskFrontend.hpuFeedback] else []
  forwarded := history.forwarded ++
    if forwards cluster inp then
      [(cluster.clusterScheduler.hpuFeedbackIdx (cluster.schedulerIn inp),
        cluster.clusterScheduler.hpuFeedbackArbI (cluster.schedulerIn inp))]
    else []
  freed := history.freed ++
    if (cluster.clusterScheduler.herAllocIn (cluster.schedulerIn inp)).freeValidI then
      [((cluster.clusterScheduler.herAllocIn (cluster.schedulerIn inp)).freeIndexI,
        (cluster.clusterScheduler.herAllocIn (cluster.schedulerIn inp)).freeSizeI)]
    else []

end FeedbackHistory

abbrev FeedbackTrace (params : PulpClusterParams) := PulpCluster params × FeedbackHistory params

def feedbackTrace (params : PulpClusterParams) :
    Machine (FeedbackTrace params) (PulpClusterIn params) :=
  (pulpCluster params).observedBy FeedbackHistory.empty FeedbackHistory.record

namespace FeedbackTrace

open PulpCluster FeedbackHistory

variable {params : PulpClusterParams}

def step (trace : FeedbackTrace params) (inp : PulpClusterIn params) : FeedbackTrace params :=
  (trace.1.step inp, record trace.1 trace.2 inp)

def arb (trace : FeedbackTrace params) : RrArbTree params.numCores :=
  trace.1.clusterScheduler.hpuFeedbackRrArb

/-- When a locked arbiter is granted, the core it is locked on has no DMA transfers; a
    single core needs no arbiter. -/
def ShowsWhenGranted (trace : FeedbackTrace params) (inp : PulpClusterIn params) : Prop :=
  params.numCores ≠ 1 → trace.arb.lockQ = true → inp.feedbackReadyI = true →
    inp.noReqPending (trace.1.clusterScheduler.hpuFeedbackIdx (trace.1.schedulerIn inp)) = true

instance (trace : FeedbackTrace params) (inp : PulpClusterIn params) :
    Decidable (trace.ShowsWhenGranted inp) :=
  inferInstanceAs (Decidable (_ → _ → _ → _))

/-- The feedbacks of a core that were forwarded. -/
def forwardedOf (forwarded : List (params.CoreId × TaskFeedbackDescr)) (i : params.CoreId) :
    List TaskFeedbackDescr :=
  (forwarded.filter fun entry => decide (entry.1 = i)).map Prod.snd

def buffered (trace : FeedbackTrace params) (i : params.CoreId) : List TaskFeedbackDescr :=
  (trace.1.hpuDriver i).taskFrontend.feedbackBuff.contents

/-- Every buffered feedback is forwarded once and in order or is in the buffer still;
    with each forwarded one its space is freed; one that shows makes the output valid. -/
structure CrossesOnce (trace : FeedbackTrace params) : Prop where
  once : ∀ i, Flows (trace.2.pushed i) (forwardedOf trace.2.forwarded i) (trace.buffered i)
  freed : trace.2.freed =
    trace.2.forwarded.map fun entry => freeOf params.toClusterSchedulerParams entry.2
  offered : ∀ inp i, trace.1.hpuFeedbackValid inp i = true →
    trace.1.clusterScheduler.feedbackValidO (trace.1.schedulerIn inp) = true

/-- A driver with a feedback that no command holds back. -/
def wants (trace : FeedbackTrace params) (i : params.CoreId) : Bool :=
  !(trace.1.hpuDriver i).taskFrontend.feedbackBuffEmpty &&
    (trace.1.hpuDriver i).cmdFrontend.noPendingCmdO

/-- What the induction carries. -/
structure Waiting (trace : FeedbackTrace params) : Prop where
  once : ∀ i, Flows (trace.2.pushed i) (forwardedOf trace.2.forwarded i) (trace.buffered i)
  freed : trace.2.freed =
    trace.2.forwarded.map fun entry => freeOf params.toClusterSchedulerParams entry.2
  latched : trace.arb.Latched trace.wants

theorem waiting_reset : Waiting (feedbackTrace params).reset where
  once _ := .nil
  freed := rfl
  latched := .reset _

theorem Waiting.crossesOnce {trace : FeedbackTrace params} (waiting : Waiting trace) :
    CrossesOnce trace where
  once := waiting.once
  freed := waiting.freed
  offered _ _ valid := waiting.latched.reqO_of_reqI valid

section Step

variable {trace : FeedbackTrace params} {inp : PulpClusterIn params}

theorem hpuFeedbackValid_eq (trace : FeedbackTrace params) (inp : PulpClusterIn params)
    (i : params.CoreId) :
    trace.1.hpuFeedbackValid inp i = (inp.noReqPending i && trace.wants i) := by
  rw [Bool.eq_iff_iff, hpuFeedbackValid, HpuDriver.hpuFeedbackValidO_eq_true, wants]
  simp only [Bool.and_eq_true, Bool.not_eq_true']
  tauto

theorem wants_of_valid (i : params.CoreId) (valid : trace.1.hpuFeedbackValid inp i = true) :
    trace.wants i = true := by
  rw [hpuFeedbackValid_eq, Bool.and_eq_true] at valid
  exact valid.2

/-- The driver the arbiter chose shows its feedback when the arbiter is granted. -/
theorem chosen_valid (waiting : Waiting trace) (showing : trace.ShowsWhenGranted inp)
    (requested : trace.arb.reqO (trace.1.hpuFeedbackValid inp) = true)
    (ready : inp.feedbackReadyI = true) :
    trace.1.hpuFeedbackValid inp (trace.arb.idxO (trace.1.hpuFeedbackValid inp)) = true := by
  have chosen := RrArbTree.reqD_idxO requested
  have wanted := waiting.latched.wants_of_reqD wants_of_valid chosen
  -- a locked arbiter keeps its choice, whether or not the driver still shows it
  by_cases locked : params.numCores ≠ 1 ∧ trace.arb.lockQ = true
  · rw [hpuFeedbackValid_eq, wanted, Bool.and_true]
    exact showing locked.1 locked.2 ready
  · have present : trace.arb.reqD (trace.1.hpuFeedbackValid inp) = trace.1.hpuFeedbackValid inp := by
      unfold RrArbTree.reqD
      split_ifs with single lock
      · rfl
      · exact absurd ⟨single, lock⟩ locked
      · rfl
    rwa [present] at chosen

/-- A driver's feedback is taken exactly when the scheduler forwards it. -/
theorem taken_eq (waiting : Waiting trace) (showing : trace.ShowsWhenGranted inp)
    (i : params.CoreId) :
    (trace.1.hpuDriver i).feedbackTaken (trace.1.hpuIn inp i) = (forwards trace.1 inp &&
      decide (trace.1.clusterScheduler.hpuFeedbackIdx (trace.1.schedulerIn inp) = i)) := by
  have granted := waiting.latched.granted_eq_of_chosen (chosen_valid waiting showing) i
  rw [Bool.and_comm] at granted
  exact granted

theorem forwardedOf_append (first second : List (params.CoreId × TaskFeedbackDescr))
    (i : params.CoreId) :
    forwardedOf (first ++ second) i = forwardedOf first i ++ forwardedOf second i := by
  rw [forwardedOf, List.filter_append, List.map_append]
  rfl

theorem forwardedOf_step (waiting : Waiting trace) (showing : trace.ShowsWhenGranted inp)
    (i : params.CoreId) :
    forwardedOf (trace.step inp).2.forwarded i = forwardedOf trace.2.forwarded i ++
      if (trace.1.hpuDriver i).feedbackTaken (trace.1.hpuIn inp i)
      then (trace.buffered i).head?.toList else [] := by
  have forwarded : (trace.step inp).2.forwarded = trace.2.forwarded ++
    if forwards trace.1 inp then
      [(trace.1.clusterScheduler.hpuFeedbackIdx (trace.1.schedulerIn inp),
        trace.1.clusterScheduler.hpuFeedbackArbI (trace.1.schedulerIn inp))]
    else [] := rfl
  rw [forwarded, forwardedOf_append]
  congr 1
  cases taken : (trace.1.hpuDriver i).feedbackTaken (trace.1.hpuIn inp i) with
  | false =>
    rw [taken_eq waiting showing] at taken
    cases forwarding : forwards trace.1 inp with
    | false => rfl
    | true =>
      rw [forwarding, Bool.true_and] at taken
      simp [forwardedOf, taken]
  | true =>
    -- the feedback on the port is the oldest in the buffer
    obtain ⟨rest, front⟩ := (trace.1.hpuDriver i).taken_front (Bool.and_eq_true_iff.mp taken).2
    rw [taken_eq waiting showing, Bool.and_eq_true, decide_eq_true_eq] at taken
    have data : trace.1.clusterScheduler.hpuFeedbackArbI (trace.1.schedulerIn inp) =
      trace.1.hpuFeedback (trace.1.clusterScheduler.hpuFeedbackIdx (trace.1.schedulerIn inp)) := rfl
    rw [buffered, front, taken.1, data, taken.2]
    simp [forwardedOf, hpuFeedback]

theorem once_step (waiting : Waiting trace) (showing : trace.ShowsWhenGranted inp)
    (i : params.CoreId) :
    Flows ((trace.step inp).2.pushed i) (forwardedOf (trace.step inp).2.forwarded i)
      ((trace.step inp).buffered i) := by
  have flows := (waiting.once i).step
    ((trace.1.hpuDriver i).feedbackTaken (trace.1.hpuIn inp i))
    (if (trace.1.hpuDriver i).feedbackPushed (trace.1.hpuIn inp i)
      then [(trace.1.hpuDriver i).taskFrontend.hpuFeedback] else [])
  have contents : (trace.step inp).buffered i = _ :=
    (trace.1.hpuDriver i).feedbackBuff_step (trace.1.hpuIn inp i)
  rw [forwardedOf_step waiting showing, contents]
  exact flows

/-- What wants a grant and is not granted wants it in the next cycle: commands stay
    disabled, so nothing comes in between. -/
theorem wants_step (refused : inp.feedbackReadyI = false) (i : params.CoreId)
    (wanted : trace.wants i = true) : (trace.step inp).wants i = true := by
  simp only [wants, Bool.and_eq_true, Bool.not_eq_true'] at wanted ⊢
  obtain ⟨waits, settled⟩ := wanted
  constructor
  -- what waits in the buffer stays there, as nothing is granted
  · have stays : (trace.1.hpuDriver i).feedbackTaken (trace.1.hpuIn inp i) = false := by
      have ready : (trace.1.hpuIn inp i).hpuFeedbackReadyI = false := by
        show RrArbTree.gntO _ _ inp.feedbackReadyI i = false
        rw [RrArbTree.gntO, refused, Bool.false_and]
      rw [HpuDriver.feedbackTaken, ready, Bool.false_and]
    have contents := (trace.1.hpuDriver i).feedbackBuff_step (trace.1.hpuIn inp i)
    rw [stays, if_neg Bool.false_ne_true] at contents
    apply FifoV3.emptyO_eq_false.mpr
    show ((trace.1.hpuDriver i).step (trace.1.hpuIn inp i)).taskFrontend.feedbackBuff.contents ≠ []
    rw [contents]
    simp [FifoV3.emptyO_eq_false.mp waits]
  · apply CmdFrontend.noPendingCmdO_step _ _ _ settled
    show (!(trace.1.hpuDriver i).taskFrontend.feedbackBuffEmpty) = true
    rw [waits]
    rfl

theorem Waiting.step (waiting : Waiting trace) (showing : trace.ShowsWhenGranted inp) :
    Waiting (trace.step inp) where
  once := once_step waiting showing
  freed := by
    have freed : (trace.step inp).2.freed = trace.2.freed ++
      if forwards trace.1 inp then
        [freeOf params.toClusterSchedulerParams
          (trace.1.clusterScheduler.hpuFeedbackArbI (trace.1.schedulerIn inp))]
      else [] := rfl
    have forwarded : (trace.step inp).2.forwarded = trace.2.forwarded ++
      if forwards trace.1 inp then
        [(trace.1.clusterScheduler.hpuFeedbackIdx (trace.1.schedulerIn inp),
          trace.1.clusterScheduler.hpuFeedbackArbI (trace.1.schedulerIn inp))]
      else [] := rfl
    rw [freed, forwarded, waiting.freed, List.map_append]
    split <;> rfl
  latched := waiting.latched.step wants_of_valid wants_step

end Step

/-- Feedbacks cross once: in every run in which no core starts DMA transfers between its
    feedback being seen by the arbiter and the grant, whatever else cores, DMA engine
    and scheduler do. -/
theorem pulpCluster_crosses_once (params : PulpClusterParams) (inputs : List (PulpClusterIn params))
    (permitted : (feedbackTrace params).Admits ShowsWhenGranted inputs) :
    CrossesOnce ((feedbackTrace params).run inputs) :=
  (permitted.invariant Waiting waiting_reset
    fun _ _ waiting showing => waiting.step showing).crossesOnce

/-- The first core answers a task that has a packet and no handler, its feedback waits in
    the given cycles while the core runs the next task, and goes out afterwards. -/
def answerRun (params : PulpClusterParams)
    (waits : PulpClusterIn params → List (PulpClusterIn params)) : List (PulpClusterIn params) :=
  let quiet : PulpClusterIn params := ⟨false, default, true, true, false, fun _ => default,
    fun _ => true, fun _ => true, false, default⟩
  let wakes : PulpClusterIn params :=
    { quiet with hpuDriverBus := fun i => ⟨decide (i.val = 0), 0, true, 0⟩ }
  let packet : HandlerTask := { (default : HandlerTask) with pktSize := 64 }
  let handler : HandlerTask := { (default : HandlerTask) with handlerFun := 64 }
  [{ wakes with taskValidI := true, taskDescrI := packet },
    { quiet with dmaRespI := true, taskValidI := true, taskDescrI := handler }, quiet, quiet] ++
    waits quiet ++ [quiet]

/-- The scheduler is not ready for one cycle and the core starts no transfers. -/
theorem pulpCluster_crosses_once_stalled :
    let params : PulpClusterParams := ⟨⟨2, 4, 2, 0, by decide, by decide, by decide⟩, 2, by decide⟩
    let inputs := answerRun params fun quiet => [{ quiet with feedbackReadyI := false }, quiet]
    let trace := (feedbackTrace params).run inputs
    (trace.2.pushed 0 = forwardedOf trace.2.forwarded 0 ∧ trace.2.freed = [(0, 64)]) ∧
      CrossesOnce trace :=
  ⟨by decide +kernel, pulpCluster_crosses_once _ _ (by decide +kernel)⟩

/-- At the deployed sizes: the scheduler is not ready, the next handler starts transfers,
    the scheduler is ready again; the feedback is forwarded then and once more later. -/
theorem pulpCluster_crosses_twice :
    let params : PulpClusterParams :=
      ⟨⟨8, 20, 8, 0, by decide, by decide, by decide⟩, 2, by decide⟩
    let inputs := answerRun params fun quiet =>
      [{ quiet with feedbackReadyI := false },
        { quiet with noReqPending := fun i => decide (i.val ≠ 0) }]
    ((feedbackTrace params).run inputs).2.freed = [(0, 64), (0, 64)] ∧
      ¬CrossesOnce ((feedbackTrace params).run inputs) := by
  refine ⟨by decide +kernel, fun crosses => ?_⟩
  have once := (crosses.once 0).length
  revert once
  decide +kernel

end FeedbackTrace

end Pspin
