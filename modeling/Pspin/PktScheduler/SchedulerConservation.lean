import Pspin.Clocked.Flow
import Pspin.PktScheduler.Scheduler

/-! # Tasks and feedbacks of the scheduler are conserved

A history records every task and every feedback at each place it passes.  What is
accepted is handed to one cluster at once or kept, what is handed over reaches
the port of its cluster in order, and the occupation of a cluster is what it was
handed less the feedbacks taken from it.
-/

namespace Pspin

open Clocked

/-- Tasks accepted, handed to a cluster's interface register and taken at its port;
    feedbacks accepted from a cluster and forwarded to the packet generator. -/
structure SchedulerHistory where
  accepted : List HandlerTask
  handed : List (ClusterId × HandlerTask)
  delivered : ClusterId → List HandlerTask
  received : ClusterId → List FeedbackDescr
  forwarded : List (ClusterId × FeedbackDescr)

namespace SchedulerHistory

def empty : SchedulerHistory where
  accepted := []
  handed := []
  delivered := fun _ => []
  received := fun _ => []
  forwarded := []

/-- The entries of one cluster. -/
def ofCluster {α : Type} (i : ClusterId) (entries : List (ClusterId × α)) : List α :=
  (entries.filter fun entry => decide (entry.1 = i)).map Prod.snd

@[simp] theorem ofCluster_append {α : Type} (i : ClusterId) (first second : List (ClusterId × α)) :
    ofCluster i (first ++ second) = ofCluster i first ++ ofCluster i second := by
  simp [ofCluster]

variable {numHersPerCluster : Nat}

def record (sched : Scheduler numHersPerCluster) (history : SchedulerHistory) (inp : SchedulerIn) :
    SchedulerHistory where
  accepted := history.accepted ++
    if inp.taskValidI && sched.taskReadyO inp then [inp.taskDescrI] else []
  handed := history.handed ++ (List.finRange numClusters).filterMap fun i =>
    if sched.clusterTaskValidOd inp i && sched.clusterTaskReadyId i
    then some (i, sched.clusterTaskDescrOd inp i) else none
  delivered i := history.delivered i ++
    if sched.clusterTaskValidO i && inp.clusterTaskReadyI i then [sched.clusterTaskDescrO i] else []
  received i := history.received i ++
    if inp.clusterFeedbackValidI i && sched.clusterFeedbackReadyO i
    then [inp.clusterFeedbackI i] else []
  forwarded := history.forwarded ++
    if sched.pktgenFeedbackValidO && inp.pktgenFeedbackReadyI
    then [(sched.rrArbTree.idxO sched.clusterFeedbackValidIq, sched.pktgenFeedbackO)] else []

end SchedulerHistory

abbrev SchedulerTrace (numHersPerCluster : Nat) := Scheduler numHersPerCluster × SchedulerHistory

def schedulerTrace (numHersPerCluster : Nat) :
    Machine (SchedulerTrace numHersPerCluster) SchedulerIn :=
  (scheduler numHersPerCluster).observedBy SchedulerHistory.empty SchedulerHistory.record

namespace SchedulerTrace

open SchedulerHistory

variable {numHersPerCluster : Nat}

def step (trace : SchedulerTrace numHersPerCluster) (inp : SchedulerIn) :
    SchedulerTrace numHersPerCluster :=
  (trace.1.step inp, record trace.1 trace.2 inp)

/-- A cluster answers each task it was given at most once. -/
def Permits (trace : SchedulerTrace numHersPerCluster) (inp : SchedulerIn) : Prop :=
  ∀ i, ((trace.step inp).2.received i).length ≤ (ofCluster i (trace.step inp).2.handed).length

instance (trace : SchedulerTrace numHersPerCluster) (inp : SchedulerIn) :
    Decidable (trace.Permits inp) :=
  inferInstanceAs (Decidable (∀ i : ClusterId,
    ((trace.step inp).2.received i).length ≤ (ofCluster i (trace.step inp).2.handed).length))

/-- The task kept for a cluster that was not ready. -/
def waiting (trace : SchedulerTrace numHersPerCluster) : List HandlerTask :=
  match trace.1.stateQ with
  | .servePacket => []
  | .waitTransfer => [trace.1.taskQ]

/-- Nothing is lost, doubled or miscounted. -/
structure Conserves (trace : SchedulerTrace numHersPerCluster) : Prop where
  tasks : Flows trace.2.accepted (trace.2.handed.map Prod.snd) trace.waiting
  deliveries : ∀ i, Flows (ofCluster i trace.2.handed) (trace.2.delivered i)
    (trace.1.clusterTaskSpill i).contents
  feedbacks : ∀ i, Flows (trace.2.received i) (ofCluster i trace.2.forwarded)
    (trace.1.clusterFeedbackSpill i).contents
  occupation : ∀ i, trace.1.clusterOccupQ i + (ofCluster i trace.2.forwarded).length =
    (ofCluster i trace.2.handed).length
  occupation_le : ∀ i, trace.1.clusterOccupQ i ≤ numHersPerCluster

/-- What the next cycle needs besides. -/
structure Inv (trace : SchedulerTrace numHersPerCluster) : Prop extends Conserves trace where
  answered : ∀ i, (trace.2.received i).length ≤ (ofCluster i trace.2.handed).length
  room : trace.1.stateQ = .waitTransfer →
    trace.1.clusterOccupQ trace.1.clusterIdQ < numHersPerCluster
  held : trace.1.rrArbTree.Latched trace.1.clusterFeedbackValidIq

end SchedulerTrace

namespace Scheduler

variable {numHersPerCluster : Nat} {sched : Scheduler numHersPerCluster} {inp : SchedulerIn}

/-- A task is accepted only for a cluster with room. -/
theorem selClusterId_room (avail : sched.noClusterAvail = false) :
    sched.clusterOccupQ (sched.selClusterId inp) < numHersPerCluster := by
  have least : sched.clusterOccupQ sched.cOccupMin < numHersPerCluster := by
    simpa [noClusterAvail] using avail
  unfold selClusterId
  split
  next home =>
    simp only [canUseHomeCluster, avail, Bool.false_or, Bool.and_eq_true, decide_eq_true_eq] at home
    exact home.1
  next => exact least

/-- At most one cluster is handed a task in a cycle. -/
theorem handed_eq :
    ((List.finRange numClusters).filterMap fun i =>
      if sched.clusterTaskValidOd inp i && sched.clusterTaskReadyId i
      then some (i, sched.clusterTaskDescrOd inp i) else none) =
    if sched.servingCluster inp && sched.clusterTaskReadyId (sched.clusterIdD inp)
    then [(sched.clusterIdD inp, sched.clusterTaskDescrOd inp (sched.clusterIdD inp))] else [] := by
  rw [filterMap_eq_toList (List.nodup_finRange _) (List.mem_finRange (sched.clusterIdD inp))]
  · simp only [clusterTaskValidOd, decide_true, Bool.true_and]
    split <;> rfl
  · intro i ne
    simp [clusterTaskValidOd, ne.symm]

/-- While it is served a task goes to a cluster with room. -/
theorem clusterIdD_room (serving : sched.servingCluster inp = true)
    (room : sched.stateQ = .waitTransfer → sched.clusterOccupQ sched.clusterIdQ < numHersPerCluster) :
    sched.clusterOccupQ (sched.clusterIdD inp) < numHersPerCluster := by
  cases state : sched.stateQ with
  | servePacket =>
    simp only [servingCluster, state, Bool.and_eq_true, Bool.not_eq_true'] at serving
    simpa [clusterIdD, state] using selClusterId_room serving.2
  | waitTransfer => simpa [clusterIdD, state] using room state

/-- What a cluster is handed in a cycle. -/
theorem ofCluster_handed (i : ClusterId) :
    SchedulerHistory.ofCluster i (if sched.servingCluster inp &&
        sched.clusterTaskReadyId (sched.clusterIdD inp)
      then [(sched.clusterIdD inp, sched.clusterTaskDescrOd inp (sched.clusterIdD inp))] else []) =
    if sched.clusterTaskValidOd inp i && sched.clusterTaskReadyId i
      then [sched.clusterTaskDescrOd inp i] else [] := by
  by_cases here : sched.clusterIdD inp = i
  · subst here
    simp only [clusterTaskValidOd, decide_true, Bool.true_and]
    split <;> simp [SchedulerHistory.ofCluster]
  · simp only [clusterTaskValidOd, here, decide_false, Bool.false_and]
    split <;> simp [SchedulerHistory.ofCluster, here]

/-- What is forwarded of a cluster in a cycle. -/
theorem ofCluster_forwarded (held : sched.rrArbTree.Latched sched.clusterFeedbackValidIq)
    (i : ClusterId) :
    SchedulerHistory.ofCluster i (if sched.pktgenFeedbackValidO && inp.pktgenFeedbackReadyI
      then [(sched.rrArbTree.idxO sched.clusterFeedbackValidIq, sched.pktgenFeedbackO)] else []) =
    if sched.clusterFeedbackReadyOq inp i
      then (sched.clusterFeedbackSpill i).contents.head?.toList else [] := by
  rw [← SpillRegister.output_eq]
  -- the arbiter grants the cluster it has chosen and no other
  have granted : ((sched.clusterFeedbackSpill i).validO && sched.clusterFeedbackReadyOq inp i) =
      (sched.pktgenFeedbackValidO && inp.pktgenFeedbackReadyI &&
        decide (sched.rrArbTree.idxO sched.clusterFeedbackValidIq = i)) :=
    held.granted_eq inp.pktgenFeedbackReadyI i
  rw [granted]
  by_cases chosen : sched.rrArbTree.idxO sched.clusterFeedbackValidIq = i
  · subst chosen
    simp only [decide_true, Bool.and_true]
    split <;> simp [SchedulerHistory.ofCluster, pktgenFeedbackO, clusterFeedbackIq]
  · simp only [chosen, decide_false, Bool.and_false]
    split <;> simp [SchedulerHistory.ofCluster, chosen]

end Scheduler

namespace SchedulerTrace

open SchedulerHistory

variable {numHersPerCluster : Nat} {trace : SchedulerTrace numHersPerCluster} {inp : SchedulerIn}

theorem inv_reset : Inv (schedulerTrace numHersPerCluster).reset where
  tasks := .nil
  deliveries _ := .nil
  feedbacks _ := .nil
  occupation _ := rfl
  occupation_le _ := Nat.zero_le _
  answered _ := Nat.le_refl _
  room waits := by cases waits
  held := RrArbTree.Latched.reset _

theorem handed_step : (trace.step inp).2.handed = trace.2.handed ++
    if trace.1.servingCluster inp && trace.1.clusterTaskReadyId (trace.1.clusterIdD inp)
    then [(trace.1.clusterIdD inp, trace.1.clusterTaskDescrOd inp (trace.1.clusterIdD inp))]
    else [] := by
  rw [← Scheduler.handed_eq]
  rfl

theorem ofCluster_handed_step (i : ClusterId) :
    ofCluster i (trace.step inp).2.handed = ofCluster i trace.2.handed ++
      if trace.1.clusterTaskValidOd inp i && trace.1.clusterTaskReadyId i
      then [trace.1.clusterTaskDescrOd inp i] else [] := by
  rw [handed_step, ofCluster_append, Scheduler.ofCluster_handed]

theorem Inv.ofCluster_forwarded_step (inv : trace.Inv) (i : ClusterId) :
    ofCluster i (trace.step inp).2.forwarded = ofCluster i trace.2.forwarded ++
      if trace.1.clusterFeedbackReadyOq inp i
      then (trace.1.clusterFeedbackSpill i).contents.head?.toList else [] := by
  rw [← Scheduler.ofCluster_forwarded inv.held, ← ofCluster_append]
  rfl

theorem Inv.tasks_step (inv : trace.Inv) :
    Flows (trace.step inp).2.accepted ((trace.step inp).2.handed.map Prod.snd)
      (trace.step inp).waiting := by
  have tasks : trace.2.accepted = trace.2.handed.map Prod.snd ++ trace.waiting := inv.tasks
  have accepted : (trace.step inp).2.accepted = trace.2.accepted ++
      if inp.taskValidI && trace.1.taskReadyO inp then [inp.taskDescrI] else [] := rfl
  have waiting : (trace.step inp).waiting = match trace.1.stateD inp with
      | .servePacket => []
      | .waitTransfer => [trace.1.taskD inp] := rfl
  rw [Flows, accepted, handed_step, waiting, tasks]
  -- the task is handed over at once or kept until its cluster is ready
  cases state : trace.1.stateQ with
  | servePacket =>
    have none : trace.waiting = [] := by simp [SchedulerTrace.waiting, state]
    cases valid : inp.taskValidI <;> cases avail : trace.1.noClusterAvail <;>
      cases ready : trace.1.clusterTaskReadyId (trace.1.clusterIdD inp) <;>
      simp [Scheduler.taskReadyO, Scheduler.servingCluster, Scheduler.stateD, Scheduler.taskD,
        Scheduler.clusterTaskDescrOd, none, state, valid, avail, ready]
  | waitTransfer =>
    have kept : trace.waiting = [trace.1.taskQ] := by simp [SchedulerTrace.waiting, state]
    have chosen : trace.1.clusterIdD inp = trace.1.clusterIdQ := by simp [Scheduler.clusterIdD, state]
    cases ready : trace.1.clusterTaskReadyId trace.1.clusterIdQ <;>
      simp [Scheduler.taskReadyO, Scheduler.servingCluster, Scheduler.stateD, Scheduler.taskD,
        Scheduler.clusterTaskDescrOd, kept, chosen, state, ready]

theorem Inv.deliveries_step (inv : trace.Inv) (i : ClusterId) :
    Flows (ofCluster i (trace.step inp).2.handed) ((trace.step inp).2.delivered i)
      ((trace.step inp).1.clusterTaskSpill i).contents := by
  have flows := (inv.deliveries i).step (inp.clusterTaskReadyI i)
    (if trace.1.clusterTaskValidOd inp i && trace.1.clusterTaskReadyId i
      then [trace.1.clusterTaskDescrOd inp i] else [])
  have contents : ((trace.step inp).1.clusterTaskSpill i).contents = _ :=
    SpillRegister.contents_step (trace.1.clusterTaskSpill i) (trace.1.clusterTaskValidOd inp i)
      (trace.1.clusterTaskDescrOd inp i) (inp.clusterTaskReadyI i)
  rw [ofCluster_handed_step, contents]
  rw [← SpillRegister.output_eq] at flows
  exact flows

theorem Inv.feedbacks_step (inv : trace.Inv) (i : ClusterId) :
    Flows ((trace.step inp).2.received i) (ofCluster i (trace.step inp).2.forwarded)
      ((trace.step inp).1.clusterFeedbackSpill i).contents := by
  have flows := (inv.feedbacks i).step (trace.1.clusterFeedbackReadyOq inp i)
    (if inp.clusterFeedbackValidI i && trace.1.clusterFeedbackReadyO i
      then [inp.clusterFeedbackI i] else [])
  have contents : ((trace.step inp).1.clusterFeedbackSpill i).contents = _ :=
    SpillRegister.contents_step (trace.1.clusterFeedbackSpill i) (inp.clusterFeedbackValidI i)
      (inp.clusterFeedbackI i) (trace.1.clusterFeedbackReadyOq inp i)
  rw [inv.ofCluster_forwarded_step, contents]
  exact flows

/-- A feedback waits only while a task of its cluster is counted. -/
theorem Inv.occupied (inv : trace.Inv) {i : ClusterId}
    (valid : trace.1.clusterFeedbackValidIq i = true) : 0 < trace.1.clusterOccupQ i := by
  have waits : 0 < (trace.1.clusterFeedbackSpill i).contents.length :=
    List.length_pos_of_ne_nil (SpillRegister.validO_eq_true.mp valid)
  have flows := (inv.feedbacks i).length
  have answered := inv.answered i
  have occupation := inv.occupation i
  omega

/-- The counter of a cluster goes up by what it is handed and down by what is taken. -/
theorem Inv.clusterOccupD_eq (inv : trace.Inv) (inp : SchedulerIn) (i : ClusterId) :
    trace.1.clusterOccupD inp i +
        (trace.1.clusterFeedbackValidIq i && trace.1.clusterFeedbackReadyOq inp i).toNat =
      trace.1.clusterOccupQ i +
        (trace.1.clusterTaskValidOd inp i && trace.1.clusterTaskReadyId i).toNat ∧
    trace.1.clusterOccupD inp i ≤ numHersPerCluster := by
  have bound := inv.occupation_le i
  have fits : 0 < numHersPerCluster → numHersPerCluster < 2 ^ (clog2 numHersPerCluster + 1) :=
    lt_two_pow_clog2_succ
  -- the counter neither overflows nor underflows
  have room : trace.1.clusterTaskValidOd inp i = true →
      trace.1.clusterOccupQ i < numHersPerCluster := by
    intro serves
    simp only [Scheduler.clusterTaskValidOd, Bool.and_eq_true, decide_eq_true_eq] at serves
    obtain ⟨rfl, serving⟩ := serves
    exact Scheduler.clusterIdD_room serving inv.room
  have up : trace.1.clusterTaskValidOd inp i = true →
      increment (Scheduler.occupWidth numHersPerCluster) (trace.1.clusterOccupQ i) =
        trace.1.clusterOccupQ i + 1 := by
    intro serves
    exact increment_of_lt (lt_of_le_of_lt (room serves) (fits (by have := room serves; omega)))
  have down : trace.1.clusterFeedbackValidIq i = true →
      decrement (Scheduler.occupWidth numHersPerCluster) (trace.1.clusterOccupQ i) =
        trace.1.clusterOccupQ i - 1 ∧ 0 < trace.1.clusterOccupQ i := by
    intro valid
    have positive := inv.occupied valid
    exact ⟨decrement_of_pos positive (lt_of_le_of_lt bound (fits (by omega))), positive⟩
  unfold Scheduler.clusterOccupD
  cases handing : trace.1.clusterTaskValidOd inp i && trace.1.clusterTaskReadyId i <;>
    cases taking : trace.1.clusterFeedbackValidIq i && trace.1.clusterFeedbackReadyOq inp i <;>
    simp only [Bool.toNat_true, Bool.toNat_false, Bool.and_eq_true] at handing taking ⊢
  · exact ⟨trivial, bound⟩
  · obtain ⟨same, positive⟩ := down taking.1
    omega
  · have more := room handing.1
    rw [up handing.1]
    omega
  · exact ⟨trivial, bound⟩

theorem Inv.occupation_step (inv : trace.Inv) (i : ClusterId) :
    (trace.step inp).1.clusterOccupQ i + (ofCluster i (trace.step inp).2.forwarded).length =
      (ofCluster i (trace.step inp).2.handed).length := by
  have before := inv.occupation i
  have counts := (inv.clusterOccupD_eq inp i).1
  have taken : (if trace.1.clusterFeedbackReadyOq inp i
      then (trace.1.clusterFeedbackSpill i).contents.head?.toList else []).length =
      (trace.1.clusterFeedbackValidIq i && trace.1.clusterFeedbackReadyOq inp i).toNat := by
    have same : (trace.1.clusterFeedbackSpill i).validO = trace.1.clusterFeedbackValidIq i := rfl
    rw [← SpillRegister.output_eq, same]
    cases trace.1.clusterFeedbackValidIq i && trace.1.clusterFeedbackReadyOq inp i <;> rfl
  have handed : (if trace.1.clusterTaskValidOd inp i && trace.1.clusterTaskReadyId i
      then [trace.1.clusterTaskDescrOd inp i] else []).length =
      (trace.1.clusterTaskValidOd inp i && trace.1.clusterTaskReadyId i).toNat := by
    cases trace.1.clusterTaskValidOd inp i && trace.1.clusterTaskReadyId i <;> rfl
  have occup : (trace.step inp).1.clusterOccupQ i = trace.1.clusterOccupD inp i := rfl
  rw [inv.ofCluster_forwarded_step, ofCluster_handed_step, List.length_append,
    List.length_append, taken, handed, occup]
  omega

theorem Inv.room_step (inv : trace.Inv) (waits : trace.1.stateD inp = .waitTransfer) :
    (trace.step inp).1.clusterOccupQ (trace.1.clusterIdD inp) < numHersPerCluster := by
  -- it waits because the cluster that has room is not ready
  have serving : trace.1.servingCluster inp = true ∧
      trace.1.clusterTaskReadyId (trace.1.clusterIdD inp) = false := by
    cases state : trace.1.stateQ with
    | servePacket =>
      simp only [Scheduler.stateD, state] at waits
      split at waits
      next serves =>
        split at waits
        next => cases waits
        next refused =>
          exact ⟨by simpa [Scheduler.servingCluster, state] using serves,
            by simpa using refused⟩
      next => cases waits
    | waitTransfer =>
      simp only [Scheduler.stateD, state] at waits
      split at waits
      next => cases waits
      next refused =>
        exact ⟨by simp [Scheduler.servingCluster, state],
          by simpa [Scheduler.clusterIdD, state] using refused⟩
  have before := Scheduler.clusterIdD_room serving.1 inv.room
  have counts := (inv.clusterOccupD_eq inp (trace.1.clusterIdD inp)).1
  rw [serving.2, Bool.and_false, Bool.toNat_false] at counts
  have occup : (trace.step inp).1.clusterOccupQ (trace.1.clusterIdD inp) =
      trace.1.clusterOccupD inp (trace.1.clusterIdD inp) := rfl
  omega

theorem Inv.held_step (inv : trace.Inv) :
    (trace.step inp).1.rrArbTree.Latched (trace.step inp).1.clusterFeedbackValidIq := by
  refine inv.held.step (fun _ => id) fun refused i valid => ?_
  have stays : trace.1.clusterFeedbackReadyOq inp i = false := by
    simp [Scheduler.clusterFeedbackReadyOq, RrArbTree.gntO, refused]
  have contents : ((trace.step inp).1.clusterFeedbackSpill i).contents = _ :=
    SpillRegister.contents_step (trace.1.clusterFeedbackSpill i) (inp.clusterFeedbackValidI i)
      (inp.clusterFeedbackI i) (trace.1.clusterFeedbackReadyOq inp i)
  have waits := SpillRegister.validO_eq_true.mp valid
  apply SpillRegister.validO_eq_true.mpr
  rw [contents, stays]
  simp [waits]

theorem Inv.step (inv : trace.Inv) (permits : trace.Permits inp) : (trace.step inp).Inv where
  tasks := inv.tasks_step
  deliveries := inv.deliveries_step
  feedbacks := inv.feedbacks_step
  occupation := inv.occupation_step
  occupation_le i := (inv.clusterOccupD_eq inp i).2
  answered := permits
  room := inv.room_step
  held := inv.held_step

/-- Task conservation: every accepted task is handed to exactly one cluster, with its
    own descriptor and before the next one is accepted, and reaches that cluster's
    port in order; occupations are exact and bounded; every feedback is forwarded. -/
theorem scheduler_conserves (numHersPerCluster : Nat) (inputs : List SchedulerIn)
    (permitted : (schedulerTrace numHersPerCluster).Admits Permits inputs) :
    Conserves ((schedulerTrace numHersPerCluster).run inputs) :=
  (permitted.invariant Inv inv_reset fun _ _ inv permits => inv.step permits).toConserves

/-- Two tasks of cluster 1, which has room for one, and the feedback of the first. -/
theorem scheduler_conserves_overflow :
    let task (msgid : MsgId) : HandlerTask := { (default : HandlerTask) with msgid := msgid }
    let quiet : SchedulerIn := ⟨false, default, fun _ => true, fun _ => false, fun _ => default, true⟩
    let inputs := [{ quiet with taskValidI := true, taskDescrI := task 1 },
      { quiet with taskValidI := true, taskDescrI := task 5 }, quiet,
      { quiet with clusterFeedbackValidI := fun i => decide (i = 1) }, quiet]
    let trace := (schedulerTrace 1).run inputs
    (trace.2.handed.map Prod.fst = [1, 0] ∧ trace.2.forwarded.map Prod.fst = [1] ∧
      trace.1.clusterOccupQ 0 = 1 ∧ trace.1.clusterOccupQ 1 = 0) ∧ Conserves trace :=
  ⟨by decide +kernel, scheduler_conserves 1 _ (by decide +kernel)⟩

end SchedulerTrace

end Pspin
