import Pspin.PktScheduler.Scheduler

/-! # Where the scheduler puts a task

The fallback is the winner of `argmin4`, in which a cluster that is not ready counts as all
ones.  A ready cluster below the limit is less than that, so the winner is then a ready one of
minimal occupation; and if all that are ready are full the winner is full as well.
-/

namespace Pspin

open Clocked

/-- What `argmin4` compares. -/
def argminValue (valueWidth : Nat) (valuesI : Fin 4 → Nat) (enabledI : Fin 4 → Bool) (i : Fin 4) : Nat :=
  if enabledI i then valuesI i else 2 ^ valueWidth - 1

/-- Nothing compared is less than the winner. -/
theorem argmin4_le (valueWidth : Nat) (valuesI : Fin 4 → Nat) (enabledI : Fin 4 → Bool) (i : Fin 4) :
    argminValue valueWidth valuesI enabledI (argmin4 valueWidth valuesI enabledI) ≤
      argminValue valueWidth valuesI enabledI i := by
  have compared : argmin4 valueWidth valuesI enabledI =
      (let values := argminValue valueWidth valuesI enabledI
       let minL0 : Fin 4 := if values 0 ≤ values 1 then 0 else 1
       let minL1 : Fin 4 := if values 2 ≤ values 3 then 2 else 3
       if values minL0 ≤ values minL1 then minL0 else minL1) := rfl
  rw [compared]
  generalize argminValue valueWidth valuesI enabledI = values
  have each : i = 0 ∨ i = 1 ∨ i = 2 ∨ i = 3 := by omega
  dsimp only
  split_ifs <;> rcases each with rfl | rfl | rfl | rfl <;> omega

namespace Scheduler

variable {numHersPerCluster : Nat} (sched : Scheduler numHersPerCluster) (inp : SchedulerIn)

/-- The offered task is taken in this cycle. -/
def accepts : Bool := inp.taskValidI && sched.taskReadyO inp

/-- A ready cluster with room. -/
def Open (i : ClusterId) : Prop :=
  sched.clusterTaskReadyId i = true ∧ sched.clusterOccupQ i < numHersPerCluster

instance (i : ClusterId) : Decidable (sched.Open i) := inferInstanceAs (Decidable (_ ∧ _))

/-- A cluster takes the offered task in this cycle, and it alone is offered one. -/
structure HandsOver (i : ClusterId) : Prop where
  accepted : sched.accepts inp = true
  offered : ∀ j, sched.clusterTaskValidOd inp j = true ↔ j = i
  ready : sched.clusterTaskReadyId i = true
  same : sched.clusterTaskDescrOd inp i = inp.taskDescrI
  done : sched.stateD inp = .servePacket

/-- The placement of an offered task. -/
structure Places : Prop where
  /-- never to a cluster at its limit -/
  below : sched.accepts inp = true → sched.clusterOccupQ (sched.clusterIdD inp) < numHersPerCluster
  home : inp.taskValidI = true → sched.Open (homeClusterId inp) →
    sched.HandsOver inp (homeClusterId inp)
  /-- else to a ready cluster of minimal occupation -/
  least : inp.taskValidI = true → ¬sched.Open (homeClusterId inp) → (∃ i, sched.Open i) →
    ∃ i, sched.HandsOver inp i ∧
      ∀ j, sched.clusterTaskReadyId j = true → sched.clusterOccupQ i ≤ sched.clusterOccupQ j
  refused : (∃ i, sched.clusterTaskReadyId i = true) →
    (∀ i, sched.clusterTaskReadyId i = true → numHersPerCluster ≤ sched.clusterOccupQ i) →
    sched.accepts inp = false

section Places

variable {sched inp}

theorem numHers_le_ones (some : 0 < numHersPerCluster) :
    numHersPerCluster ≤ 2 ^ occupWidth numHersPerCluster - 1 := by
  have bound := lt_two_pow_clog2_succ some
  rw [occupWidth]
  omega

/-- But for a limit of one, the limit is less than all ones. -/
theorem numHers_lt_ones (several : numHersPerCluster ≠ 1) :
    numHersPerCluster < 2 ^ occupWidth numHersPerCluster - 1 := by
  have bound := le_two_pow_clog2 numHersPerCluster
  have positive := Nat.two_pow_pos (clog2 numHersPerCluster)
  rw [occupWidth, pow_succ]
  omega

/-- The fallback is less than or equal to any ready cluster. -/
theorem cOccupMin_le {i : ClusterId} (ready : sched.clusterTaskReadyId i = true) :
    argminValue (occupWidth numHersPerCluster) sched.clusterOccupQ sched.clusterTaskReadyId
      sched.cOccupMin ≤ sched.clusterOccupQ i :=
  (argmin4_le (occupWidth numHersPerCluster) sched.clusterOccupQ sched.clusterTaskReadyId i).trans_eq
    (if_pos ready)

/-- With a ready cluster below some bound, the fallback is a ready one of minimal occupation. -/
theorem cOccupMin_spec {i : ClusterId} (ready : sched.clusterTaskReadyId i = true)
    (small : sched.clusterOccupQ i < 2 ^ occupWidth numHersPerCluster - 1) :
    sched.clusterTaskReadyId sched.cOccupMin = true ∧
      ∀ j, sched.clusterTaskReadyId j = true →
        sched.clusterOccupQ sched.cOccupMin ≤ sched.clusterOccupQ j := by
  have isReady : sched.clusterTaskReadyId sched.cOccupMin = true := by
    by_contra idle
    have ones : 2 ^ occupWidth numHersPerCluster - 1 ≤ sched.clusterOccupQ i :=
      (if_neg idle).symm.trans_le (cOccupMin_le ready)
    omega
  refine ⟨isReady, fun j readyToo => ?_⟩
  exact (if_pos isReady).symm.trans_le (cOccupMin_le readyToo)

/-- A task that is served goes to the selected cluster at once if that is ready. -/
theorem handsOver_selected (serving : sched.stateQ = .servePacket) (valid : inp.taskValidI = true)
    (avail : sched.noClusterAvail = false)
    (ready : sched.clusterTaskReadyId (sched.selClusterId inp) = true) :
    sched.HandsOver inp (sched.selClusterId inp) where
  accepted := by simp [accepts, taskReadyO, serving, valid, avail]
  offered j := by
    simp only [clusterTaskValidOd, clusterIdD, servingCluster, serving, valid, avail]
    simp [eq_comm]
  ready := ready
  same := by simp [clusterTaskDescrOd, serving]
  done := by simp [stateD, clusterIdD, serving, valid, avail, ready]

theorem canUseHomeCluster_iff (avail : sched.noClusterAvail = false) :
    sched.canUseHomeCluster inp = true ↔ sched.Open (homeClusterId inp) := by
  rw [canUseHomeCluster, avail, Bool.false_or, Bool.and_eq_true, decide_eq_true_eq, and_comm]
  rfl

theorem cOccupMin_of_open {i : ClusterId} (isOpen : sched.Open i) :
    sched.clusterTaskReadyId sched.cOccupMin = true ∧
      ∀ j, sched.clusterTaskReadyId j = true →
        sched.clusterOccupQ sched.cOccupMin ≤ sched.clusterOccupQ j :=
  cOccupMin_spec isOpen.1 (Nat.lt_of_lt_of_le isOpen.2 (numHers_le_ones (Nat.zero_lt_of_lt isOpen.2)))

theorem noClusterAvail_of_open {i : ClusterId} (isOpen : sched.Open i) :
    sched.noClusterAvail = false := by
  have least := (cOccupMin_of_open isOpen).2 i isOpen.1
  rw [noClusterAvail, decide_eq_false (by have := isOpen.2; omega)]

/-- A task is placed by what is ready and how much it has, whatever the occupations up to the
    limit are. -/
theorem scheduler_places (several : numHersPerCluster ≠ 1)
    (bounded : ∀ i, sched.clusterOccupQ i ≤ numHersPerCluster)
    (serving : sched.stateQ = .servePacket) : sched.Places inp where
  below := by
    intro accepted
    have avail : sched.noClusterAvail = false := by
      simp only [accepts, taskReadyO, serving, Bool.and_eq_true, Bool.not_eq_true'] at accepted
      exact accepted.2.2
    rw [clusterIdD, serving]
    change sched.clusterOccupQ (sched.selClusterId inp) < numHersPerCluster
    rw [selClusterId]
    split
    next home => exact ((canUseHomeCluster_iff avail).mp home).2
    next => simpa [noClusterAvail] using avail
  home := by
    intro valid isOpen
    have avail := noClusterAvail_of_open isOpen
    have selected : sched.selClusterId inp = homeClusterId inp :=
      if_pos ((canUseHomeCluster_iff avail).mpr isOpen)
    have handed := handsOver_selected serving valid avail (by rw [selected]; exact isOpen.1)
    rwa [selected] at handed
  least := by
    intro valid closed some
    obtain ⟨i, isOpen⟩ := some
    have avail := noClusterAvail_of_open isOpen
    have selected : sched.selClusterId inp = sched.cOccupMin :=
      if_neg fun home => closed ((canUseHomeCluster_iff avail).mp home)
    obtain ⟨ready, least⟩ := cOccupMin_of_open isOpen
    have handed := handsOver_selected serving valid avail (by rw [selected]; exact ready)
    rw [selected] at handed
    exact ⟨_, handed, least⟩
  refused := by
    intro some full
    obtain ⟨i, ready⟩ := some
    have ones := numHers_lt_ones several
    obtain ⟨minReady, -⟩ := cOccupMin_spec ready (Nat.lt_of_le_of_lt (bounded i) ones)
    have none : sched.noClusterAvail = true := by
      rw [noClusterAvail, decide_eq_true (full _ minReady)]
    simp [accepts, taskReadyO, serving, none]

/-- The home cluster and the last one are full, cluster 2 has the least. -/
def loaded : Scheduler 20 :=
  { (Scheduler.reset : Scheduler 20) with clusterOccupQ := fun i => [20, 3, 2, 20].getD i 0 }

theorem scheduler_places_loaded :
    loaded.Places ⟨true, default, fun _ => true, fun _ => false, fun _ => default, true⟩ :=
  scheduler_places (by decide) (by decide) rfl

end Places

end Scheduler

end Pspin
