import Pspin.Dma.PulpClusterFrontend

/-! # Transfers outstanding in the DMA frontend

The backend completes transfers in the order in which it took them, so those it has
not completed are what the FIFO holds.  The counter of a core is their number as far
as its width goes.
-/

namespace Pspin

open Clocked

/-- Where the transfers that were started came from, and how many are complete. -/
structure DmaHistory (params : PulpClusterFrontendParams) where
  started : List params.Port
  completed : Nat

namespace DmaHistory

variable {params : PulpClusterFrontendParams}

def empty : DmaHistory params where
  started := []
  completed := 0

def record (frontend : PulpClusterFrontend params) (history : DmaHistory params)
    (inp : PulpClusterFrontendIn params) : DmaHistory params where
  started := history.started ++ if frontend.issue inp then [frontend.peIdxArb inp] else []
  completed := history.completed + inp.transComplete.toNat

/-- The transfers outstanding, oldest first. -/
def inProgress (history : DmaHistory params) : List params.Port :=
  history.started.drop history.completed

/-- Of the first transfers that were started, those of a core that are outstanding. -/
def outstandingOf (history : DmaHistory params) (count : Nat) (i : params.CoreId) : Nat :=
  ((history.started.take count).drop history.completed).count (params.corePort i)

def outstanding (history : DmaHistory params) (i : params.CoreId) : Nat :=
  history.inProgress.count (params.corePort i)

variable {frontend : PulpClusterFrontend params} {history : DmaHistory params}
  {inp : PulpClusterFrontendIn params}

theorem outstandingOf_le (history : DmaHistory params) (count : Nat) (i : params.CoreId) :
    history.outstandingOf count i ≤ history.outstanding i := by
  have sub := (List.take_sublist count history.started).drop history.completed
  exact sub.count_le _

/-- What was started first is outstanding no longer than before. -/
theorem outstandingOf_record_le {count : Nat} (inside : count ≤ history.started.length)
    (i : params.CoreId) :
    (record frontend history inp).outstandingOf count i ≤ history.outstandingOf count i := by
  simp only [outstandingOf, record, List.take_append_of_le_length inside, ← List.drop_drop]
  exact (List.drop_sublist _ _).count_le _

end DmaHistory

abbrev DmaTrace (params : PulpClusterFrontendParams) :=
  PulpClusterFrontend params × DmaHistory params

namespace DmaTrace

open PulpClusterFrontend

variable {params : PulpClusterFrontendParams}

def reset : DmaTrace params := (PulpClusterFrontend.reset, DmaHistory.empty)

def step (trace : DmaTrace params) (inp : PulpClusterFrontendIn params) : DmaTrace params :=
  (trace.1.step inp, DmaHistory.record trace.1 trace.2 inp)

/-- A request waits for its grant, the backend completes what it took, and it takes a
    transfer only if fewer are outstanding than the FIFO holds. -/
def Permits (trace : DmaTrace params) (inp : PulpClusterFrontendIn params) : Prop :=
  (∀ port, trace.1.rrArbTree.lockQ = true → trace.1.rrArbTree.reqQ port = true →
    beValid inp port = true) ∧
  (inp.transComplete = true → trace.2.completed < trace.2.started.length) ∧
  (trace.1.issue inp = true → trace.2.inProgress.length < params.tfFifoDepth)

instance (trace : DmaTrace params) (inp : PulpClusterFrontendIn params) :
    Decidable (trace.Permits inp) :=
  inferInstanceAs (Decidable ((∀ _ : Fin (params.numRegs + 1), _ → _ → _) ∧ (_ → _) ∧ (_ → _)))

/-- The invariant: the FIFO holds the transfers outstanding, and the counters count them. -/
structure Inv (trace : DmaTrace params) : Prop where
  completed : trace.2.completed ≤ trace.2.started.length
  holds : trace.1.tfIdFifo.contents = trace.2.inProgress
  counted : ∀ i, trace.1.coreTfNumQ i = trace.2.outstanding i % 2 ^ params.maxReqWidth
  latched : trace.1.rrArbTree.Latched fun _ => true

theorem Inv.reset : Inv (reset : DmaTrace params) where
  completed := Nat.le_refl _
  holds := rfl
  counted _ := (Nat.zero_mod _).symm
  latched := .reset _

namespace Inv

variable {trace : DmaTrace params} {inp : PulpClusterFrontendIn params}

section

variable (inv : trace.Inv) (permits : trace.Permits inp)

include inv permits

/-- A core's transfer starts when the one that is issued is its own. -/
theorem coreStarts_eq (i : params.CoreId) : trace.1.coreStarts inp i =
    (trace.1.issue inp && decide (trace.1.peIdxArb inp = params.corePort i)) := by
  have held : trace.1.rrArbTree.Latched (beValid inp) := fun locked =>
    ⟨(inv.latched locked).1, fun port => permits.1 port locked⟩
  have granted := held.granted_eq inp.beReadyArb (params.corePort i)
  rw [coreStarts, issue, beReady, Bool.and_comm (RrArbTree.gntO _ _ _ _), granted, beValidArb,
    transfDescrArb, peIdxArb, Bool.and_comm inp.beReadyArb]
  by_cases own : trace.1.rrArbTree.idxO (beValid inp) = params.corePort i
  · rw [own, Bool.and_right_comm]
  · simp [own]

/-- Completed transfers leave the list at the front, started ones join it at the end. -/
theorem inProgress_step : (trace.step inp).2.inProgress =
    (if inp.transComplete then trace.2.inProgress.tail else trace.2.inProgress) ++
      if trace.1.issue inp then [trace.1.peIdxArb inp] else [] := by
  have next : (trace.step inp).2.inProgress =
    (trace.2.started ++ if trace.1.issue inp then [trace.1.peIdxArb inp] else []).drop
      (trace.2.completed + inp.transComplete.toNat) := rfl
  have inside : trace.2.completed + inp.transComplete.toNat ≤ trace.2.started.length := by
    cases done : inp.transComplete with
    | false => exact inv.completed
    | true => exact permits.2.1 done
  rw [next, List.drop_append_of_le_length inside, ← List.drop_drop]
  cases inp.transComplete with
  | false => rfl
  | true => rw [if_pos rfl, Bool.toNat_true, List.drop_one]; rfl

/-- The transfer that completes is the oldest one. -/
theorem coreCompletes_eq (i : params.CoreId) : trace.1.coreCompletes inp i =
    (inp.transComplete && decide (trace.2.inProgress.head? = some (params.corePort i))) := by
  rw [coreCompletes, Bool.and_comm]
  cases done : inp.transComplete with
  | false => rfl
  | true =>
    have some := permits.2.1 done
    cases holds : trace.2.inProgress with
    | nil =>
      have none := List.drop_eq_nil_iff.mp holds
      omega
    | cons front rest =>
      -- the FIFO shows the transfer that has been in progress longest
      have contents := inv.holds.trans holds
      have notEmpty : trace.1.tfEmpty = false :=
        FifoV3.emptyO_eq_false.mpr (by rw [contents]; exact List.cons_ne_nil _ _)
      have head : trace.1.tfHead = front := FifoV3.dataO_eq_head contents
      simp [notEmpty, head]

theorem outstanding_step (i : params.CoreId) : (trace.step inp).2.outstanding i =
    trace.2.outstanding i - (trace.1.coreCompletes inp i).toNat +
      (trace.1.coreStarts inp i).toNat := by
  rw [DmaHistory.outstanding, inv.inProgress_step permits, List.count_append]
  congr 1
  · rw [inv.coreCompletes_eq permits, DmaHistory.outstanding]
    cases inp.transComplete with
    | false => rfl
    | true =>
      cases trace.2.inProgress with
      | nil => rfl
      | cons front rest => by_cases own : front = params.corePort i <;> simp [own]
  · rw [inv.coreStarts_eq permits]
    cases trace.1.issue inp with
    | false => rfl
    | true => by_cases own : trace.1.peIdxArb inp = params.corePort i <;> simp [own]

/-- A core whose transfer completes has one. -/
theorem outstanding_pos {i : params.CoreId} (completes : trace.1.coreCompletes inp i = true) :
    0 < trace.2.outstanding i := by
  rw [inv.coreCompletes_eq permits, Bool.and_eq_true, decide_eq_true_eq] at completes
  exact List.count_pos_iff.mpr (List.mem_of_head? completes.2)

theorem coreTfNumD_eq (i : params.CoreId) : trace.1.coreTfNumD inp i =
    (trace.step inp).2.outstanding i % 2 ^ params.maxReqWidth := by
  rw [coreTfNumD, inv.outstanding_step permits, inv.counted]
  have some := inv.outstanding_pos permits (i := i)
  cases completes : trace.1.coreCompletes inp i with
  | false => cases trace.1.coreStarts inp i <;> simp [increment_mod]
  | true =>
    obtain ⟨rest, more⟩ := Nat.exists_eq_succ_of_ne_zero (some completes).ne'
    cases trace.1.coreStarts inp i <;> simp [increment_mod, decrement_mod, more]

theorem step : (trace.step inp).Inv where
  completed := by
    have issued : (trace.step inp).2.started.length = trace.2.started.length +
        (trace.1.issue inp).toNat := by
      simp only [DmaTrace.step, DmaHistory.record, List.length_append]
      cases trace.1.issue inp <;> rfl
    have done : (trace.step inp).2.completed = trace.2.completed + inp.transComplete.toNat := rfl
    have before := inv.completed
    have completes := permits.2.1
    rw [issued, done]
    cases complete : inp.transComplete with
    | false => rw [Bool.toNat_false]; omega
    | true => rw [Bool.toNat_true]; have := completes complete; omega
  holds := by
    have contents : (trace.step inp).1.tfIdFifo.contents = _ :=
      FifoV3.contents_step trace.1.tfIdFifo (trace.1.peIdxArb inp) (trace.1.issue inp)
        inp.transComplete
    -- the FIFO has a place for each transfer that starts
    have room : (trace.1.issue inp && !trace.1.tfIdFifo.fullO) = trace.1.issue inp := by
      cases issued : trace.1.issue inp with
      | false => rfl
      | true =>
        have notFull : trace.1.tfIdFifo.fullO = false := by
          rw [FifoV3.fullO_eq_false, inv.holds]
          exact permits.2.2 issued
        rw [notFull]
        rfl
    rw [contents, room, inv.inProgress_step permits, inv.holds]
  counted := inv.coreTfNumD_eq permits
  latched := inv.latched.step (fun _ _ => rfl) fun _ _ _ => rfl

/-- The status of a core is that its number of outstanding transfers is a multiple of what
    its counter can hold. -/
theorem noReqPendingO_iff (i : params.CoreId) : trace.1.noReqPendingO inp i = true ↔
    2 ^ params.maxReqWidth ∣ (trace.step inp).2.outstanding i := by
  rw [noReqPendingO, decide_eq_true_eq, inv.coreTfNumD_eq permits, Nat.dvd_iff_mod_eq_zero]

end

end Inv

end DmaTrace

end Pspin
