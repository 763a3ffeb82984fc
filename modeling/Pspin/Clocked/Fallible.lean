import Pspin.Clocked.Machine

/-! # Steps that may fail

A program with assertions is a machine whose state is gone once one of them fails.  An invariant
that every step from it keeps, without a failure, says that no assertion fails in a run.
-/

namespace Pspin.Clocked

universe u v

variable {σ : Type u} {ι : Type v}

/-- A part of a step that changes nothing, for a reason, or does some of the work there is. -/
def Works (work : σ → Nat) (reason : Prop) (state next : σ) : Prop :=
  (next = state ∧ reason) ∨ work next < work state

namespace Works

variable {work : σ → Nat} {reason : Prop} {state next : σ}

theorem le (works : Works work reason state next) : work next ≤ work state := by
  rcases works with ⟨rfl, -⟩ | less
  · exact Nat.le_refl _
  · exact Nat.le_of_lt less

theorem trans {reason' : Prop} {last : σ} (works : Works work reason state next)
    (works' : Works work reason' next last) :
    Works work (next = state ∧ reason ∧ reason') state last := by
  rcases works with ⟨rfl, holds⟩ | less
  · exact works'.imp (fun stays => ⟨stays.1, rfl, holds, stays.2⟩) id
  · exact Or.inr (Nat.lt_of_le_of_lt works'.le less)

theorem still (works : Works work reason state next) (none_ : work state ≤ work next) :
    next = state ∧ reason :=
  works.resolve_right (Nat.not_lt.mpr none_)

end Works

namespace Machine

/-- A program whose steps may fail, and that does nothing after a failure. -/
def failing (reset : σ) (step : σ → ι → Option σ) : Machine (Option σ) ι where
  reset := some reset
  step state input := state.bind fun state => step state input

section Failing

variable {reset state : σ} {step : σ → ι → Option σ} {allowed : ι → Prop} {inputs : List ι}

/-- The invariant rule for a program whose steps may fail, from any state. -/
theorem failing_runFrom (Invariant : σ → Prop)
    (preserved : ∀ state input, Invariant state → allowed input →
      ∃ next, step state input = some next ∧ Invariant next)
    (initial : Invariant state) (admitted : ∀ input ∈ inputs, allowed input) :
    ∃ next, (failing reset step).runFrom (some state) inputs = some next ∧ Invariant next := by
  induction inputs generalizing state with
  | nil => exact ⟨state, rfl, initial⟩
  | cons input inputs inductionHypothesis =>
    rw [List.forall_mem_cons] at admitted
    obtain ⟨next, stepped, holds⟩ := preserved state input initial admitted.1
    obtain ⟨final, run, finally_⟩ := inductionHypothesis holds admitted.2
    refine ⟨final, ?_, finally_⟩
    rw [← run, ← stepped]
    rfl

/-- Where no step makes work and some kinds of steps do a part of it, a run with enough of these
    leaves none. -/
theorem failing_runFrom_work (Invariant : σ → Prop) (work : σ → Nat) (counts : ι → Bool)
    (preserved : ∀ state input, Invariant state → allowed input →
      ∃ next, step state input = some next ∧ Invariant next ∧
        work next ≤ work state - (counts input).toNat)
    (initial : Invariant state) (admitted : ∀ input ∈ inputs, allowed input) :
    ∃ next, (failing reset step).runFrom (some state) inputs = some next ∧ Invariant next ∧
      work next ≤ work state - inputs.countP counts := by
  induction inputs generalizing state with
  | nil => exact ⟨state, rfl, initial, Nat.le_refl _⟩
  | cons input inputs inductionHypothesis =>
    rw [List.forall_mem_cons] at admitted
    obtain ⟨next, stepped, holds, less⟩ := preserved state input initial admitted.1
    obtain ⟨final, run, finally_, left⟩ := inductionHypothesis holds admitted.2
    refine ⟨final, ?_, finally_, ?_⟩
    · rw [← run, ← stepped]
      rfl
    · rw [List.countP_cons]
      cases counted : counts input <;> simp [counted] at less ⊢ <;> omega

theorem failing_run (Invariant : σ → Prop) (initial : Invariant reset)
    (preserved : ∀ state input, Invariant state → allowed input →
      ∃ next, step state input = some next ∧ Invariant next)
    (admitted : ∀ input ∈ inputs, allowed input) :
    ∃ state, (failing reset step).run inputs = some state ∧ Invariant state :=
  failing_runFrom Invariant preserved initial admitted

/-- A program that fails stays failed. -/
theorem failing_runFrom_none (inputs : List ι) :
    (failing reset step).runFrom none inputs = none := by
  induction inputs with
  | nil => rfl
  | cons input inputs inductionHypothesis => exact inductionHypothesis

/-- Where an invariant says which steps fail, a run ends, and with the invariant, exactly when it has
    none of these. -/
theorem failing_runFrom_iff (reset : σ) (Invariant : σ → Prop) (good : σ → ι → Prop)
    (goes : ∀ state input, Invariant state → allowed input → good state input →
      ∃ next, step state input = some next ∧ Invariant next)
    (fails : ∀ state input, Invariant state → allowed input → ¬good state input →
      step state input = none)
    (initial : Invariant state) (admitted : ∀ input ∈ inputs, allowed input) :
    ((∃ next, (failing reset step).runFrom (some state) inputs = some next) ↔
      (failing reset step).AdmitsFrom (fun state input => ∀ here ∈ state, good here input)
        (some state) inputs) ∧
    ∀ next, (failing reset step).runFrom (some state) inputs = some next → Invariant next := by
  induction inputs generalizing state with
  | nil =>
    refine ⟨⟨fun _ => trivial, fun _ => ⟨state, rfl⟩⟩, fun next run => ?_⟩
    rwa [← Option.some.inj run]
  | cons input inputs inductionHypothesis =>
    rw [List.forall_mem_cons] at admitted
    show ((∃ next, (failing reset step).runFrom (step state input) inputs = some next) ↔
      (∀ here ∈ some state, good here input) ∧
        (failing reset step).AdmitsFrom _ (step state input) inputs) ∧
      ∀ next, (failing reset step).runFrom (step state input) inputs = some next → _
    -- a step that is not good ends the run, and none of what follows matters
    by_cases fine : good state input
    · obtain ⟨next, stepped, holds⟩ := goes state input initial admitted.1 fine
      have here : ∀ here ∈ some state, good here input := by
        intro here same
        rwa [← Option.some.inj same]
      obtain ⟨ends, keeps⟩ := inductionHypothesis holds admitted.2
      rw [stepped]
      exact ⟨ends.trans ⟨fun rest => ⟨here, rest⟩, fun all => all.2⟩, keeps⟩
    · rw [fails state input initial admitted.1 fine, failing_runFrom_none]
      refine ⟨⟨?_, ?_⟩, fun next gone => nomatch gone⟩
      · rintro ⟨next, gone⟩
        cases gone
      · rintro ⟨here, -⟩
        exact absurd (here state rfl) fine

/-- A run goes on from where it has led. -/
theorem failing_run_append {more : List ι} (run : (failing reset step).run inputs = some state) :
    (failing reset step).run (inputs ++ more) =
      (failing reset step).runFrom (some state) more := by
  rw [← run, Machine.run, Machine.run, runFrom, runFrom, runFrom, List.foldl_append]

end Failing

end Machine

end Pspin.Clocked
