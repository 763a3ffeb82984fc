import Mathlib.Data.List.Basic

/-! # Clocked machines

A synchronous circuit is a reset state and what one clock edge makes of the
state and of the inputs of that cycle.  This module fixes what a run is, what it
means that a run keeps to a rule on its inputs, and the rule everything else is
proved with: an invariant of the step is an invariant of every admitted run.

An observer is a second machine that only looks at the first one.  It records
what crossed the interface, so that a law about a whole run is a law about one
state of the observed machine.
-/

namespace Pspin.Clocked

universe u v w

/-- A reset state and the effect of one clock edge. -/
structure Machine (σ : Type u) (ι : Type v) where
  reset : σ
  step : σ → ι → σ

namespace Machine

variable {σ : Type u} {ι : Type v} {τ : Type w}

/-- The state after a list of cycles. -/
def runFrom (machine : Machine σ ι) (state : σ) (inputs : List ι) : σ :=
  inputs.foldl machine.step state

/-- The state a list of cycles leads to from reset. -/
def run (machine : Machine σ ι) (inputs : List ι) : σ :=
  machine.runFrom machine.reset inputs

theorem runFrom_append_cons (machine : Machine σ ι) (state : σ) (before after : List ι)
    (input : ι) : machine.runFrom state (before ++ input :: after) =
      machine.runFrom (machine.step (machine.runFrom state before) input) after := by
  rw [runFrom, List.foldl_append]
  rfl

theorem run_concat (machine : Machine σ ι) (inputs : List ι) (input : ι) :
    machine.run (inputs ++ [input]) = machine.step (machine.run inputs) input := by
  rw [run, runFrom, List.foldl_append]
  rfl

/-- Every cycle's input is allowed in the state that meets it. -/
def AdmitsFrom (machine : Machine σ ι) (allowed : σ → ι → Prop) : σ → List ι → Prop
  | _, [] => True
  | state, input :: inputs =>
    allowed state input ∧ machine.AdmitsFrom allowed (machine.step state input) inputs

/-- A run from reset whose every input is allowed in the state that meets it. -/
def Admits (machine : Machine σ ι) (allowed : σ → ι → Prop) (inputs : List ι) : Prop :=
  machine.AdmitsFrom allowed machine.reset inputs

instance decidableAdmitsFrom (machine : Machine σ ι) (allowed : σ → ι → Prop)
    [∀ state input, Decidable (allowed state input)] :
    ∀ state inputs, Decidable (machine.AdmitsFrom allowed state inputs)
  | _, [] => isTrue trivial
  | state, input :: inputs =>
    have := decidableAdmitsFrom machine allowed (machine.step state input) inputs
    inferInstanceAs (Decidable (allowed state input ∧
      machine.AdmitsFrom allowed (machine.step state input) inputs))

instance (machine : Machine σ ι) (allowed : σ → ι → Prop)
    [∀ state input, Decidable (allowed state input)] (inputs : List ι) :
    Decidable (machine.Admits allowed inputs) :=
  decidableAdmitsFrom machine allowed machine.reset inputs

/-! ## Admitted runs -/

section Admitted

variable {machine : Machine σ ι} {allowed allowed' : σ → ι → Prop}

theorem AdmitsFrom.mono (weaker : ∀ state input, allowed state input → allowed' state input)
    {state : σ} {inputs : List ι} (admitted : machine.AdmitsFrom allowed state inputs) :
    machine.AdmitsFrom allowed' state inputs := by
  induction inputs generalizing state with
  | nil => trivial
  | cons input inputs inductionHypothesis =>
    exact ⟨weaker state input admitted.1, inductionHypothesis admitted.2⟩

theorem Admits.mono (weaker : ∀ state input, allowed state input → allowed' state input)
    {inputs : List ι} (admitted : machine.Admits allowed inputs) :
    machine.Admits allowed' inputs :=
  AdmitsFrom.mono weaker admitted

/-- A run is admitted when each of its inputs is allowed where the inputs before it lead. -/
theorem admitsFrom_iff {state : σ} {inputs : List ι} :
    machine.AdmitsFrom allowed state inputs ↔ ∀ before input after,
      inputs = before ++ input :: after → allowed (machine.runFrom state before) input := by
  induction inputs generalizing state with
  | nil => simp [AdmitsFrom]
  | cons first inputs inductionHypothesis =>
    rw [AdmitsFrom, inductionHypothesis]
    constructor
    · rintro ⟨now, later⟩ before input after split
      cases before with
      | nil =>
        obtain ⟨rfl, -⟩ := List.cons.inj split
        exact now
      | cons head before =>
        obtain ⟨rfl, splitRest⟩ := List.cons.inj split
        exact later before input after splitRest
    · intro each
      refine ⟨each [] first inputs rfl, fun before input after split => ?_⟩
      exact each (first :: before) input after (by rw [split, List.cons_append])

/-- A rule that forbids nothing admits every run. -/
theorem admits_true (machine : Machine σ ι) (inputs : List ι) :
    machine.Admits (fun _ _ => True) inputs :=
  admitsFrom_iff.mpr fun _ _ _ _ => trivial

theorem AdmitsFrom.of_append {state : σ} {before after : List ι}
    (admitted : machine.AdmitsFrom allowed state (before ++ after)) :
    machine.AdmitsFrom allowed state before := by
  refine admitsFrom_iff.mpr fun first input rest split => ?_
  exact admitsFrom_iff.mp admitted first input (rest ++ after) (by rw [split, List.append_assoc,
    List.cons_append])

/-- What starts an admitted run is an admitted run. -/
theorem Admits.of_append {before after : List ι}
    (admitted : machine.Admits allowed (before ++ after)) : machine.Admits allowed before :=
  AdmitsFrom.of_append admitted

theorem AdmitsFrom.and {state : σ} {inputs : List ι}
    (admitted : machine.AdmitsFrom allowed state inputs)
    (admitted' : machine.AdmitsFrom allowed' state inputs) :
    machine.AdmitsFrom (fun state input => allowed state input ∧ allowed' state input) state
      inputs := by
  induction inputs generalizing state with
  | nil => trivial
  | cons input inputs inductionHypothesis =>
    exact ⟨⟨admitted.1, admitted'.1⟩, inductionHypothesis admitted.2 admitted'.2⟩

/-- An admitted run goes on from any point as one admitted from there. -/
theorem Admits.after {before after : List ι} {input : ι}
    (admitted : machine.Admits allowed (before ++ input :: after)) :
    allowed (machine.run before) input ∧
      machine.AdmitsFrom allowed (machine.step (machine.run before) input) after := by
  have split := admitsFrom_iff.mp admitted
  refine ⟨split before input after rfl, admitsFrom_iff.mpr fun first next rest same => ?_⟩
  have here := split (before ++ input :: first) next rest (by rw [same]; simp)
  rwa [runFrom_append_cons] at here

/-- Two rules kept to at once. -/
theorem Admits.and {inputs : List ι} (admitted : machine.Admits allowed inputs)
    (admitted' : machine.Admits allowed' inputs) :
    machine.Admits (fun state input => allowed state input ∧ allowed' state input) inputs :=
  AdmitsFrom.and admitted admitted'

/-- The invariant rule, from any state. -/
theorem AdmitsFrom.invariant (Invariant : σ → Prop)
    (preserved : ∀ state input, Invariant state → allowed state input →
      Invariant (machine.step state input))
    {state : σ} {inputs : List ι} (initial : Invariant state)
    (admitted : machine.AdmitsFrom allowed state inputs) :
    Invariant (machine.runFrom state inputs) := by
  induction inputs generalizing state with
  | nil => exact initial
  | cons input inputs inductionHypothesis =>
    exact inductionHypothesis (preserved state input initial admitted.1) admitted.2

/-- The invariant rule: what holds at reset and survives every allowed step
    holds after every admitted run. -/
theorem Admits.invariant {inputs : List ι} (admitted : machine.Admits allowed inputs)
    (Invariant : σ → Prop) (initial : Invariant machine.reset)
    (preserved : ∀ state input, Invariant state → allowed state input →
      Invariant (machine.step state input)) :
    Invariant (machine.run inputs) :=
  AdmitsFrom.invariant Invariant preserved initial admitted

theorem AdmitsFrom.invariantOf (Invariant : List ι → σ → Prop)
    (preserved : ∀ past state input, Invariant past state → allowed state input →
      Invariant (past ++ [input]) (machine.step state input))
    {past : List ι} {state : σ} {inputs : List ι} (initial : Invariant past state)
    (admitted : machine.AdmitsFrom allowed state inputs) :
    Invariant (past ++ inputs) (machine.runFrom state inputs) := by
  induction inputs generalizing past state with
  | nil => exact (List.append_nil past).symm ▸ initial
  | cons input inputs inductionHypothesis =>
    have next := inductionHypothesis (preserved past state input initial admitted.1) admitted.2
    rwa [List.append_assoc] at next

/-- The invariant rule for invariants that know the inputs so far. -/
theorem Admits.invariantOf {inputs : List ι} (admitted : machine.Admits allowed inputs)
    (Invariant : List ι → σ → Prop) (initial : Invariant [] machine.reset)
    (preserved : ∀ past state input, Invariant past state → allowed state input →
      Invariant (past ++ [input]) (machine.step state input)) :
    Invariant inputs (machine.run inputs) :=
  AdmitsFrom.invariantOf Invariant preserved initial admitted

/-- The simulation rule: two machines that are related at reset and by every allowed step
    are related after every admitted run. -/
theorem Admits.simulates {inputs : List ι} (admitted : machine.Admits allowed inputs)
    {abstract : Machine τ ι} (Related : σ → τ → Prop)
    (initial : Related machine.reset abstract.reset)
    (preserved : ∀ state shadow input, Related state shadow → allowed state input →
      Related (machine.step state input) (abstract.step shadow input)) :
    Related (machine.run inputs) (abstract.run inputs) := by
  suffices follows : ∀ state shadow, Related state shadow → machine.AdmitsFrom allowed state inputs →
      Related (machine.runFrom state inputs) (abstract.runFrom shadow inputs) from
    follows _ _ initial admitted
  clear admitted
  induction inputs with
  | nil => exact fun state shadow related _ => related
  | cons input inputs inductionHypothesis =>
    intro state shadow related now
    exact inductionHypothesis _ _ (preserved state shadow input related now.1) now.2

theorem AdmitsFrom.congr {rule rule' : σ → ι → Prop} (Invariant : σ → Prop)
    (agree : ∀ state input, Invariant state → allowed state input →
      (rule state input ↔ rule' state input))
    (preserved : ∀ state input, Invariant state → allowed state input → rule' state input →
      Invariant (machine.step state input))
    {state : σ} {inputs : List ι} (initial : Invariant state)
    (admitted : machine.AdmitsFrom allowed state inputs) :
    machine.AdmitsFrom rule state inputs ↔ machine.AdmitsFrom rule' state inputs := by
  induction inputs generalizing state with
  | nil => rfl
  | cons input inputs inductionHypothesis =>
    have here := agree state input initial admitted.1
    rw [AdmitsFrom, AdmitsFrom, here]
    refine and_congr_right fun holds => ?_
    exact inductionHypothesis (preserved state input initial admitted.1 holds) admitted.2

/-- Two rules that agree wherever an invariant holds admit the same runs, if keeping to
    one of them keeps the invariant. -/
theorem Admits.congr {rule rule' : σ → ι → Prop} {inputs : List ι}
    (admitted : machine.Admits allowed inputs) (Invariant : σ → Prop)
    (initial : Invariant machine.reset)
    (agree : ∀ state input, Invariant state → allowed state input →
      (rule state input ↔ rule' state input))
    (preserved : ∀ state input, Invariant state → allowed state input → rule' state input →
      Invariant (machine.step state input)) :
    machine.Admits rule inputs ↔ machine.Admits rule' inputs :=
  AdmitsFrom.congr Invariant agree preserved initial admitted

end Admitted

/-! ## Counting cycles -/

/-- How many cycles of a run have some property. -/
def countFrom (machine : Machine σ ι) (counts : σ → ι → Bool) : σ → List ι → Nat
  | _, [] => 0
  | state, input :: inputs =>
    (counts state input).toNat + machine.countFrom counts (machine.step state input) inputs

/-- The same from reset. -/
def count (machine : Machine σ ι) (counts : σ → ι → Bool) (inputs : List ι) : Nat :=
  machine.countFrom counts machine.reset inputs

section Work

variable {machine : Machine σ ι} {allowed : σ → ι → Prop} {counts : σ → ι → Bool}

theorem AdmitsFrom.work (Invariant : σ → Prop) (work given : σ → Nat)
    (preserved : ∀ state input, Invariant state → allowed state input →
      Invariant (machine.step state input))
    (pays : ∀ state input, Invariant state → allowed state input →
      (counts state input).toNat + work (machine.step state input) + given state ≤
        work state + given (machine.step state input))
    {state : σ} {inputs : List ι} (initial : Invariant state)
    (admitted : machine.AdmitsFrom allowed state inputs) :
    machine.countFrom counts state inputs + work (machine.runFrom state inputs) + given state ≤
      work state + given (machine.runFrom state inputs) := by
  induction inputs generalizing state with
  | nil => exact Nat.le_of_eq (by rw [countFrom, Nat.zero_add]; rfl)
  | cons input inputs inductionHypothesis =>
    have now := pays state input initial admitted.1
    have later := inductionHypothesis (preserved state input initial admitted.1) admitted.2
    rw [countFrom]
    change _ + _ + work (machine.runFrom (machine.step state input) inputs) + _ ≤
      _ + given (machine.runFrom (machine.step state input) inputs)
    omega

/-- The rule for progress: if each cycle that counts takes something off the work, and work is
    added only with what is given, then no more cycles count than work was given. -/
theorem Admits.count_le {inputs : List ι} (admitted : machine.Admits allowed inputs)
    (Invariant : σ → Prop) (work given : σ → Nat) (initial : Invariant machine.reset)
    (idle : work machine.reset = 0)
    (preserved : ∀ state input, Invariant state → allowed state input →
      Invariant (machine.step state input))
    (pays : ∀ state input, Invariant state → allowed state input →
      (counts state input).toNat + work (machine.step state input) + given state ≤
        work state + given (machine.step state input)) :
    machine.count counts inputs ≤ given (machine.run inputs) := by
  have total := AdmitsFrom.work Invariant work given preserved pays initial admitted
  rw [idle] at total
  change machine.count counts inputs + _ + _ ≤ _ + given (machine.run inputs) at total
  omega

end Work

/-! ## Runs with a purpose

Inputs lead from one condition to another if they are an admitted run from every state in which
the first one holds, and the second one holds after it.
-/

def Leads (machine : Machine σ ι) (allowed : σ → ι → Prop) (inputs : List ι) (P Q : σ → Prop) : Prop :=
  ∀ state, P state → machine.AdmitsFrom allowed state inputs ∧ Q (machine.runFrom state inputs)

namespace Leads

variable {machine : Machine σ ι} {allowed : σ → ι → Prop} {P Q R : σ → Prop}
  {before after block : List ι}

theorem nil (weaker : ∀ state, P state → Q state) : machine.Leads allowed [] P Q :=
  fun state holds => ⟨trivial, weaker state holds⟩

theorem cons {input : ι} {inputs : List ι}
    (now : ∀ state, P state → allowed state input ∧ Q (machine.step state input))
    (later : machine.Leads allowed inputs Q R) : machine.Leads allowed (input :: inputs) P R := by
  intro state holds
  obtain ⟨admitted, reached⟩ := later _ (now state holds).2
  exact ⟨⟨(now state holds).1, admitted⟩, reached⟩

theorem append (first : machine.Leads allowed before P Q) (second : machine.Leads allowed after Q R) :
    machine.Leads allowed (before ++ after) P R := by
  induction before generalizing P with
  | nil => exact fun state holds => second state (first state holds).2
  | cons input before inductionHypothesis =>
    intro state holds
    have rest : machine.Leads allowed before (· = machine.step state input) Q := by
      rintro _ rfl
      exact ⟨(first state holds).1.2, (first state holds).2⟩
    obtain ⟨admitted, reached⟩ := inductionHypothesis rest _ rfl
    exact ⟨⟨(first state holds).1.1, admitted⟩, reached⟩

/-- The rule for loops: what one turn does for its number, all turns do for theirs. -/
theorem turns {P : Nat → σ → Prop}
    (turn : ∀ done, machine.Leads allowed block (P done) (P (done + 1))) (count : Nat) :
    machine.Leads allowed (List.replicate count block).flatten (P 0) (P count) := by
  induction count with
  | zero => exact nil fun _ => id
  | succ count inductionHypothesis =>
    rw [List.replicate_succ', List.flatten_concat]
    exact inductionHypothesis.append (turn count)

end Leads

/-! ## Observers -/

/-- A machine together with an observer of it: the observer sees the state and
    the inputs of each cycle and the machine never sees the observer. -/
def observedBy (machine : Machine σ ι) (initial : τ) (record : σ → τ → ι → τ) :
    Machine (σ × τ) ι where
  reset := (machine.reset, initial)
  step state input := (machine.step state.1 input, record state.1 state.2 input)

section Observed

variable (machine : Machine σ ι) (initial : τ) (record : σ → τ → ι → τ)

@[simp] theorem observedBy_reset :
    (machine.observedBy initial record).reset = (machine.reset, initial) := rfl

@[simp] theorem observedBy_step (state : σ × τ) (input : ι) :
    (machine.observedBy initial record).step state input =
      (machine.step state.1 input, record state.1 state.2 input) := rfl

end Observed

end Machine

end Pspin.Clocked
