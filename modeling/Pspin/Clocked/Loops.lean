import Mathlib.Algebra.BigOperators.Fin

/-! # Counted loops

A loop over the numbers below a bound, one turn at a time, and the sums such a loop makes.
-/

namespace Pspin.Clocked

/-- The next turn of a loop, or what follows it. -/
def nextTurn {n : Nat} {α : Type*} (i : Fin n) (turn : Fin n → α) (exit : α) : α :=
  if inside : i.val + 1 < n then turn ⟨i.val + 1, inside⟩ else exit

variable {n : Nat} {α M : Type*} {turn : Fin n → α} {exit : α} {i : Fin n} [AddCommMonoid M]
  (f : Fin n → M)

theorem nextTurn_turn (inside : i.val + 1 < n) : nextTurn i turn exit = turn ⟨i.val + 1, inside⟩ :=
  dif_pos inside

theorem nextTurn_exit (last : ¬i.val + 1 < n) : nextTurn i turn exit = exit :=
  dif_neg last

/-- Up to the next turn is up to this one and this one. -/
theorem lt_next_iff (inside : i.val + 1 < n) {j : Fin n} :
    j < (⟨i.val + 1, inside⟩ : Fin n) ↔ j = i ∨ j < i :=
  Nat.lt_succ_iff.trans (le_iff_eq_or_lt (a := j) (b := i))

/-- The last turn and those before it are all there are. -/
theorem eq_or_lt_last (last : ¬i.val + 1 < n) (j : Fin n) : j = i ∨ j < i := by
  have bound := j.isLt
  have upTo : j ≤ i := Fin.mk_le_mk.mpr (by omega)
  exact eq_or_lt_of_le upTo

/-- One more turn of a sum. -/
theorem sum_lt_next (inside : i.val + 1 < n) :
    ∑ j with j < (⟨i.val + 1, inside⟩ : Fin n), f j = (∑ j with j < i, f j) + f i := by
  have next : Finset.univ.filter (· < (⟨i.val + 1, inside⟩ : Fin n)) =
      insert i (Finset.univ.filter (· < i)) := by
    ext j
    simp only [Finset.mem_filter_univ, Finset.mem_insert]
    exact lt_next_iff inside
  rw [next, Finset.sum_insert (by simp), add_comm]

/-- The last turn of a sum. -/
theorem sum_lt_last (last : ¬i.val + 1 < n) : ∑ j, f j = (∑ j with j < i, f j) + f i := by
  have all : (Finset.univ : Finset (Fin n)) = insert i (Finset.univ.filter (· < i)) := by
    ext j
    simpa using eq_or_lt_last last j
  calc ∑ j, f j = ∑ j ∈ insert i (Finset.univ.filter (· < i)), f j := by rw [← all]
    _ = (∑ j with j < i, f j) + f i := by rw [Finset.sum_insert (by simp), add_comm]

end Pspin.Clocked
