import Mathlib.Data.List.Basic

/-! # Selected entries

The places of the entries that a predicate selects, among all entries of a list and among the selected
ones: an entry is selected as the one that so many selected entries come before.
-/

namespace Pspin.Clocked

variable {α : Type*} {entries : List α} {p : α → Bool} {n : Nat} {entry : α}

/-- An entry of a list, with what comes before and behind it. -/
theorem exists_split (isHere : entries[n]? = some entry) :
    ∃ front back, entries = front ++ entry :: back ∧ front.length = n := by
  obtain ⟨inside, rfl⟩ := List.getElem?_eq_some_iff.mp isHere
  refine ⟨entries.take n, entries.drop (n + 1), ?_, ?_⟩
  · rw [← List.drop_eq_getElem_cons inside, List.take_append_drop]
  · rw [List.length_take]
    omega

/-- The place of a selected entry among the selected ones. -/
theorem filter_countP (isHere : entries[n]? = some entry) (selected : p entry = true) :
    (entries.filter p)[(entries.take n).countP p]? = some entry := by
  obtain ⟨front, back, rfl, rfl⟩ := exists_split isHere
  rw [List.take_left, List.filter_append, List.filter_cons_of_pos selected,
    List.countP_eq_length_filter, List.getElem?_append_right (Nat.le_refl _), Nat.sub_self,
    List.getElem?_cons_zero]

/-- The place of a selected entry among all entries. -/
theorem exists_of_filter {count : Nat} (isHere : (entries.filter p)[count]? = some entry) :
    ∃ n, entries[n]? = some entry ∧ (entries.take n).countP p = count := by
  induction entries generalizing count with
  | nil => cases isHere
  | cons first entries inductionHypothesis =>
    by_cases selected : p first = true
    · rw [List.filter_cons_of_pos selected] at isHere
      cases count with
      | zero => exact ⟨0, isHere, rfl⟩
      | succ count =>
        obtain ⟨n, isEntry, counted⟩ := inductionHypothesis isHere
        exact ⟨n + 1, isEntry, by rw [List.take_succ_cons, List.countP_cons_of_pos selected, counted]⟩
    · rw [List.filter_cons_of_neg selected] at isHere
      obtain ⟨n, isEntry, counted⟩ := inductionHypothesis isHere
      exact ⟨n + 1, isEntry, by rw [List.take_succ_cons, List.countP_cons_of_neg selected, counted]⟩

/-- An entry that fewer selected entries come before comes before. -/
theorem lt_of_countP_lt {m : Nat} (fewer : (entries.take m).countP p < (entries.take n).countP p) :
    m < n := by
  by_contra later
  have more : (entries.take n).countP p ≤ (entries.take m).countP p :=
    List.Sublist.countP_le (List.take_sublist_take_left (Nat.not_lt.mp later))
  omega

end Pspin.Clocked
