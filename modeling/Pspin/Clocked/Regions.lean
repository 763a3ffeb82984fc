import Mathlib.Data.List.Perm.Basic
import Mathlib.Data.List.Pairwise

/-! # Regions and the bitmap that marks them

A region is a run of indices.  A bitmap marks a list of regions when exactly the
indices in one of them are set.  Regions that do not overlap are added to and
taken from the list by inverting their part of the bitmap.
-/

namespace Pspin.Clocked

structure Region where
  start : Nat
  size : Nat
deriving DecidableEq, Repr

namespace Region

def Contains (region : Region) (i : Nat) : Prop :=
  region.start ≤ i ∧ i < region.start + region.size

instance (region : Region) (i : Nat) : Decidable (region.Contains i) :=
  inferInstanceAs (Decidable (_ ∧ _))

theorem decide_contains (region : Region) (i : Nat) : decide (region.Contains i) =
    (decide (region.start ≤ i) && decide (i < region.start + region.size)) := by
  rw [Bool.eq_iff_iff, decide_eq_true_eq, Bool.and_eq_true, decide_eq_true_eq, decide_eq_true_eq]
  rfl

/-- No index is in both. -/
def Apart (first second : Region) : Prop := ∀ i, first.Contains i → ¬second.Contains i

theorem Apart.symm {first second : Region} (apart : first.Apart second) : second.Apart first :=
  fun i inSecond inFirst => apart i inFirst inSecond

end Region

/-- Regions below a bound, not empty and apart, marked by a bitmap. -/
structure Layout (bound : Nat) (bitmap : Nat → Bool) (regions : List Region) : Prop where
  nonempty : ∀ region ∈ regions, 0 < region.size
  inside : ∀ region ∈ regions, region.start + region.size ≤ bound
  apart : regions.Pairwise Region.Apart
  marks : ∀ i < bound, bitmap i = true ↔ ∃ region ∈ regions, region.Contains i

namespace Layout

variable {bound : Nat} {bitmap bitmap' : Nat → Bool} {region : Region} {regions regions' : List Region}

theorem empty (unset : ∀ i < bound, bitmap i = false) : Layout bound bitmap [] where
  nonempty _ member := by cases member
  inside _ member := by cases member
  apart := .nil
  marks i below := by simp [unset i below]

theorem perm (layout : Layout bound bitmap regions) (same : regions.Perm regions') :
    Layout bound bitmap regions' where
  nonempty region member := layout.nonempty region (same.mem_iff.mpr member)
  inside region member := layout.inside region (same.mem_iff.mpr member)
  apart := (same.pairwise_iff Region.Apart.symm).mp layout.apart
  marks i below := by
    rw [layout.marks i below]
    simp only [same.mem_iff]

/-- A free region joins. -/
theorem add (layout : Layout bound bitmap regions) (nonempty : 0 < region.size)
    (inside : region.start + region.size ≤ bound)
    (free : ∀ i, region.Contains i → bitmap i = false)
    (toggles : ∀ i < bound, bitmap' i = Bool.xor (bitmap i) (decide (region.Contains i))) :
    Layout bound bitmap' (region :: regions) where
  nonempty := by
    simp only [List.mem_cons, forall_eq_or_imp]
    exact ⟨nonempty, layout.nonempty⟩
  inside := by
    simp only [List.mem_cons, forall_eq_or_imp]
    exact ⟨inside, layout.inside⟩
  apart := by
    refine List.pairwise_cons.mpr ⟨fun other member i inRegion inOther => ?_, layout.apart⟩
    have below : i < bound := Nat.lt_of_lt_of_le inRegion.2 inside
    have set := (layout.marks i below).mpr ⟨other, member, inOther⟩
    rw [free i inRegion] at set
    cases set
  marks i below := by
    rw [toggles i below]
    by_cases inRegion : region.Contains i
    · simp [inRegion, free i inRegion]
    · simp [inRegion, layout.marks i below]

/-- The region at the front leaves. -/
theorem remove (layout : Layout bound bitmap (region :: regions))
    (toggles : ∀ i < bound, bitmap' i = Bool.xor (bitmap i) (decide (region.Contains i))) :
    Layout bound bitmap' regions where
  nonempty other member := layout.nonempty other (List.mem_cons_of_mem _ member)
  inside other member := layout.inside other (List.mem_cons_of_mem _ member)
  apart := layout.apart.of_cons
  marks i below := by
    rw [toggles i below]
    by_cases inRegion : region.Contains i
    · have set : bitmap i = true := (layout.marks i below).mpr ⟨region, by simp, inRegion⟩
      simp only [set, inRegion, decide_true, Bool.xor_self, Bool.false_eq_true, false_iff,
        not_exists, not_and]
      exact fun other member => (List.pairwise_cons.mp layout.apart).1 other member i inRegion
    · simp [inRegion, layout.marks i below]

/-- Toggling a region of no indices changes nothing. -/
theorem congr (layout : Layout bound bitmap regions) (same : ∀ i < bound, bitmap' i = bitmap i) :
    Layout bound bitmap' regions where
  nonempty := layout.nonempty
  inside := layout.inside
  apart := layout.apart
  marks i below := by rw [same i below, layout.marks i below]

end Layout

end Pspin.Clocked
