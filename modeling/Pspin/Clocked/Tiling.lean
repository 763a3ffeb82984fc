import Pspin.Clocked.Regions

/-! # Tilings

Regions that follow one another without a gap tile the indices from a start to
an end.  A tiling grows at its end and is used up at its start, as a ring buffer
does between its head and its tail.
-/

namespace Pspin.Clocked

/-- The regions follow one another from the first bound to the second. -/
def Tiles : Nat → List Region → Nat → Prop
  | first, [], last => first = last
  | first, region :: regions, last =>
    region.start = first ∧ Tiles (first + region.size) regions last

namespace Tiles

variable {first last : Nat} {region : Region} {regions : List Region}

theorem le (tiles : Tiles first regions last) : first ≤ last := by
  induction regions generalizing first with
  | nil => exact Nat.le_of_eq tiles
  | cons head regions inductionHypothesis =>
    exact Nat.le_trans (Nat.le_add_right _ _) (inductionHypothesis tiles.2)

/-- A region joins at the end. -/
theorem concat (tiles : Tiles first regions last) (starts : region.start = last) :
    Tiles first (regions ++ [region]) (last + region.size) := by
  induction regions generalizing first with
  | nil =>
    obtain rfl : first = last := tiles
    exact ⟨starts, rfl⟩
  | cons head regions inductionHypothesis => exact ⟨tiles.1, inductionHypothesis tiles.2⟩

theorem inside (tiles : Tiles first regions last) (member : region ∈ regions) :
    first ≤ region.start ∧ region.start + region.size ≤ last := by
  induction regions generalizing first with
  | nil => cases member
  | cons head regions inductionHypothesis =>
    have rest := tiles.2.le
    cases member with
    | head => exact ⟨Nat.le_of_eq tiles.1.symm, tiles.1 ▸ rest⟩
    | tail _ member =>
      have later := inductionHypothesis tiles.2 member
      exact ⟨Nat.le_trans (Nat.le_add_right _ _) later.1, later.2⟩

/-- Regions that end where the others start are apart from them. -/
theorem apart_of_le {other : Region} (before : region.start + region.size ≤ other.start) :
    region.Apart other :=
  fun i inRegion inOther => by
    have below := inRegion.2
    have above := inOther.1
    omega

theorem pairwise_apart (tiles : Tiles first regions last) : regions.Pairwise Region.Apart := by
  induction regions generalizing first with
  | nil => exact .nil
  | cons head regions inductionHypothesis =>
    refine .cons (fun other member => apart_of_le ?_) (inductionHypothesis tiles.2)
    rw [tiles.1]
    exact (tiles.2.inside member).1

/-- Regions that are not empty are at most as many as the indices they tile. -/
theorem length_le (tiles : Tiles first regions last)
    (nonempty : ∀ region ∈ regions, 0 < region.size) : first + regions.length ≤ last := by
  induction regions generalizing first with
  | nil => exact Nat.le_of_eq tiles
  | cons head regions inductionHypothesis =>
    have rest := inductionHypothesis tiles.2 fun region member =>
      nonempty region (List.mem_cons_of_mem _ member)
    have size := nonempty head List.mem_cons_self
    rw [List.length_cons]
    omega

theorem eq_nil (tiles : Tiles first regions first)
    (nonempty : ∀ region ∈ regions, 0 < region.size) : regions = [] := by
  have few := tiles.length_le nonempty
  exact List.eq_nil_of_length_eq_zero (by omega)

/-- The region that starts where the tiling does is its first one. -/
theorem eq_cons (tiles : Tiles first regions last)
    (nonempty : ∀ region ∈ regions, 0 < region.size) (member : region ∈ regions)
    (starts : region.start = first) :
    ∃ rest, regions = region :: rest ∧ Tiles (first + region.size) rest last := by
  cases regions with
  | nil => cases member
  | cons head regions =>
    cases member with
    | head => exact ⟨regions, rfl, tiles.2⟩
    | tail _ member =>
      have later := (tiles.2.inside member).1
      have size := nonempty head List.mem_cons_self
      omega

end Tiles

end Pspin.Clocked
