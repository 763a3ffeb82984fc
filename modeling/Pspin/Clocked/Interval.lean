import Mathlib

/-! # Sets of integers as lists of intervals

A list of intervals is normal when they are in order and no two of them touch.
Such a list is the only one of its set: its intervals are the maximal runs of the
set, and the first interval is the first run.
-/

namespace Pspin.Clocked

/-- The integers from `left` to `right`. -/
structure Interval where
  left : Int
  right : Int
deriving DecidableEq, Inhabited, Repr

namespace Interval

def toSet (interval : Interval) : Set Int := Set.Icc interval.left interval.right

@[simp] theorem mem_toSet {interval : Interval} {x : Int} :
    x ∈ interval.toSet ↔ interval.left ≤ x ∧ x ≤ interval.right := Iff.rfl

/-- Two intervals next to each other are one. -/
theorem toSet_join {first second : Interval} (nonempty : first.left ≤ first.right)
    (nonempty' : second.left ≤ second.right) (next : first.right + 1 = second.left) :
    (⟨first.left, second.right⟩ : Interval).toSet = first.toSet ∪ second.toSet := by
  ext x
  simp only [Set.mem_union, mem_toSet]
  omega

/-- An interval that fills the gap between two others makes one of the three. -/
theorem toSet_bridge {first middle last : Interval} (nonempty : first.left ≤ first.right)
    (nonempty' : middle.left ≤ middle.right) (nonempty'' : last.left ≤ last.right)
    (next : first.right + 1 = middle.left) (next' : middle.right + 1 = last.left) :
    (⟨first.left, last.right⟩ : Interval).toSet = first.toSet ∪ middle.toSet ∪ last.toSet := by
  have joined : first.left ≤ middle.right := by omega
  rw [← toSet_join nonempty nonempty' next]
  exact @toSet_join ⟨first.left, middle.right⟩ last joined nonempty'' next'

/-- All of one is before all of the other. -/
def Apart (first second : Interval) : Prop := first.right < second.left ∨ second.right < first.left

instance (first second : Interval) : Decidable (first.Apart second) :=
  inferInstanceAs (Decidable (_ ∨ _))

theorem Apart.symm {first second : Interval} (apart : first.Apart second) : second.Apart first :=
  Or.symm apart

instance : Std.Symm Apart := ⟨fun _ _ => Apart.symm⟩

theorem Apart.notMem {first second : Interval} {x : Int} (apart : first.Apart second)
    (inFirst : x ∈ first.toSet) : x ∉ second.toSet := by
  intro inSecond
  have := inFirst.1
  have := inFirst.2
  have := inSecond.1
  have := inSecond.2
  obtain before | after := apart <;> omega

/-- Intervals with no integer in common are apart. -/
theorem apart_of_notMem {first second : Interval} (nonempty : first.left ≤ first.right)
    (nonempty' : second.left ≤ second.right) (notMem : ∀ x ∈ first.toSet, x ∉ second.toSet) :
    first.Apart second := by
  by_contra meets
  obtain ⟨start, start'⟩ := not_or.mp meets
  -- the later of the two starts is in both
  exact notMem (max first.left second.left) ⟨by omega, by omega⟩ ⟨by omega, by omega⟩

/-- They overlap or are next to each other. -/
def Touches (first second : Interval) : Prop :=
  first.left ≤ second.right + 1 ∧ second.left ≤ first.right + 1

instance (first second : Interval) : Decidable (first.Touches second) :=
  inferInstanceAs (Decidable (_ ∧ _))

end Interval

/-- The integers in one of the intervals. -/
def covers (intervals : List Interval) : Set Int := {x | ∃ interval ∈ intervals, x ∈ interval.toSet}

@[simp] theorem covers_nil : covers [] = ∅ := by
  ext x
  simp [covers]

@[simp] theorem covers_cons (interval : Interval) (intervals : List Interval) :
    covers (interval :: intervals) = interval.toSet ∪ covers intervals := by
  ext x
  simp [covers]

@[simp] theorem covers_append (first second : List Interval) :
    covers (first ++ second) = covers first ∪ covers second := by
  induction first with
  | nil => simp
  | cons interval first inductionHypothesis =>
    rw [List.cons_append, covers_cons, covers_cons, inductionHypothesis, Set.union_assoc]

/-- Intervals that are not empty, in order, none next to another. -/
structure Normal (intervals : List Interval) : Prop where
  nonempty : ∀ interval ∈ intervals, interval.left ≤ interval.right
  apart : intervals.Pairwise fun first second => first.right + 1 < second.left

/-- The run of a set that comes first: it is in the set, ends there, and nothing is before it. -/
structure FirstRun (set : Set Int) (run : Interval) : Prop where
  nonempty : run.left ≤ run.right
  within : run.toSet ⊆ set
  ends : run.right + 1 ∉ set
  first : ∀ x ∈ set, run.left ≤ x

theorem FirstRun.unique {set : Set Int} {run run' : Interval} (isFirst : FirstRun set run)
    (isFirst' : FirstRun set run') : run = run' := by
  have left : run.left = run'.left := by
    have one := isFirst.first run'.left (isFirst'.within ⟨le_rfl, isFirst'.nonempty⟩)
    have other := isFirst'.first run.left (isFirst.within ⟨le_rfl, isFirst.nonempty⟩)
    omega
  have right : run.right = run'.right := by
    have nonempty := isFirst.nonempty
    have nonempty' := isFirst'.nonempty
    obtain less | same | more := Int.lt_trichotomy run.right run'.right
    · exact absurd (isFirst'.within ⟨by omega, by omega⟩) isFirst.ends
    · exact same
    · exact absurd (isFirst.within ⟨by omega, by omega⟩) isFirst'.ends
  cases run
  cases run'
  simp_all

namespace Normal

variable {interval inner outer : Interval} {intervals before after : List Interval}

theorem nil : Normal [] where
  nonempty _ member := by cases member
  apart := .nil

theorem cons_iff : Normal (interval :: intervals) ↔ interval.left ≤ interval.right ∧
    (∀ other ∈ intervals, interval.right + 1 < other.left) ∧ Normal intervals := by
  constructor
  · rintro ⟨nonempty, apart⟩
    rw [List.forall_mem_cons] at nonempty
    rw [List.pairwise_cons] at apart
    exact ⟨nonempty.1, apart.1, nonempty.2, apart.2⟩
  · rintro ⟨nonempty, beyond, normal⟩
    exact ⟨List.forall_mem_cons.mpr ⟨nonempty, normal.nonempty⟩,
      List.pairwise_cons.mpr ⟨beyond, normal.apart⟩⟩

theorem append_iff : Normal (before ++ after) ↔ Normal before ∧ Normal after ∧
    ∀ first ∈ before, ∀ second ∈ after, first.right + 1 < second.left := by
  constructor
  · rintro ⟨nonempty, apart⟩
    rw [List.forall_mem_append] at nonempty
    rw [List.pairwise_append] at apart
    exact ⟨⟨nonempty.1, apart.1⟩, ⟨nonempty.2, apart.2.1⟩, apart.2.2⟩
  · rintro ⟨normal, normal', beyond⟩
    exact ⟨List.forall_mem_append.mpr ⟨normal.nonempty, normal'.nonempty⟩,
      List.pairwise_append.mpr ⟨normal.apart, normal'.apart, beyond⟩⟩

/-- An interval between others that it does not touch. -/
theorem middle (normal : Normal (before ++ after)) (nonempty : interval.left ≤ interval.right)
    (below : ∀ other ∈ before, other.right + 1 < interval.left)
    (above : ∀ other ∈ after, interval.right + 1 < other.left) :
    Normal (before ++ interval :: after) := by
  obtain ⟨normalBefore, normalAfter, beyond⟩ := append_iff.mp normal
  refine append_iff.mpr ⟨normalBefore, cons_iff.mpr ⟨nonempty, above, normalAfter⟩, ?_⟩
  intro first inBefore
  exact List.forall_mem_cons.mpr ⟨below first inBefore, beyond first inBefore⟩

theorem cons_of_append_cons (normal : Normal (before ++ interval :: after)) :
    Normal (before ++ after) ∧ interval.left ≤ interval.right ∧
      (∀ other ∈ before, other.right + 1 < interval.left) ∧
      ∀ other ∈ after, interval.right + 1 < other.left := by
  obtain ⟨normalBefore, rest, beyond⟩ := append_iff.mp normal
  obtain ⟨nonempty, above, normalAfter⟩ := cons_iff.mp rest
  refine ⟨append_iff.mpr ⟨normalBefore, normalAfter, fun first inBefore second inAfter =>
    beyond first inBefore second (List.mem_cons_of_mem _ inAfter)⟩, nonempty, ?_, above⟩
  exact fun first inBefore => beyond first inBefore interval List.mem_cons_self

/-- The intervals that end before a point come first. -/
theorem cut (normal : Normal intervals) (bound : Int) : ∃ before after,
    intervals = before ++ after ∧ (∀ other ∈ before, other.right < bound) ∧
      ∀ other ∈ after, bound ≤ other.right := by
  induction intervals with
  | nil => exact ⟨[], [], rfl, by simp, by simp⟩
  | cons interval intervals inductionHypothesis =>
    obtain ⟨nonempty, beyond, rest⟩ := cons_iff.mp normal
    by_cases ends : interval.right < bound
    · obtain ⟨before, after, rfl, below, above⟩ := inductionHypothesis rest
      exact ⟨interval :: before, after, rfl, List.forall_mem_cons.mpr ⟨ends, below⟩, above⟩
    · refine ⟨[], interval :: intervals, rfl, by simp, List.forall_mem_cons.mpr ⟨by omega, ?_⟩⟩
      intro other member
      have apart := beyond other member
      have nonempty' := rest.nonempty other member
      omega

/-- An interval that ends before what comes after a cut is apart from the set, and one that
    does not meets it. -/
theorem disjoint_iff (normal : Normal (before ++ after)) (nonempty : interval.left ≤ interval.right)
    (below : ∀ other ∈ before, other.right < interval.left)
    (above : ∀ other ∈ after, interval.left ≤ other.right) :
    Disjoint (covers (before ++ after)) interval.toSet ↔
      ∀ other ∈ after, interval.right < other.left := by
  rw [Set.disjoint_left]
  constructor
  · intro apart other member
    by_contra meets
    have inside := above other member
    have nonempty' := normal.nonempty other (List.mem_append_right before member)
    -- the later of the two starts is in both
    refine apart (a := max interval.left other.left) ⟨other, List.mem_append_right before member, ?_⟩ ?_
    · exact ⟨by omega, by omega⟩
    · exact ⟨by omega, by omega⟩
  · rintro beyond x ⟨other, member, inOther⟩ inInterval
    have := inOther.1
    have := inOther.2
    have := inInterval.1
    have := inInterval.2
    obtain inBefore | inAfter := List.mem_append.mp member
    · have := below other inBefore
      omega
    · have := beyond other inAfter
      omega

/-- The first interval is the first run of the set. -/
theorem firstRun (normal : Normal (interval :: intervals)) :
    FirstRun (covers (interval :: intervals)) interval := by
  obtain ⟨nonempty, beyond, rest⟩ := cons_iff.mp normal
  have above : ∀ x ∈ covers intervals, interval.right + 1 < x := by
    rintro x ⟨other, member, inOther⟩
    exact lt_of_lt_of_le (beyond other member) inOther.1
  rw [covers_cons]
  refine ⟨nonempty, Set.subset_union_left, ?_, ?_⟩
  · rintro (inInterval | inRest)
    · have := inInterval.2
      omega
    · exact absurd (above _ inRest) (lt_irrefl _)
  · rintro x (inInterval | inRest)
    · exact inInterval.1
    · have := above x inRest
      omega

/-- The other intervals are what is left without the first one. -/
theorem covers_tail (normal : Normal (interval :: intervals)) :
    covers intervals = covers (interval :: intervals) \ interval.toSet := by
  obtain ⟨nonempty, beyond, rest⟩ := cons_iff.mp normal
  rw [covers_cons, Set.union_sdiff_left, eq_comm, sdiff_eq_left, Set.disjoint_left]
  rintro x ⟨other, member, inOther⟩ inInterval
  have := beyond other member
  have := inOther.1
  have := inInterval.2
  omega

/-- A normal list is the only one of its set. -/
theorem unique {intervals' : List Interval} (normal : Normal intervals) (normal' : Normal intervals')
    (same : covers intervals = covers intervals') : intervals = intervals' := by
  induction intervals generalizing intervals' with
  | nil =>
    cases intervals' with
    | nil => rfl
    | cons interval' intervals' =>
      have start : interval'.left ∈ covers (interval' :: intervals') :=
        ⟨interval', List.mem_cons_self, le_rfl, (cons_iff.mp normal').1⟩
      rw [← same, covers_nil] at start
      exact absurd start (Set.notMem_empty _)
  | cons interval intervals inductionHypothesis =>
    cases intervals' with
    | nil =>
      have start : interval.left ∈ covers (interval :: intervals) :=
        ⟨interval, List.mem_cons_self, le_rfl, (cons_iff.mp normal).1⟩
      rw [same, covers_nil] at start
      exact absurd start (Set.notMem_empty _)
    | cons interval' intervals' =>
      -- both lists start with the first run of the set, and what is left is what is left of the set
      obtain rfl : interval = interval' := by
        have first := normal.firstRun
        rw [same] at first
        exact first.unique normal'.firstRun
      have rest : covers intervals = covers intervals' := by
        rw [normal.covers_tail, normal'.covers_tail, same]
      rw [inductionHypothesis (cons_iff.mp normal).2.2 (cons_iff.mp normal').2.2 rest]

end Normal

/-! ## Successive intervals -/

/-- The number of integers in an interval that is not empty. -/
def Interval.length (interval : Interval) : Int := interval.right + 1 - interval.left

/-- Intervals that are not empty, each from where the last one ended, from the first bound up to
    the second. -/
def Successive : Int → List Interval → Int → Prop
  | first, [], last => first = last
  | first, interval :: intervals, last =>
    interval.left = first ∧ interval.left ≤ interval.right ∧
      Successive (interval.right + 1) intervals last

namespace Successive

variable {first last : Int} {interval : Interval} {intervals : List Interval}

theorem le (successive : Successive first intervals last) : first ≤ last := by
  induction intervals generalizing first with
  | nil => exact Int.le_of_eq successive
  | cons head intervals inductionHypothesis =>
    obtain ⟨rfl, nonempty, rest⟩ := successive
    have := inductionHypothesis rest
    omega

/-- An interval joins at the end. -/
theorem concat (successive : Successive first intervals last) (starts : interval.left = last)
    (nonempty : interval.left ≤ interval.right) :
    Successive first (intervals ++ [interval]) (interval.right + 1) := by
  induction intervals generalizing first with
  | nil =>
    obtain rfl : first = last := successive
    exact ⟨starts, nonempty, rfl⟩
  | cons head intervals inductionHypothesis =>
    exact ⟨successive.1, successive.2.1, inductionHypothesis successive.2.2⟩

theorem nonempty (successive : Successive first intervals last) (member : interval ∈ intervals) :
    interval.left ≤ interval.right := by
  induction intervals generalizing first with
  | nil => cases member
  | cons head intervals inductionHypothesis =>
    cases member with
    | head => exact successive.2.1
    | tail _ member => exact inductionHypothesis successive.2.2 member

/-- They are all the integers between the bounds. -/
theorem covers_eq (successive : Successive first intervals last) :
    covers intervals = Set.Ico first last := by
  induction intervals generalizing first with
  | nil =>
    obtain rfl : first = last := successive
    simp
  | cons head intervals inductionHypothesis =>
    obtain ⟨rfl, nonempty, rest⟩ := successive
    have ends := rest.le
    rw [covers_cons, inductionHypothesis rest]
    ext x
    simp only [Set.mem_union, Interval.mem_toSet, Set.mem_Ico]
    omega

theorem pairwise_apart (successive : Successive first intervals last) :
    intervals.Pairwise Interval.Apart := by
  induction intervals generalizing first with
  | nil => exact .nil
  | cons head intervals inductionHypothesis =>
    obtain ⟨rfl, nonempty, rest⟩ := successive
    refine .cons (fun other member => ?_) (inductionHypothesis rest)
    have start : other.left ∈ covers intervals := ⟨other, member, le_rfl, rest.nonempty member⟩
    rw [rest.covers_eq] at start
    exact .inl start.1

/-- As many integers as there are between the bounds. -/
theorem sum_length (successive : Successive first intervals last) :
    (intervals.map Interval.length).sum = last - first := by
  induction intervals generalizing first with
  | nil =>
    obtain rfl : first = last := successive
    simp
  | cons head intervals inductionHypothesis =>
    obtain ⟨rfl, nonempty, rest⟩ := successive
    rw [List.map_cons, List.sum_cons, inductionHypothesis rest, Interval.length]
    omega

end Successive

end Pspin.Clocked
