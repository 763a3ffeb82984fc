import Mathlib.Data.List.Basic
import Mathlib.Logic.Function.Basic

/-! # Paths of links

A path lists the cells met by following links from a first cell up to a last one,
which is not listed.  A link that is redirected leaves the paths that do not pass
it alone.
-/

namespace Pspin.Clocked

universe u

variable {α : Type u}

/-- Following `next` from the first cell visits the list and then the last cell. -/
def Path (next : α → α) : α → List α → α → Prop
  | first, [], last => first = last
  | first, cell :: rest, last => cell = first ∧ Path next (next cell) rest last

/-- The cells visited from a first one up to a last one, within a number of turns. -/
def walk [DecidableEq α] (next : α → α) : Nat → α → α → List α
  | 0, _, _ => []
  | turns + 1, first, last =>
    if first = last then [] else first :: walk next turns (next first) last

namespace Path

variable {next next' : α → α} {first last cell : α} {cells before after : List α}

theorem congr (path : Path next first cells last) (agree : ∀ cell ∈ cells, next' cell = next cell) :
    Path next' first cells last := by
  induction cells generalizing first with
  | nil => exact path
  | cons cell cells inductionHypothesis =>
    refine ⟨path.1, ?_⟩
    rw [agree cell List.mem_cons_self]
    exact inductionHypothesis path.2 fun other member => agree other (List.mem_cons_of_mem _ member)

theorem append_iff : Path next first (before ++ after) last ↔
    ∃ middle, Path next first before middle ∧ Path next middle after last := by
  induction before generalizing first with
  | nil =>
    constructor
    · exact fun path => ⟨first, rfl, path⟩
    · rintro ⟨middle, rfl, path⟩
      exact path
  | cons cell before inductionHypothesis =>
    rw [List.cons_append, Path, inductionHypothesis]
    constructor
    · rintro ⟨same, middle, left, right⟩
      exact ⟨middle, ⟨same, left⟩, right⟩
    · rintro ⟨middle, ⟨same, left⟩, right⟩
      exact ⟨same, middle, left, right⟩

/-- The cells before one lead to it, those after it from it to the last one. -/
theorem append_cons_iff : Path next first (before ++ cell :: after) last ↔
    Path next first before cell ∧ Path next (next cell) after last := by
  rw [append_iff]
  constructor
  · rintro ⟨middle, left, rfl, right⟩
    exact ⟨left, right⟩
  · exact fun both => ⟨cell, both.1, rfl, both.2⟩

/-- Cells numbered in the order they are linked in. -/
theorem range {next : Nat → Nat} {count : Nat} (each : ∀ i < count, next i = i + 1) :
    Path next 0 (List.range count) count := by
  induction count with
  | zero => rfl
  | succ count inductionHypothesis =>
    rw [List.range_succ]
    refine append_iff.mpr ⟨count, inductionHypothesis fun i less => each i (by omega), rfl, ?_⟩
    exact each count (by omega)

/-- The link of a listed cell leads to a later one or to the last. -/
theorem next_mem {head : α} (path : Path next first (head :: cells) last)
    (member : cell ∈ head :: cells) : next cell ∈ cells ∨ next cell = last := by
  induction cells generalizing first head with
  | nil =>
    obtain rfl := List.mem_singleton.mp member
    exact .inr path.2
  | cons other cells inductionHypothesis =>
    obtain rfl | member := List.mem_cons.mp member
    · obtain ⟨-, rfl, -⟩ := path
      exact .inl List.mem_cons_self
    · exact (inductionHypothesis path.2 member).imp_left (List.mem_cons_of_mem _)

/-- A walk with enough turns finds the path. -/
theorem walk_eq [DecidableEq α] {turns : Nat} (path : Path next first cells last)
    (apart : last ∉ cells) (enough : cells.length < turns) :
    walk next turns first last = cells := by
  induction turns generalizing first cells with
  | zero => cases enough
  | succ turns inductionHypothesis =>
    rw [walk]
    cases cells with
    | nil => exact if_pos path
    | cons cell cells =>
      obtain ⟨rfl, path⟩ := path
      have ne : cell ≠ last := fun same => apart (same ▸ List.mem_cons_self)
      rw [if_neg ne, inductionHypothesis path (List.not_mem_of_not_mem_cons apart)
        (Nat.lt_of_succ_lt_succ enough)]

variable [DecidableEq α]

/-- Redirecting the link of a cell that is not listed. -/
theorem update_of_notMem {target : α} (path : Path next first cells last) (absent : cell ∉ cells) :
    Path (Function.update next cell target) first cells last :=
  path.congr fun other member =>
    Function.update_of_ne (show other ≠ cell from fun same => absent (same ▸ member)) _ _

/-- The link of a listed cell is redirected to where other cells go on. -/
theorem redirect {target : α} {after' : List α} (left : Path next first before cell)
    (right : Path next target after' last) (absent : cell ∉ before) (absent' : cell ∉ after') :
    Path (Function.update next cell target) first (before ++ cell :: after') last := by
  refine append_cons_iff.mpr ⟨left.update_of_notMem absent, ?_⟩
  rw [Function.update_self]
  exact right.update_of_notMem absent'

/-- A cell gets its place after a listed one, whose link it takes over. -/
theorem insert {pred : α} (path : Path next first cells last) (nodup : cells.Nodup)
    (member : pred ∈ cells) (fresh : cell ∉ cells) (link : next cell = next pred) :
    ∃ cells', Path (Function.update next pred cell) first cells' last ∧ cells'.Nodup ∧
      ∀ other, other ∈ cells' ↔ other = cell ∨ other ∈ cells := by
  obtain ⟨before, after, rfl⟩ := List.append_of_mem member
  obtain ⟨left, right⟩ := append_cons_iff.mp path
  refine ⟨before ++ pred :: cell :: after, left.redirect ⟨rfl, ?_⟩ ?_ ?_, ?_, ?_⟩
  · rw [link]
    exact right
  all_goals grind

/-- A cell after a listed one loses its place. -/
theorem remove {pred : α} (path : Path next first cells last) (nodup : cells.Nodup)
    (apart : last ∉ cells) (member : pred ∈ cells) (onward : next pred ∈ cells) :
    ∃ cells', Path (Function.update next pred (next (next pred))) first cells' last ∧
      cells'.Nodup ∧ ∀ other, other ∈ cells' ↔ other ≠ next pred ∧ other ∈ cells := by
  obtain ⟨before, after, rfl⟩ := List.append_of_mem member
  obtain ⟨left, right⟩ := append_cons_iff.mp path
  cases after with
  | nil =>
    obtain rfl : next pred = last := right
    exact absurd onward apart
  | cons cell after =>
    obtain ⟨rfl, right⟩ := right
    refine ⟨before ++ pred :: after, left.redirect right ?_ ?_, ?_, ?_⟩
    all_goals grind

end Path

/-! ## Cells that can be reached -/

/-- Following `next`, one comes from one cell to another before anything after `last`. -/
inductive Reaches (next : α → α) (last : α) : α → α → Prop
  | here (cell : α) : Reaches next last cell cell
  | onward {cell target : α} (ne : cell ≠ last) (rest : Reaches next last (next cell) target) :
      Reaches next last cell target

/-- Every cell that can be reached from a cell is a good one. -/
def Within (next : α → α) (last : α) (good : α → Prop) (cell : α) : Prop :=
  ∀ target, Reaches next last cell target → good target

namespace Within

variable {next next' : α → α} {last cell : α} {good good' : α → Prop}

theorem here (within : Within next last good cell) : good cell :=
  within cell (.here cell)

theorem onward (within : Within next last good cell) (ne : cell ≠ last) :
    Within next last good (next cell) :=
  fun target reached => within target (.onward ne reached)

/-- A good cell whose link leads to where only good ones can be reached. -/
theorem of_onward (inside : good cell) (within : Within next last good (next cell)) :
    Within next last good cell := by
  intro target reached
  cases reached with
  | here => exact inside
  | onward _ rest => exact within target rest

theorem mono (weaker : ∀ cell, good cell → good' cell) (within : Within next last good cell) :
    Within next last good' cell :=
  fun target reached => weaker target (within target reached)

/-- A set of good cells that no link leads out of. -/
theorem of_closed (set : α → Prop) (inside : ∀ cell, set cell → good cell)
    (closed : ∀ cell, set cell → cell ≠ last → set (next cell)) (member : set cell) :
    Within next last good cell := by
  intro target reached
  induction reached with
  | here cell => exact inside cell member
  | onward ne _ inductionHypothesis => exact inductionHypothesis (closed _ member ne)

variable [DecidableEq α] {pred target : α}

/-- A link is redirected to a cell from which only good ones can be reached. -/
theorem update (within : Within next last good cell) (within' : Within next last good target) :
    Within (Function.update next pred target) last good cell := by
  refine of_closed (Within next last good) (fun cell => Within.here) ?_ within
  intro other inside ne
  by_cases same : other = pred
  · subst same
    rwa [Function.update_self]
  · rw [Function.update_of_ne same]
    exact inside.onward ne

/-- The link of a cell that is not reached does not matter, nor does whether that cell is good. -/
theorem update_of_not_reaches (within : Within next last good cell)
    (apart : ¬Reaches next last cell pred) :
    Within (Function.update next pred target) last (fun cell => good cell ∧ cell ≠ pred) cell := by
  refine of_closed (fun cell => Within next last good cell ∧ ¬Reaches next last cell pred)
    ?_ ?_ ⟨within, apart⟩
  · rintro other ⟨inside, unreached⟩
    exact ⟨inside.here, fun same => unreached (same ▸ .here other)⟩
  · rintro other ⟨inside, unreached⟩ ne
    have apart : other ≠ pred := fun same => unreached (same ▸ .here other)
    rw [Function.update_of_ne apart]
    exact ⟨inside.onward ne, fun reached => unreached (.onward ne reached)⟩

end Within

end Pspin.Clocked
