import Pspin.Ooorb.OoorbHandlers

/-! # The memory a lazy list is initialised in

`lazylist_init` clears the marks of the nodes that are handed out and leaves those of the two
sentinels as they were.  Everything else that is read was written before, so that the marks of
the sentinels decide whether the list works at all: the neighbours of the first range that is
inserted are the sentinels, and they are not valid while one of them is marked.
-/

namespace Pspin

open Clocked Lazylist

namespace Lazylist

variable {list list' memory : Lazylist} {set : Set Int} {turns : Nat}

/-- A call whose loops may take a number of turns. -/
def callWithin (list : Lazylist) (turns : Nat) : LazylistCall → Option (Lazylist × LazylistResult)
  | .insert range =>
    (list.lazylistInsert range turns).map fun returned => (returned.1, .inserted returned.2)
  | .popFront rangeLeft =>
    (list.lazylistPopFront rangeLeft turns).map fun returned => (returned.1, .popped returned.2)

/-- What calls return one after another, if every one of them returns. -/
def returns (turns : Nat) : Lazylist → List LazylistCall → Option (List LazylistResult)
  | _, [] => some []
  | list, call :: calls => do
    let (list, result) ← list.callWithin turns call
    let results ← returns turns list calls
    some (result :: results)

/-- A range that is inserted meets none that is present and finds a node. -/
def Valid (list : Lazylist) (call : LazylistCall) : Prop :=
  list.Permitted call ∧ match call with
    | .insert range => Disjoint list.denotes range.toSet
    | .popFront _ => True

end Lazylist

/-- Any calls return, and what they would return if the memory had been zeroed first. -/
def InitIndependent (memory : RbState) : Prop :=
  ∀ calls, (lazylistCallsOn RbState.zeroed.list).Admits Valid calls → ∃ turns results,
    returns turns memory.ooorbHh.list calls = some results ∧
      returns turns RbState.zeroed.ooorbHh.list calls = some results

namespace Lazylist

variable {list list' memory : Lazylist} {set : Set Int} {turns : Nat}

/-! ## Two lists of one set -/

theorem Follows.permitted (follows : Follows list set) (follows' : Follows list' set)
    {call : LazylistCall} (permitted : list.Permitted call) : list'.Permitted call := by
  cases call with
  | popFront rangeLeft => exact trivial
  | insert range =>
    obtain ⟨path, free, represents, rfl⟩ := follows
    obtain ⟨path', free', represents', same⟩ := follows'
    obtain ⟨insertable, room⟩ := permitted
    rw [represents.active_eq, represents.freeNodes_eq] at room
    refine ⟨insertable, ?_⟩
    rw [represents'.active_eq, represents'.freeNodes_eq]
    -- they have the same ranges, and as many nodes are free
    have ranges : path.map list.range = path'.map list'.range :=
      represents.normal.unique represents'.normal same.symm
    have length := represents.length_le
    have length' := represents'.length_le
    have lengths := congrArg List.length ranges
    rw [List.length_map, List.length_map] at lengths
    obtain free | ⟨i, member, touches⟩ := room
    · refine .inl fun empty => free (List.eq_nil_of_length_eq_zero ?_)
      rw [empty, List.length_nil] at length'
      omega
    · have inRanges : list.range i ∈ path'.map list'.range := by
        rw [← ranges]
        exact List.mem_map_of_mem member
      obtain ⟨i', member', same⟩ := List.mem_map.mp inRanges
      exact .inr ⟨i', member', same ▸ touches⟩

theorem returns_cons {call : LazylistCall} {calls : List LazylistCall} {result : LazylistResult}
    {results : List LazylistResult} (called : list.callWithin turns call = some (list', result))
    (later : returns turns list' calls = some results) :
    returns turns list (call :: calls) = some (result :: results) := by
  simp only [returns, called, Option.bind_eq_bind, Option.bind_some, later]

theorem callWithin_eq_call (list : Lazylist) (call : LazylistCall) :
    list.callWithin numSegments call = list.call call := by
  cases call <;> rfl

/-- Two lists that stand for the same set return the same. -/
theorem Follows.returns_eq (follows : Follows list set) (follows' : Follows list' set)
    {calls : List LazylistCall}
    (admitted : (lazylistCallsOn memory).AdmitsFrom Permitted list calls) :
    ∃ results, returns numSegments list' calls = some results ∧
      returns numSegments list calls = some results := by
  induction calls generalizing list list' set with
  | nil => exact ⟨[], rfl, rfl⟩
  | cons call calls inductionHypothesis =>
    obtain ⟨permitted, admitted⟩ := admitted
    obtain ⟨next, called, nextFollows, -⟩ := follows.call permitted
    obtain ⟨next', called', nextFollows', -⟩ := follows'.call (follows.permitted follows' permitted)
    have stepped : (lazylistCallsOn memory).step list call = next := by
      simp only [lazylistCallsOn, lazylistCalls, called]
    rw [stepped] at admitted
    obtain ⟨results, returned', returned⟩ := inductionHypothesis nextFollows nextFollows' admitted
    rw [← callWithin_eq_call] at called called'
    exact ⟨_, returns_cons called' returned', returns_cons called returned⟩

theorem initIndependent_of_unmarked {memory : RbState} (unmarked : memory.list.SentinelsUnmarked) :
    InitIndependent memory := by
  intro calls admitted
  have zeroed : Follows RbState.zeroed.ooorbHh.list ∅ := lazylistInit_follows ⟨rfl, rfl⟩
  have permitted : (lazylistCallsOn RbState.zeroed.list).Admits Permitted calls :=
    admitted.mono fun _ _ valid => valid.1
  exact ⟨numSegments, zeroed.returns_eq (lazylistInit_follows unmarked) permitted⟩

/-! ## Marked sentinels -/

/-- Where the sentinels are neighbours and one of them is marked. -/
structure Stuck (list : Lazylist) : Prop where
  head : list.headIdx = numSegments - 2
  next : list.next (numSegments - 2) = numSegments - 1
  idx : list.idx (numSegments - 2) = numSegments - 2 ∧ list.idx (numSegments - 1) = numSegments - 1
  ranges : list.range (numSegments - 2) = ⟨int32Min, int32Min⟩ ∧
    list.range (numSegments - 1) = ⟨int32Max, int32Max⟩
  unlocked : list.lock (numSegments - 2) = 0 ∧ list.lock (numSegments - 1) = 0
  marked : list.marks (numSegments - 2) = true ∨ list.marks (numSegments - 1) = true

namespace Stuck

variable {range : LazylistRange}

theorem findPred (stuck : Stuck list) (insertable : Insertable range) (turns : Nat) :
    list.lazylistFindPred (turns + 2) range = some (some (numSegments - 2, numSegments - 1)) := by
  have first : list.right (numSegments - 2) < range.left := by
    rw [right, stuck.ranges.1]
    exact insertable.above
  have second : ¬list.right (numSegments - 1) < range.left := by
    have := insertable.ordered
    have := insertable.below
    rw [right, stuck.ranges.2]
    show ¬int32Max < range.left
    omega
  have apart : ¬list.left (numSegments - 1) ≤ range.right := by
    rw [left, stuck.ranges.2]
    exact Int.not_le.mpr insertable.below
  have found : list.findPredLoop range (turns + 2) list.headIdx list.headIdx =
      some (numSegments - 2, numSegments - 1) := by
    rw [stuck.head, findPredLoop, if_pos first, stuck.next, findPredLoop, if_neg second]
  rw [lazylistFindPred, found, Option.bind_eq_bind, Option.bind_some]
  simp only [if_neg apart]

theorem not_validate (stuck : Stuck list) :
    list.lazylistValidate (numSegments - 2) (numSegments - 1) = false := by
  rw [lazylistValidate, stuck.idx.1, stuck.idx.2]
  obtain marked | marked := stuck.marked <;> simp [marked]

/-- However many turns it takes, the insert finds the sentinels and does not accept them. -/
theorem lazylistInsert_none (stuck : Stuck list) (insertable : Insertable range) (turns : Nat) :
    list.lazylistInsert range turns = none := by
  induction turns with
  | zero => rfl
  | succ turns inductionHypothesis =>
    cases turns with
    | zero =>
      have searching : list.lazylistFindPred 1 range = none := by
        have first : list.right (numSegments - 2) < range.left := by
          rw [right, stuck.ranges.1]
          exact insertable.above
        rw [lazylistFindPred, stuck.head, findPredLoop, if_pos first]
        rfl
      rw [lazylistInsert, searching]
      rfl
    | succ turns =>
      have ne : numSegments - 2 ≠ numSegments - 1 := by decide
      rw [lazylistInsert, stuck.findPred insertable, Option.bind_eq_bind, Option.bind_some]
      simp only [Option.bind_eq_bind]
      rw [lock_both _ ne stuck.unlocked.1 stuck.unlocked.2, if_neg (by simpa using stuck.not_validate),
        unlock_both ne stuck.unlocked.1 stuck.unlocked.2]
      exact inductionHypothesis

end Stuck

theorem lazylistInit_headIdx (list : Lazylist) (capacity : Nat) :
    (list.lazylistInit capacity).headIdx = (list.lazylistInit capacity).idx (capacity - 2) := rfl

theorem lazylistInit_marks (list : Lazylist) (capacity : Nat) :
    (list.lazylistInit capacity).marks = fun i => decide (capacity - 2 ≤ i) && list.marks i :=
  (foldl_initNode list (capacity - 2)).2

/-- The initialisation leaves a marked sentinel marked. -/
theorem stuck_of_marked (marked : ¬SentinelsUnmarked memory) :
    Stuck (memory.lazylistInit numSegments) := by
  obtain ⟨-, -, atLeft, atRight⟩ := lazylistInit_nodes memory (numSegments - 3)
  have atLeft : (memory.lazylistInit numSegments).nodes (numSegments - 2) =
      ⟨numSegments - 2, ⟨int32Min, int32Min⟩, 0, numSegments - 1⟩ := atLeft
  have atRight : (memory.lazylistInit numSegments).nodes (numSegments - 1) =
      ⟨numSegments - 1, ⟨int32Max, int32Max⟩, 0, eol⟩ := atRight
  exact {
    head := by rw [lazylistInit_headIdx, Lazylist.idx, atLeft]
    next := by rw [Lazylist.next, atLeft]
    idx := ⟨by rw [Lazylist.idx, atLeft], by rw [Lazylist.idx, atRight]⟩
    ranges := ⟨by rw [Lazylist.range, atLeft], by rw [Lazylist.range, atRight]⟩
    unlocked := ⟨by rw [Lazylist.lock, atLeft], by rw [Lazylist.lock, atRight]⟩
    marked := by
      -- the nodes before the sentinels are unmarked, the marks of these stay
      have inside : numSegments - 2 ≤ numSegments - 1 := by decide
      rw [lazylistInit_marks]
      simp only [le_refl, inside, decide_true, Bool.true_and]
      rw [SentinelsUnmarked, not_and_or, Bool.not_eq_false, Bool.not_eq_false] at marked
      exact marked }

/-- The first insert never returns if a sentinel is marked. -/
theorem not_initIndependent_of_marked {memory : RbState}
    (marked : ¬memory.list.SentinelsUnmarked) : ¬InitIndependent memory := by
  intro independent
  have stuck := stuck_of_marked marked
  have insertable : Insertable ⟨0, 0⟩ := by decide
  have zeroed : Follows (RbState.zeroed.list.lazylistInit numSegments) ∅ :=
    lazylistInit_follows ⟨rfl, rfl⟩
  have valid : Valid (RbState.zeroed.list.lazylistInit numSegments) (.insert ⟨0, 0⟩) := by
    refine ⟨⟨insertable, ?_⟩, ?_⟩
    · have represents : Represents (numSegments - 2) (RbState.zeroed.list.lazylistInit numSegments) []
          (List.range (numSegments - 2)) :=
        lazylistInit_represents (by decide) (by decide) ⟨rfl, rfl⟩
      rw [represents.freeNodes_eq]
      exact .inl (by decide)
    · show Disjoint (denotes _) _
      rw [zeroed.keeps.denotes]
      exact Set.empty_disjoint _
  obtain ⟨turns, results, returned, -⟩ := independent [.insert ⟨0, 0⟩] ⟨valid, trivial⟩
  have never : returns turns memory.ooorbHh.list [.insert ⟨0, 0⟩] = none := by
    show returns turns (memory.list.lazylistInit numSegments) _ = none
    rw [returns, callWithin, stuck.lazylistInsert_none insertable]
    rfl
  rw [never] at returned
  cases returned

end Lazylist

/-- The memory a list is initialised in makes no difference exactly if it has no mark where the
    marks of the sentinels are. -/
theorem ooorbHh_independent_iff (memory : RbState) : InitIndependent memory ↔
    memory.list.marks (numSegments - 2) = false ∧ memory.list.marks (numSegments - 1) = false := by
  constructor
  · intro independent
    by_contra marked
    exact not_initIndependent_of_marked marked independent
  · exact initIndependent_of_unmarked

/-- Memory of zeros but for the mark of the left sentinel. -/
def markedMemory : RbState := { RbState.zeroed with list := Lazylist.zeroed.setMark (numSegments - 2) true }

theorem ooorbHh_depends : ¬InitIndependent markedMemory :=
  not_initIndependent_of_marked fun unmarked => absurd unmarked.1 (by decide)

end Pspin
