import Pspin.Clocked.Machine
import Pspin.Ooorb.LazylistCalls

/-! # The lazy list keeps a set of integers

One call after another, the list does what a set of integers does from which the
first run can be taken.  The list of a set is normal, so that the first run is the
range of the first node.
-/

namespace Pspin

open Clocked

/-! ## Sets -/

section Sets

open Classical in
/-- The first run of a set, if its start is one that is accepted. -/
noncomputable def acceptedRun (set : Set Int) (rangeLeft : Int) : Option LazylistRange :=
  if accepted : ∃ run, FirstRun set run ∧
      (Lazylist.startAny rangeLeft = true ∨ run.left = rangeLeft) then
    some accepted.choose
  else none

open Classical in
/-- A range joins the set unless it meets it; the first run leaves it if it is accepted. -/
noncomputable def setCall (set : Set Int) : LazylistCall → Set Int × LazylistResult
  | .insert range => (if Disjoint set range.toSet then set ∪ range.toSet else set, .inserted 0)
  | .popFront rangeLeft =>
    match acceptedRun set rangeLeft with
    | some run => (set \ run.toSet, .popped (some run))
    | none => (set, .popped none)

/-- The set that calls leave of the empty one. -/
noncomputable def rangeSet : Machine (Set Int) LazylistCall where
  reset := ∅
  step set call := (setCall set call).1

theorem acceptedRun_eq_some {set : Set Int} {rangeLeft : Int} {run : LazylistRange}
    (first : FirstRun set run) (accepts : Lazylist.startAny rangeLeft = true ∨ run.left = rangeLeft) :
    acceptedRun set rangeLeft = some run := by
  have accepted : ∃ run, FirstRun set run ∧
      (Lazylist.startAny rangeLeft = true ∨ run.left = rangeLeft) := ⟨run, first, accepts⟩
  rw [acceptedRun, dif_pos accepted, accepted.choose_spec.1.unique first]

/-- A run that is accepted is the first one and starts where it should. -/
theorem acceptedRun_spec {set : Set Int} {rangeLeft : Int} {run : LazylistRange}
    (isAccepted : acceptedRun set rangeLeft = some run) :
    FirstRun set run ∧ (Lazylist.startAny rangeLeft = true ∨ run.left = rangeLeft) := by
  rw [acceptedRun] at isAccepted
  split at isAccepted
  next accepted =>
    obtain rfl := Option.some.inj isAccepted
    exact accepted.choose_spec
  next => cases isAccepted

theorem acceptedRun_eq_none {set : Set Int} {rangeLeft : Int}
    (refuses : ∀ run, FirstRun set run → Lazylist.startAny rangeLeft = false ∧ run.left ≠ rangeLeft) :
    acceptedRun set rangeLeft = none := by
  refine dif_neg ?_
  rintro ⟨run, first, accepts⟩
  obtain ⟨notAny, other⟩ := refuses run first
  simp [notAny, other] at accepts

end Sets

/-! ## Lists -/

namespace Lazylist

variable (list : Lazylist)

/-- A call whose loops may take a turn for every node. -/
def call : LazylistCall → Option (Lazylist × LazylistResult)
  | .insert range =>
    (list.lazylistInsert range numSegments).map fun returned => (returned.1, .inserted returned.2)
  | .popFront rangeLeft =>
    (list.lazylistPopFront rangeLeft numSegments).map fun returned =>
      (returned.1, .popped returned.2)

/-- A range that is inserted is in order and between the sentinels, and a range that touches
    no other finds a free node. -/
def Permitted : LazylistCall → Prop
  | .insert range => Insertable range ∧ Room list list.active list.freeNodes range
  | .popFront _ => True

instance (call : LazylistCall) : Decidable (list.Permitted call) :=
  match call with
  | .insert range => inferInstanceAs (Decidable (Insertable range ∧
      (list.freeNodes ≠ [] ∨ ∃ i ∈ list.active, (list.range i).Touches range)))
  | .popFront _ => isTrue trivial

end Lazylist

/-- Calls on a list that was initialised in zeroed memory. -/
def lazylistCalls : Machine Lazylist LazylistCall where
  reset := Lazylist.zeroed.lazylistInit numSegments
  step list call :=
    match list.call call with
    | some (list, _) => list
    | none => list

/-- Calls on a list that was initialised in any memory. -/
def lazylistCallsOn (memory : Lazylist) : Machine Lazylist LazylistCall where
  reset := memory.lazylistInit numSegments
  step := lazylistCalls.step

namespace Lazylist

/-- No mark of a sentinel is set, which the initialisation leaves as they were. -/
def SentinelsUnmarked (memory : Lazylist) : Prop :=
  memory.marks (numSegments - 2) = false ∧ memory.marks (numSegments - 1) = false

/-- The list keeps the set: its active nodes lead from the left sentinel to the right one, their
    ranges are in order and apart, no two of them next to each other, and are those of the
    set, and every other node is free. -/
structure Keeps (list : Lazylist) (set : Set Int) : Prop where
  normal : Normal (list.active.map list.range)
  ends : Clocked.Path list.next (numSegments - 2) (list.headIdx :: list.active) (numSegments - 1)
  sentinels : list.range (numSegments - 2) = ⟨int32Min, int32Min⟩ ∧
    list.range (numSegments - 1) = ⟨int32Max, int32Max⟩
  free : Clocked.Path list.next list.freeHeadIdx list.freeNodes eol
  pool : (list.active ++ list.freeNodes).Perm (List.range (numSegments - 2))
  denotes : list.denotes = set

/-- The list represents the set. -/
def Follows (list : Lazylist) (set : Set Int) : Prop :=
  ∃ path free, Represents (numSegments - 2) list path free ∧ covers (path.map list.range) = set

variable {list : Lazylist} {path free : List Nat} {set : Set Int}

theorem Represents.length_le (represents : Represents (numSegments - 2) list path free) :
    path.length + free.length = numSegments - 2 := by
  have length := represents.pool.length_eq
  rwa [List.length_append, List.length_range] at length

theorem Represents.active_eq (represents : Represents (numSegments - 2) list path free) :
    list.active = path := by
  have length := represents.length_le
  have positive : 2 < numSegments := by decide
  obtain ⟨-, linked⟩ := represents.linked
  rw [active, represents.head]
  exact linked.walk_eq represents.last_notMem (by omega)

theorem Represents.freeNodes_eq (represents : Represents (numSegments - 2) list path free) :
    list.freeNodes = free := by
  have length := represents.length_le
  have positive : 2 < numSegments := by decide
  exact represents.linkedFree.walk_eq represents.eol_notMem (by omega)

theorem Follows.keeps (follows : Follows list set) : Keeps list set := by
  obtain ⟨path, free, represents, rfl⟩ := follows
  have active := represents.active_eq
  have freeNodes := represents.freeNodes_eq
  exact {
    normal := by
      rw [active]
      exact represents.normal
    ends := by
      rw [active, represents.head]
      exact represents.linked
    sentinels := ⟨represents.sentinelLeft, represents.sentinelRight⟩
    free := by
      rw [freeNodes]
      exact represents.linkedFree
    pool := by
      rw [active, freeNodes]
      exact represents.pool
    denotes := by
      rw [denotes, active] }

/-- What a list stands for has a first run if it is not empty. -/
theorem Follows.firstRun (follows : Follows list set) (nonempty : set.Nonempty) :
    ∃ run, FirstRun set run := by
  obtain ⟨path, free, represents, rfl⟩ := follows
  cases path with
  | nil => simp at nonempty
  | cons node path =>
    have normal := represents.normal
    exact ⟨list.range node, normal.firstRun⟩

/-- A call does to the list what it does to the set, returns the same, and leaves a list alone
    whose set it leaves alone. -/
def Does (list : Lazylist) (set : Set Int) (call : LazylistCall) : Prop :=
  ∃ list', list.call call = some (list', (setCall set call).2) ∧
    Follows list' (setCall set call).1 ∧ ((setCall set call).1 = set → list' = list)

theorem Follows.insert {range : LazylistRange} (follows : Follows list set)
    (permitted : list.Permitted (.insert range)) : Does list set (.insert range) := by
  obtain ⟨path, free, represents, rfl⟩ := follows
  obtain ⟨insertable, room⟩ := permitted
  rw [represents.active_eq, represents.freeNodes_eq] at room
  have enough : path.length + 1 < numSegments := by
    have length := represents.length_le
    have positive : 2 < numSegments := by decide
    omega
  obtain ⟨list', path', free', inserted, represents', joins, stays⟩ :=
    represents.lazylistInsert insertable room enough
  refine ⟨list', by rw [call, inserted]; rfl, ?_⟩
  by_cases disjoint : Disjoint (covers (path.map list.range)) range.toSet
  · rw [setCall, if_pos disjoint]
    refine ⟨⟨path', free', represents', joins disjoint⟩, fun same => ?_⟩
    -- the range is not empty, so that the set has changed
    have start : range.left ∈ range.toSet := ⟨le_rfl, insertable.ordered⟩
    have inside : range.left ∈ covers (path.map list.range) := by
      rw [← same]
      exact Set.mem_union_right _ start
    exact absurd start (Set.disjoint_left.mp disjoint inside)
  · rw [setCall, if_neg disjoint]
    obtain rfl := stays disjoint
    exact ⟨⟨path, free, represents, rfl⟩, fun _ => rfl⟩

/-- The first run of the set is the range of the first node. -/
theorem Represents.front_of_firstRun (represents : Represents (numSegments - 2) list path free)
    {run : LazylistRange} (first : FirstRun (covers (path.map list.range)) run) :
    ∃ node ∈ path.head?, list.range node = run := by
  cases path with
  | nil =>
    have inside := first.within ⟨le_rfl, first.nonempty⟩
    simp at inside
  | cons node path =>
    have normal := represents.normal
    exact ⟨node, rfl, normal.firstRun.unique first⟩

theorem Follows.popFront (follows : Follows list set) (rangeLeft : Int) :
    Does list set (.popFront rangeLeft) := by
  obtain ⟨path, free, represents, rfl⟩ := follows
  have positive : 0 < numSegments := by decide
  by_cases refuses : ∀ node ∈ path.head?, startAny rangeLeft = false ∧ list.left node ≠ rangeLeft
  · have kept := represents.lazylistPopFront_keeps positive refuses
    have refused : acceptedRun (covers (path.map list.range)) rangeLeft = none := by
      refine acceptedRun_eq_none fun run first => ?_
      obtain ⟨node, isFront, rfl⟩ := represents.front_of_firstRun first
      exact refuses node isFront
    rw [Does, setCall, refused]
    exact ⟨list, by rw [call, kept]; rfl, ⟨path, free, represents, rfl⟩, fun _ => rfl⟩
  · cases path with
    | nil => simp at refuses
    | cons node path =>
      have accepts : startAny rangeLeft = true ∨ list.left node = rangeLeft := by
        simp only [List.head?_cons, Option.mem_def, Option.some.injEq, forall_eq'] at refuses
        by_cases any : startAny rangeLeft = true
        · exact .inl any
        · exact .inr (by_contra fun other => refuses ⟨by simpa using any, other⟩)
      have popped := represents.lazylistPopFront_pops positive accepts
      have normal := represents.normal
      rw [List.map_cons] at normal
      have accepted := acceptedRun_eq_some normal.firstRun accepts
      have unlinked := represents.unlink
        (show (numSegments - 2) :: [] = [] ++ [numSegments - 2] from rfl)
      rw [Does, setCall, List.map_cons, accepted]
      refine ⟨_, by rw [call, popped]; rfl, ⟨path, node :: free, unlinked, ?_⟩, fun same => ?_⟩
      · rw [range_unlinkNode]
        exact normal.covers_tail
      · -- the run is not empty, so that the set has changed
        have start : list.left node ∈ (list.range node).toSet :=
          ⟨le_rfl, normal.nonempty _ List.mem_cons_self⟩
        have inside : list.left node ∈ covers (list.range node :: path.map list.range) := by
          rw [covers_cons]
          exact Set.mem_union_left _ start
        rw [← same] at inside
        exact absurd start inside.2

theorem Follows.call (follows : Follows list set) {call : LazylistCall}
    (permitted : list.Permitted call) : Does list set call := by
  cases call with
  | insert range => exact follows.insert permitted
  | popFront rangeLeft => exact follows.popFront rangeLeft

end Lazylist

open Lazylist

theorem lazylistInit_follows {memory : Lazylist} (unmarked : SentinelsUnmarked memory) :
    Follows (memory.lazylistInit numSegments) ∅ := by
  refine ⟨[], List.range (numSegments - 2), ?_, covers_nil⟩
  exact lazylistInit_represents (by decide) (by decide) unmarked

theorem lazylistCallsOn_follow {memory : Lazylist} {calls : List LazylistCall}
    (unmarked : SentinelsUnmarked memory)
    (admitted : (lazylistCallsOn memory).Admits Permitted calls) :
    Follows ((lazylistCallsOn memory).run calls) (rangeSet.run calls) := by
  refine admitted.simulates Follows (lazylistInit_follows unmarked) ?_
  intro list set call follows permitted
  obtain ⟨list', called, follows', -⟩ := follows.call permitted
  show Follows (match list.call call with | some (list, _) => list | none => list) _
  rw [called]
  exact follows'

theorem lazylistCalls_follow {calls : List LazylistCall}
    (admitted : lazylistCalls.Admits Permitted calls) :
    Follows (lazylistCalls.run calls) (rangeSet.run calls) := by
  have unmarked : SentinelsUnmarked zeroed := ⟨rfl, rfl⟩
  exact lazylistCallsOn_follow unmarked admitted

/-- After any calls the list keeps the set that the same calls leave, and the next call returns
    what it would return on the set and changes nothing if it does not change the set. -/
theorem lazylist_refines (calls : List LazylistCall)
    (admitted : lazylistCalls.Admits Permitted calls) :
    Keeps (lazylistCalls.run calls) (rangeSet.run calls) ∧
      ∀ call, (lazylistCalls.run calls).Permitted call → ∃ list',
        (lazylistCalls.run calls).call call = some (list', (setCall (rangeSet.run calls) call).2) ∧
        Keeps list' (setCall (rangeSet.run calls) call).1 ∧
        ((setCall (rangeSet.run calls) call).1 = rangeSet.run calls →
          list' = lazylistCalls.run calls) := by
  have follows := lazylistCalls_follow admitted
  refine ⟨follows.keeps, fun call permitted => ?_⟩
  obtain ⟨list', called, follows', stays⟩ := follows.call permitted
  exact ⟨list', called, follows'.keeps, stays⟩

/-- Ranges that are bridged, extended and refused, and nodes that are used again. -/
def bridgingCalls : List LazylistCall :=
  [.insert ⟨5, 9⟩, .insert ⟨1, 2⟩, .insert ⟨20, 30⟩, .insert ⟨3, 4⟩, .insert ⟨8, 12⟩, .popFront 0,
    .popFront 1, .insert ⟨31, 40⟩, .insert ⟨-7, -3⟩, .popFront (-1)]

theorem lazylist_refines_bridging :
    Keeps (lazylistCalls.run bridgingCalls) (rangeSet.run bridgingCalls) ∧
      ∀ call, (lazylistCalls.run bridgingCalls).Permitted call → ∃ list',
        (lazylistCalls.run bridgingCalls).call call =
          some (list', (setCall (rangeSet.run bridgingCalls) call).2) ∧
        Keeps list' (setCall (rangeSet.run bridgingCalls) call).1 ∧
        ((setCall (rangeSet.run bridgingCalls) call).1 = rangeSet.run bridgingCalls →
          list' = lazylistCalls.run bridgingCalls) :=
  lazylist_refines bridgingCalls (by decide +kernel)

end Pspin
