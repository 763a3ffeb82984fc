import Pspin.Ooorb.LazylistRefinement

/-! # Inserts that are not applied

An insert returns 0 if it puts its range into the list and 0 if it finds an overlap.  It would
return 1 without a free node, but `lazylist_get_free_node` compares the lock it has just taken
with `EOL` and not the index of the free nodes, so that it always finds a node: with no free
node left that is the one at the index `EOL`, far outside the nodes of the list.
-/

namespace Pspin

open Clocked

namespace Lazylist

/-- The list in other surroundings: what is outside its arrays is taken from elsewhere. -/
def withOutside (list : Lazylist) (nodes : Nat → LazylistNode) (marks : Nat → Bool) : Lazylist :=
  { list with
    nodes := fun i => if i < numSegments + 2 then list.nodes i else nodes i
    marks := fun i => if i < numSegments then list.marks i else marks i }

/-- An insert accesses nothing outside the arrays: what is there makes no difference and stays
    as it is. -/
def Confined (list : Lazylist) (range : LazylistRange) (turns : Nat) : Prop :=
  ∀ nodes marks, (list.withOutside nodes marks).lazylistInsert range turns =
    (list.lazylistInsert range turns).map fun returned =>
      (returned.1.withOutside nodes marks, returned.2)

/-- A present range can grow by the range. -/
def Mergeable (list : Lazylist) (range : LazylistRange) : Prop :=
  ∃ i ∈ list.active, (list.range i).Touches range

/-- The range meets none that is present and finds a node of its own or a range that grows. -/
def Applicable (list : Lazylist) (range : LazylistRange) : Prop :=
  Disjoint list.denotes range.toSet ∧ (list.freeNodes ≠ [] ∨ list.Mergeable range)

/-- An insert that is not applied says so and leaves everything as it was, and one that needs no
    node is applied. -/
structure ReportsFailure (list : Lazylist) (range : LazylistRange) : Prop where
  refused : ¬list.Applicable range → ∃ turns error,
    list.lazylistInsert range turns = some (list, error) ∧ error ≠ 0 ∧ list.Confined range turns
  merged : Disjoint list.denotes range.toSet → list.Mergeable range → ∃ turns list',
    list.lazylistInsert range turns = some (list', 0) ∧
      list'.denotes = list.denotes ∪ range.toSet

variable {list list' : Lazylist} {n turns pred curr : Nat} {path : List Nat}
  {range : LazylistRange} {error : Word}

/-! ## What an insert returns -/

/-- The lock that is compared with `EOL` has just been taken. -/
theorem lazylistGetFreeNode_some {node : Option Nat}
    (got : list.lazylistGetFreeNode = some (list', node)) : node = some list.freeHeadIdx := by
  by_cases free : list.freeHeadLock = 0
  · rw [lazylistGetFreeNode_eq free] at got
    exact (Prod.mk.inj (Option.some.inj got)).2.symm
  · have busy : (futexTryLock list.freeHeadLock).1 = false := by
      rw [Bool.eq_false_iff, Ne, futexTryLock_taken]
      exact free
    rw [lazylistGetFreeNode, lockFreeHead] at got
    simp [busy] at got

theorem insertBetween_error {toDelete : Option Nat}
    (between : list.insertBetween range pred curr = some (list', toDelete, error)) : error = 0 := by
  rw [insertBetween] at between
  split at between
  · simp at between
    exact between.2.2.symm
  · split at between
    · simp at between
      exact between.2.2.symm
    · split at between
      · simp at between
        exact between.2.2.symm
      · cases got : list.lazylistGetFreeNode with
        | none => simp [got] at between
        | some result =>
          obtain ⟨next, node⟩ := result
          obtain rfl := lazylistGetFreeNode_some got
          simp [got] at between
          exact between.2.2.symm

/-- An insert that returns returns 0. -/
theorem lazylistInsert_error (returned : list.lazylistInsert range turns = some (list', error)) :
    error = 0 := by
  induction turns generalizing list with
  | zero => cases returned
  | succ turns inductionHypothesis =>
    rw [lazylistInsert] at returned
    simp only [Option.bind_eq_bind, Option.bind_eq_some_iff] at returned
    obtain ⟨found, -, returned⟩ := returned
    cases found with
    | none =>
      obtain ⟨-, rfl⟩ := Prod.mk.inj (Option.some.inj returned)
      rfl
    | some found =>
      obtain ⟨pred, curr⟩ := found
      simp only [Option.bind_eq_some_iff] at returned
      obtain ⟨locked, -, locked', -, returned⟩ := returned
      split at returned
      next =>
        simp only [Option.bind_eq_some_iff] at returned
        obtain ⟨⟨between, toDelete, error'⟩, did, returned⟩ := returned
        have noError := insertBetween_error did
        cases toDelete with
        | none =>
          obtain ⟨-, rfl⟩ := Prod.mk.inj (Option.some.inj returned)
          exact noError
        | some node =>
          simp only [Option.bind_eq_some_iff] at returned
          obtain ⟨_, _, returned⟩ := returned
          obtain ⟨-, rfl⟩ := Prod.mk.inj (Option.some.inj returned)
          exact noError
      next => exact inductionHypothesis returned

/-! ## Refused inserts -/

/-- No insert that is not applied can be told from one that is. -/
theorem not_reports_of_not_applicable (refused : ¬list.Applicable range) :
    ¬list.ReportsFailure range := by
  intro reports
  obtain ⟨turns, error, returned, nonzero, -⟩ := reports.refused refused
  exact nonzero (lazylistInsert_error returned)

/-- Without a free node the insert takes the one at `EOL`. -/
theorem Represents.lazylistInsert_exhausted (represents : Represents n list path [])
    (insertable : Insertable range)
    (apart : Disjoint (covers (path.map list.range)) range.toSet)
    (alone : ¬∃ i ∈ path, (list.range i).Touches range) (enough : path.length + 1 < turns) :
    ∃ list', list.lazylistInsert range turns = some (list', 0) ∧ list'.range eol = range := by
  obtain ⟨before, after, pred, rfl, cut⟩ := represents.cut insertable
  have fits := cut.disjoint_iff.mp apart
  have small := represents.small
  have predLt := cut.pred_lt
  have nextLt := cut.next_lt
  have head : list.freeHeadIdx = eol := represents.linkedFree
  have apartLeft : ¬list.connectsLeft pred range = true := by
    intro connected
    obtain ⟨rest, rfl, next⟩ := cut.connectsLeft_iff.mp connected
    have nonempty := represents.normal.nonempty (list.range pred) (by simp)
    have ordered := insertable.ordered
    unfold right at next
    refine alone ⟨pred, by simp, ?_, ?_⟩ <;> omega
  have apartRight : ¬list.connectsRight (list.next pred) range = true := by
    intro connected
    obtain ⟨rest, rfl, next⟩ := cut.connectsRight_iff.mp connected
    have nonempty := represents.normal.nonempty (list.range (list.next pred)) (by simp)
    have ordered := insertable.ordered
    unfold left at next
    refine alone ⟨list.next pred, by simp, ?_, ?_⟩ <;> omega
  have enough' : before.length + 1 < turns := by
    rw [List.length_append] at enough
    omega
  -- the head of the free nodes is `EOL`, and nothing checks it
  have taken : list.insertBetween range pred (list.next pred) =
      some ((((((list.setFreeHead (list.next eol)).setRange eol range).setMark (list.idx eol)
        false).setLock eol 0).setNext eol (list.idx (list.next pred))).setNext pred (list.idx eol),
        none, 0) := by
    rw [insertBetween, if_neg (by simp [apartLeft]), if_neg apartLeft, if_neg apartRight,
      lazylistGetFreeNode_eq represents.freeUnlocked, head]
    simp
  refine ⟨_, cut.lazylistInsert_eq fits enough' taken ?_ represents.freeUnlocked, ?_⟩
  · have predNe : pred ≠ eol := by omega
    have nextNe : list.next pred ≠ eol := by omega
    simpa [predNe, nextNe] using cut.unlocked
  · simp [collected]

theorem nodes_withOutside {nodes : Nat → LazylistNode} {marks : Nat → Bool} {i : Nat}
    (inside : i < numSegments + 2) : (list.withOutside nodes marks).nodes i = list.nodes i :=
  if_pos inside

/-- A list is the same list in other surroundings. -/
theorem Represents.withOutside {free : List Nat} (represents : Represents n list path free)
    (within : n + 2 ≤ numSegments) (nodes : Nat → LazylistNode) (marks : Nat → Bool) :
    Represents n (list.withOutside nodes marks) path free := by
  have same : ∀ i < n + 2, (list.withOutside nodes marks).nodes i = list.nodes i :=
    fun i less => nodes_withOutside (by omega)
  have lt : ∀ i ∈ path ++ free, i < n + 2 := fun i member => by
    have := represents.lt member
    omega
  have ranges : path.map (list.withOutside nodes marks).range = path.map list.range :=
    List.map_congr_left fun i member => by
      rw [range, range, same i (lt i (List.mem_append_left _ member))]
  exact {
    small := represents.small
    head := represents.head
    idx i less := by
      rw [Lazylist.idx, same i less]
      exact represents.idx i less
    unlocked i less := by
      rw [lock, same i less]
      exact represents.unlocked i less
    freeUnlocked := represents.freeUnlocked
    sentinelLeft := by
      rw [range, same n (by omega)]
      exact represents.sentinelLeft
    sentinelRight := by
      rw [range, same (n + 1) (by omega)]
      exact represents.sentinelRight
    unmarked i member := by
      have inside : i < numSegments := by
        simp only [List.mem_cons] at member
        obtain rfl | rfl | member := member
        · omega
        · omega
        · have := represents.lt (List.mem_append_left free member)
          omega
      have unmarked := represents.unmarked i member
      simpa [Lazylist.withOutside, inside] using unmarked
    linked := by
      refine represents.linked.congr fun i member => ?_
      rw [next, next, same i ?_]
      obtain rfl | member := List.mem_cons.mp member
      · omega
      · exact lt i (List.mem_append_left _ member)
    ended := by
      rw [next, same (n + 1) (by omega)]
      exact represents.ended
    linkedFree := by
      refine represents.linkedFree.congr fun i member => ?_
      rw [next, next, same i (lt i (List.mem_append_right _ member))]
    pool := represents.pool
    normal := by
      rw [ranges]
      exact represents.normal
    bounded i member := by
      rw [left, right, range, same i (lt i (List.mem_append_left _ member))]
      exact represents.bounded i member }

/-- Without a free node the insert writes outside the arrays. -/
theorem Represents.not_confined (represents : Represents n list path [])
    (within : n + 2 ≤ numSegments) (insertable : Insertable range)
    (apart : Disjoint (covers (path.map list.range)) range.toSet)
    (alone : ¬∃ i ∈ path, (list.range i).Touches range) (enough : path.length + 1 < turns) :
    ¬list.Confined range turns := by
  intro confined
  have outside : ¬eol < numSegments + 2 := by decide
  -- surroundings that have another range where the insert writes its own
  have moved := confined (fun _ => ⟨0, ⟨range.left + 1, 0⟩, 0, 0⟩) fun _ => false
  have represents' := represents.withOutside within (fun _ => ⟨0, ⟨range.left + 1, 0⟩, 0, 0⟩)
    fun _ => false
  have same : ∀ i ∈ path, (list.withOutside (fun _ => ⟨0, ⟨range.left + 1, 0⟩, 0, 0⟩)
      fun _ => false).range i = list.range i := fun i member => by
    have := represents.lt (List.mem_append_left [] member)
    rw [Lazylist.range, Lazylist.range, nodes_withOutside (by omega)]
  obtain ⟨list', inserted, -⟩ :=
    represents.lazylistInsert_exhausted insertable apart alone enough
  obtain ⟨list'', inserted', written⟩ := represents'.lazylistInsert_exhausted insertable
    (by rwa [List.map_congr_left same])
    (by
      rintro ⟨i, member, touches⟩
      rw [same i member] at touches
      exact alone ⟨i, member, touches⟩) enough
  rw [inserted, inserted', Option.map_some, Option.some.injEq, Prod.mk.injEq] at moved
  obtain ⟨rfl, -⟩ := moved
  rw [Lazylist.range, Lazylist.withOutside] at written
  simp only [if_neg outside] at written
  have start := congrArg Clocked.Interval.left written
  simp at start

end Lazylist

open Lazylist

/-! ## After any calls -/

section Calls

variable {memory : Lazylist} {calls : List LazylistCall} {range : LazylistRange}

theorem reports_of_applicable (unmarked : SentinelsUnmarked memory)
    (admitted : (lazylistCallsOn memory).Admits Permitted calls) (insertable : Insertable range)
    (applicable : ((lazylistCallsOn memory).run calls).Applicable range) :
    ((lazylistCallsOn memory).run calls).ReportsFailure range := by
  refine ⟨fun refused => absurd applicable refused, fun apart mergeable => ?_⟩
  have follows := lazylistCallsOn_follow unmarked admitted
  obtain ⟨list', called, follows', -⟩ := follows.insert ⟨insertable, .inr mergeable⟩
  obtain ⟨⟨list, error⟩, inserted, same⟩ := Option.map_eq_some_iff.mp called
  obtain ⟨rfl, result⟩ := Prod.mk.inj same
  have denotes := follows.keeps.denotes
  have denotes' := follows'.keeps.denotes
  rw [denotes] at apart
  rw [setCall, if_pos apart] at denotes' result
  obtain rfl : error = 0 := by simpa using result
  exact ⟨numSegments, list, inserted, by rw [denotes, denotes']⟩

/-- Calls that have used up the nodes leave an insert that needs one to write outside the arrays. -/
theorem lazylistInsert_not_confined (unmarked : SentinelsUnmarked memory)
    (admitted : (lazylistCallsOn memory).Admits Permitted calls) (insertable : Insertable range)
    (exhausted : ((lazylistCallsOn memory).run calls).freeNodes = [])
    (apart : Disjoint ((lazylistCallsOn memory).run calls).denotes range.toSet)
    (alone : ¬((lazylistCallsOn memory).run calls).Mergeable range) :
    ¬((lazylistCallsOn memory).run calls).Confined range numSegments := by
  obtain ⟨path, free, represents, -⟩ := lazylistCallsOn_follow unmarked admitted
  obtain rfl : free = [] := by rw [← represents.freeNodes_eq, exhausted]
  have length := represents.length_le
  have positive : 2 < numSegments := by decide
  rw [denotes, represents.active_eq] at apart
  rw [Mergeable, represents.active_eq] at alone
  refine represents.not_confined (by decide) insertable apart alone ?_
  rw [List.length_nil] at length
  omega

/-- After any calls an insert reports its failure exactly if it does not fail. -/
theorem lazylistInsert_reports_iff (memory : Lazylist) (calls : List LazylistCall)
    (range : LazylistRange) (unmarked : SentinelsUnmarked memory)
    (admitted : (lazylistCallsOn memory).Admits Permitted calls) (insertable : Insertable range) :
    ((lazylistCallsOn memory).run calls).ReportsFailure range ↔
      ((lazylistCallsOn memory).run calls).Applicable range := by
  constructor
  · intro reports
    by_contra refused
    exact not_reports_of_not_applicable refused reports
  · exact reports_of_applicable unmarked admitted insertable

theorem lazylistInsert_reports_iff_present :
    ((lazylistCallsOn zeroed).run [.insert ⟨5, 9⟩]).ReportsFailure ⟨8, 12⟩ ↔
      ((lazylistCallsOn zeroed).run [.insert ⟨5, 9⟩]).Applicable ⟨8, 12⟩ :=
  lazylistInsert_reports_iff zeroed [.insert ⟨5, 9⟩] ⟨8, 12⟩ ⟨rfl, rfl⟩ (by decide +kernel) (by decide)

/-- An overlap is not reported. -/
theorem lazylistInsert_overlap :
    ¬((lazylistCallsOn zeroed).run [.insert ⟨5, 9⟩]).ReportsFailure ⟨8, 12⟩ := by
  have admitted : (lazylistCallsOn zeroed).Admits Permitted [.insert ⟨5, 9⟩] := by decide +kernel
  have denotes := (lazylistCallsOn_follow ⟨rfl, rfl⟩ admitted).keeps.denotes
  refine not_reports_of_not_applicable fun applicable => ?_
  have apart := applicable.1
  rw [denotes] at apart
  have present : (8 : Int) ∈ rangeSet.run [.insert ⟨5, 9⟩] := by
    show (8 : Int) ∈ (setCall ∅ (.insert ⟨5, 9⟩)).1
    rw [setCall, if_pos (Set.empty_disjoint _)]
    exact .inr ⟨by decide, by decide⟩
  exact Set.disjoint_left.mp apart present ⟨by decide, by decide⟩

end Calls

end Pspin
