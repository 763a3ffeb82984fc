import Pspin.Ooorb.LazylistPool

/-! # What the calls do to a list of ranges

A call that runs alone finds every lock free and gives it back, so that what is
left of it is what it does to the nodes: nothing, a range that grows, a node linked
in, or a node taken out.
-/

namespace Pspin

open Clocked

namespace Lazylist

variable {list : Lazylist} {n turns start pred curr node : Nat} {path free before after : List Nat}
  {range : LazylistRange} {rangeLeft : Int}

/-! ## Free nodes -/

theorem lazylistGetFreeNode_eq (free : list.freeHeadLock = 0) : list.lazylistGetFreeNode =
    some (list.setFreeHead (list.next list.freeHeadIdx), some list.freeHeadIdx) := by
  obtain ⟨headIdx, freeHeadIdx, freeHeadLock, nodes, marks⟩ := list
  obtain rfl : freeHeadLock = 0 := free
  have taken : ¬1#32 = BitVec.ofNat 32 eol := by decide
  simp [lazylistGetFreeNode, lockFreeHead, futexTryLock, amoOr, unlockFreeHead, setFreeHead,
    setFreeHeadLock, taken, Lazylist.next]

theorem lazylistPutFreeNode_eq (free : list.freeHeadLock = 0) : list.lazylistPutFreeNode node =
    some ((list.setNext node list.freeHeadIdx).setFreeHead
      ((list.setNext node list.freeHeadIdx).idx node)) := by
  obtain ⟨headIdx, freeHeadIdx, freeHeadLock, nodes, marks⟩ := list
  obtain rfl : freeHeadLock = 0 := free
  rfl

/-! ## Where a range belongs -/

/-- The loop goes past the nodes that end before the range. -/
theorem findPredLoop_eq {cells : List Nat} (linked : Clocked.Path list.next curr (cells ++ [pred]) node)
    (below : ∀ i ∈ cells ++ [pred], list.right i < range.left) (stop : range.left ≤ list.right node)
    (enough : cells.length + 1 < turns) :
    list.findPredLoop range turns start curr = some (pred, node) := by
  induction cells generalizing turns start curr with
  | nil =>
    obtain ⟨rfl, rfl⟩ := linked
    obtain ⟨turns, rfl⟩ : ∃ more, turns = more + 2 := ⟨turns - 2, by simp at enough; omega⟩
    rw [findPredLoop, if_pos (below pred (by simp)), findPredLoop, if_neg (Int.not_lt.mpr stop)]
  | cons cell cells inductionHypothesis =>
    obtain ⟨rfl, linked⟩ := linked
    obtain ⟨turns, rfl⟩ : ∃ more, turns = more + 1 := ⟨turns - 1, by omega⟩
    rw [findPredLoop, if_pos (below cell (by simp))]
    exact inductionHypothesis linked (fun i member => below i (List.mem_cons_of_mem _ member))
      (Nat.lt_of_succ_lt_succ enough)

/-- A represented list, cut where a range belongs. -/
structure Cut (n : Nat) (list : Lazylist) (before after free : List Nat) (pred : Nat)
    (range : LazylistRange) : Prop where
  represents : Represents n list (before ++ after) free
  insertable : Insertable range
  last : ∃ pre, n :: before = pre ++ [pred]
  below : ∀ i ∈ before, list.right i < range.left
  above : ∀ i ∈ after, range.left ≤ list.right i

theorem Represents.cut (represents : Represents n list path free) (insertable : Insertable range) :
    ∃ before after pred, path = before ++ after ∧ Cut n list before after free pred range := by
  obtain ⟨_, _, split, below, above⟩ := represents.normal.cut range.left
  obtain ⟨before, after, rfl, rfl, rfl⟩ := List.map_eq_append_iff.mp split
  obtain ⟨pre, pred, last⟩ := List.eq_nil_or_concat' (n :: before) |>.resolve_left (by simp)
  refine ⟨before, after, pred, rfl, represents, insertable, ⟨pre, last⟩, ?_, ?_⟩
  · exact fun i member => below _ (List.mem_map_of_mem member)
  · exact fun i member => above _ (List.mem_map_of_mem member)

namespace Cut

/-- The successor of the last node before the cut is the next one or the right sentinel. -/
theorem next_pred (cut : Cut n list before after free pred range) :
    (after = [] ∧ list.next pred = n + 1) ∨ ∃ rest, after = list.next pred :: rest := by
  obtain ⟨pre, last⟩ := cut.last
  obtain ⟨-, linked⟩ := cut.represents.linked_at last
  cases after with
  | nil => exact .inl ⟨rfl, linked⟩
  | cons cell rest => exact .inr ⟨rest, by rw [linked.1]⟩

theorem lazylistFindPred_eq (cut : Cut n list before after free pred range)
    (enough : before.length + 1 < turns) : list.lazylistFindPred turns range =
      some (if list.left (list.next pred) ≤ range.right then none
        else some (pred, list.next pred)) := by
  obtain ⟨pre, last⟩ := cut.last
  have represents := cut.represents
  obtain ⟨linked, -⟩ := represents.linked_at last
  -- the loop ends at the node that does not end before the range
  have stop : range.left ≤ list.right (list.next pred) := by
    obtain ⟨-, isLast⟩ | ⟨rest, rfl⟩ := cut.next_pred
    · have := cut.insertable.ordered
      have := cut.insertable.below
      rw [isLast, right, represents.sentinelRight]
      show range.left ≤ int32Max
      omega
    · exact cut.above _ List.mem_cons_self
  have below : ∀ i ∈ pre ++ [pred], list.right i < range.left := by
    rw [← last]
    refine List.forall_mem_cons.mpr ⟨?_, cut.below⟩
    rw [right, represents.sentinelLeft]
    exact cut.insertable.above
  have found : list.findPredLoop range turns list.headIdx list.headIdx =
      some (pred, list.next pred) := by
    rw [represents.head]
    refine findPredLoop_eq (Path.append_cons_iff.mpr ⟨linked, rfl⟩) below stop ?_
    have length := congrArg List.length last
    simp at length
    omega
  rw [lazylistFindPred, found]
  by_cases overlap : list.left (list.next pred) ≤ range.right <;> simp [overlap]

/-- Finding an overlap is meeting the set. -/
theorem disjoint_iff (cut : Cut n list before after free pred range) :
    Disjoint (covers ((before ++ after).map list.range)) range.toSet ↔
      range.right < list.left (list.next pred) := by
  have normal := cut.represents.normal
  rw [List.map_append] at normal ⊢
  rw [normal.disjoint_iff cut.insertable.ordered (by simpa [right] using cut.below)
    (by simpa [right] using cut.above)]
  obtain ⟨rfl, isLast⟩ | ⟨rest, rfl⟩ := cut.next_pred
  · have := cut.insertable.below
    rw [isLast, left, cut.represents.sentinelRight]
    simp only [List.map_nil, List.not_mem_nil, false_implies, implies_true, true_iff]
    exact this
  · rw [List.map_cons, Normal.append_iff, Normal.cons_iff] at normal
    rw [List.map_cons, List.forall_mem_cons]
    refine and_iff_left_of_imp fun here other member => ?_
    have apart := normal.2.1.2.1 other member
    have nonempty := normal.2.1.1
    omega

/-- The last node before the cut is the left sentinel or has a range. -/
theorem pred_eq (cut : Cut n list before after free pred range) :
    (before = [] ∧ pred = n) ∨ ∃ rest, before = rest ++ [pred] := by
  obtain ⟨pre, last⟩ := cut.last
  obtain rfl | ⟨rest, other, rfl⟩ := List.eq_nil_or_concat' before
  · have same := List.append_inj' (show [] ++ [n] = pre ++ [pred] from last) rfl
    exact .inl ⟨rfl, (List.singleton_inj.mp same.2).symm⟩
  · have same := List.append_inj' (show n :: rest ++ [other] = pre ++ [pred] from last) rfl
    exact .inr ⟨rest, by rw [List.singleton_inj.mp same.2]⟩

theorem connectsLeft_iff (cut : Cut n list before after free pred range) :
    list.connectsLeft pred range = true ↔
      ∃ rest, before = rest ++ [pred] ∧ list.right pred + 1 = range.left := by
  rw [connectsLeft, Bool.and_eq_true, decide_eq_true_iff, decide_eq_true_iff]
  obtain ⟨rfl, rfl⟩ | ⟨rest, rfl⟩ := cut.pred_eq
  · simp [left, cut.represents.sentinelLeft]
  · have bounded := (cut.represents.bounded pred (by simp)).1
    refine ⟨fun connected => ⟨rest, rfl, connected.1⟩, ?_⟩
    rintro ⟨_, _, next⟩
    exact ⟨next, bounded⟩

theorem connectsRight_iff (cut : Cut n list before after free pred range) :
    list.connectsRight (list.next pred) range = true ↔
      ∃ rest, after = list.next pred :: rest ∧ range.right + 1 = list.left (list.next pred) := by
  rw [connectsRight, Bool.and_eq_true, decide_eq_true_iff, decide_eq_true_iff]
  obtain ⟨rfl, isLast⟩ | ⟨rest, rfl⟩ := cut.next_pred
  · simp [isLast, left, cut.represents.sentinelRight]
  · have bounded := (cut.represents.bounded (list.next pred) (by simp)).2
    have nonempty := cut.represents.normal.nonempty (list.range (list.next pred)) (by simp)
    have inside : list.left (list.next pred) < int32Max := lt_of_le_of_lt nonempty bounded
    refine ⟨fun connected => ⟨rest, rfl, connected.1⟩, ?_⟩
    rintro ⟨_, _, next⟩
    exact ⟨next, inside⟩

/-- A range that is not next to the last node before the cut is next to none before it. -/
theorem below_of_not_connectsLeft (cut : Cut n list before after free pred range)
    (apart : ¬list.connectsLeft pred range = true) :
    ∀ other ∈ before.map list.range, other.right + 1 < range.left := by
  obtain ⟨rfl, rfl⟩ | ⟨rest, rfl⟩ := cut.pred_eq
  · simp
  · have notNext : ¬list.right pred + 1 = range.left := fun next =>
      apart (cut.connectsLeft_iff.mpr ⟨rest, rfl, next⟩)
    have ends := cut.below pred (by simp)
    have normal := cut.represents.normal
    rw [List.map_append, Normal.append_iff, List.map_append, Normal.append_iff] at normal
    have nonempty := normal.1.2.1.nonempty (list.range pred) (by simp)
    intro other member
    rw [List.map_append, List.mem_append] at member
    unfold right at notNext ends
    obtain inRest | isPred := member
    · have beyond := normal.1.2.2 other inRest (list.range pred) (by simp)
      omega
    · obtain rfl : other = list.range pred := by simpa using isPred
      omega

/-- A range that is not next to the first node after the cut is next to none after it. -/
theorem above_of_not_connectsRight (cut : Cut n list before after free pred range)
    (fits : range.right < list.left (list.next pred))
    (apart : ¬list.connectsRight (list.next pred) range = true) :
    ∀ other ∈ after.map list.range, range.right + 1 < other.left := by
  obtain ⟨rfl, isLast⟩ | ⟨rest, rfl⟩ := cut.next_pred
  · simp
  · have notNext : ¬range.right + 1 = list.left (list.next pred) := fun next =>
      apart (cut.connectsRight_iff.mpr ⟨rest, rfl, next⟩)
    have normal := cut.represents.normal
    rw [List.map_append, Normal.append_iff, List.map_cons, Normal.cons_iff] at normal
    obtain ⟨nonempty, beyond, -⟩ := normal.2.1
    rw [List.map_cons, List.forall_mem_cons]
    unfold left at notNext fits
    refine ⟨by omega, fun other member => ?_⟩
    have := beyond other member
    omega

end Cut

/-! ## Inserting -/

/-- What is left to do after the locks are given back: a node that was taken out becomes free. -/
def collected (list : Lazylist) : Option Nat → Lazylist
  | none => list
  | some node => (list.setNext node list.freeHeadIdx).setFreeHead (list.idx node)

/-- The locks of other nodes do not matter between them. -/
theorem insertBetween_setLock {i : Nat} {word : Word} (other : list.freeHeadIdx ≠ i)
    (unlocked : list.freeHeadLock = 0) :
    (list.setLock i word).insertBetween range pred curr =
      (list.insertBetween range pred curr).map fun result => (result.1.setLock i word, result.2) := by
  have sameLeft : (list.setLock i word).connectsLeft pred range = list.connectsLeft pred range := by
    simp [connectsLeft]
  have sameRight : (list.setLock i word).connectsRight curr range =
      list.connectsRight curr range := by
    simp [connectsRight]
  rw [insertBetween, insertBetween, sameLeft, sameRight]
  cases list.connectsLeft pred range with
  | true =>
    cases list.connectsRight curr range with
    | true => simp [setRange_setLock, setMark_setLock, setNext_setLock]
    | false => simp [setRange_setLock]
  | false =>
    cases list.connectsRight curr range with
    | true => simp [setRange_setLock]
    | false =>
      have unlocked' : (list.setLock i word).freeHeadLock = 0 := unlocked
      rw [lazylistGetFreeNode_eq unlocked, lazylistGetFreeNode_eq unlocked']
      simp [setFreeHead_setLock, setRange_setLock, setMark_setLock, setNext_setLock,
        setLock_comm other.symm]

namespace Cut

theorem pred_lt (cut : Cut n list before after free pred range) : pred < n + 2 := by
  obtain ⟨pre, last⟩ := cut.last
  have := cut.represents.pred_le last
  omega

theorem next_lt (cut : Cut n list before after free pred range) : list.next pred < n + 2 := by
  obtain ⟨-, isLast⟩ | ⟨rest, rfl⟩ := cut.next_pred
  · omega
  · have := cut.represents.lt (i := list.next pred) (by simp)
    omega

theorem pred_ne_next (cut : Cut n list before after free pred range) : pred ≠ list.next pred := by
  obtain ⟨pre, last⟩ := cut.last
  obtain ⟨-, isLast⟩ | ⟨rest, rfl⟩ := cut.next_pred
  · have := cut.represents.pred_le last
    omega
  · have nodup := cut.represents.nodup_at last
    grind

theorem unmarked (cut : Cut n list before after free pred range) :
    list.marks pred = false ∧ list.marks (list.next pred) = false := by
  have marks := cut.represents.unmarked
  constructor
  · obtain ⟨rfl, rfl⟩ | ⟨rest, rfl⟩ := cut.pred_eq
    · exact marks _ (by simp)
    · exact marks _ (by simp)
  · obtain ⟨rfl, isLast⟩ | ⟨rest, rfl⟩ := cut.next_pred
    · exact marks _ (by simp [isLast])
    · exact marks _ (by simp)

theorem freeHead_ne (cut : Cut n list before after free pred range) :
    list.freeHeadIdx ≠ pred ∧ list.freeHeadIdx ≠ list.next pred := by
  have represents := cut.represents
  have linkedFree := represents.linkedFree
  have predLt := cut.pred_lt
  have nextLt := cut.next_lt
  cases free with
  | nil =>
    have small := represents.small
    have ended : list.freeHeadIdx = eol := linkedFree
    omega
  | cons node free =>
    obtain ⟨rfl, -⟩ := linkedFree
    have below := represents.lt (i := list.freeHeadIdx) (by simp)
    have nodup := represents.nodup
    obtain ⟨rfl, isLast⟩ | ⟨rest, rfl⟩ := cut.next_pred
    · obtain ⟨rfl, rfl⟩ | ⟨rest, rfl⟩ := cut.pred_eq <;> grind
    · obtain ⟨rfl, rfl⟩ | ⟨rest, rfl⟩ := cut.pred_eq <;> grind

theorem validate (cut : Cut n list before after free pred range) :
    list.lazylistValidate pred (list.next pred) = true := by
  simp [lazylistValidate, cut.represents.idx _ cut.pred_lt, cut.represents.idx _ cut.next_lt,
    cut.unmarked]

/-- An insertion that finds no overlap is what it does between its locks. -/
theorem lazylistInsert_eq (cut : Cut n list before after free pred range)
    (fits : range.right < list.left (list.next pred)) (enough : before.length + 1 < turns)
    {list' : Lazylist} {toDelete : Option Nat} {error : Word}
    (between : list.insertBetween range pred (list.next pred) = some (list', toDelete, error))
    (unlocked : list'.lock pred = 0 ∧ list'.lock (list.next pred) = 0)
    (freeUnlocked : list'.freeHeadLock = 0) :
    lazylistInsert range turns list = some (list'.collected toDelete, error) := by
  obtain ⟨turns, rfl⟩ : ∃ more, turns = more + 1 := ⟨turns - 1, by omega⟩
  have represents := cut.represents
  rw [lazylistInsert, cut.lazylistFindPred_eq enough, if_neg (Int.not_le.mpr fits)]
  simp only [Option.bind_eq_bind, Option.bind_some]
  rw [lock_both _ cut.pred_ne_next (represents.unlocked _ cut.pred_lt)
    (represents.unlocked _ cut.next_lt)]
  -- the two locks are no part of what the stores between them do
  have between' : ((list.setLock pred 1).setLock (list.next pred) 1).insertBetween range pred
      (list.next pred) = _ := insertBetween_setLock cut.freeHead_ne.2 represents.freeUnlocked
  rw [insertBetween_setLock cut.freeHead_ne.1 represents.freeUnlocked, between] at between'
  simp only [Option.map_some] at between'
  rw [if_pos (by simpa using cut.validate), between', Option.bind_some]
  simp only
  rw [unlock_both cut.pred_ne_next unlocked.1 unlocked.2]
  cases toDelete with
  | none => rfl
  | some node =>
    simp only
    rw [lazylistPutFreeNode_eq freeUnlocked, idx_setNext]
    rfl

/-- What an insertion between its locks comes to: the list with the range in it. -/
def Inserts (n : Nat) (list : Lazylist) (path : List Nat) (range : LazylistRange) (pred : Nat) :
    Prop :=
  ∃ list' toDelete path' free',
    list.insertBetween range pred (list.next pred) = some (list', toDelete, 0) ∧
    (list'.lock pred = 0 ∧ list'.lock (list.next pred) = 0) ∧ list'.freeHeadLock = 0 ∧
    Represents n (list'.collected toDelete) path' free' ∧
    covers (path'.map (list'.collected toDelete).range) =
      covers (path.map list.range) ∪ range.toSet

/-- The locks of the two nodes are free. -/
theorem unlocked (cut : Cut n list before after free pred range) :
    list.lock pred = 0 ∧ list.lock (list.next pred) = 0 :=
  ⟨cut.represents.unlocked _ cut.pred_lt, cut.represents.unlocked _ cut.next_lt⟩

/-- A range next to the one before it makes that one grow. -/
theorem inserts_left (cut : Cut n list before after free pred range)
    (fits : range.right < list.left (list.next pred))
    (connected : list.connectsLeft pred range = true)
    (apart : ¬list.connectsRight (list.next pred) range = true) :
    Inserts n list (before ++ after) range pred := by
  have above := cut.above_of_not_connectsRight fits apart
  obtain ⟨rest, rfl, next⟩ := cut.connectsLeft_iff.mp connected
  have represents := cut.represents
  have ordered := cut.insertable.ordered
  have normal := represents.normal
  have bounded := represents.bounded pred (by simp)
  rw [List.append_assoc, List.singleton_append] at represents
  rw [List.append_assoc, List.singleton_append, List.map_append, List.map_cons] at normal
  obtain ⟨restNormal, nonempty, beyond, -⟩ := normal.cons_of_append_cons
  refine ⟨list.setRange pred ⟨list.left pred, range.right⟩, none, rest ++ pred :: after, free, ?_, ?_,
    represents.freeUnlocked, ?_, ?_⟩
  · rw [insertBetween, connected, Bool.true_and, if_neg apart, if_pos rfl]
  · simpa using cut.unlocked
  · refine represents.setRange (restNormal.middle ?_ beyond above) ⟨bounded.1, cut.insertable.below⟩
    show (list.range pred).left ≤ range.right
    unfold right at next
    omega
  · have joined := Interval.toSet_join nonempty ordered next
    rw [collected, represents.map_setRange, List.append_assoc, List.singleton_append,
      List.map_append, List.map_cons, covers_append, covers_append, covers_cons, covers_cons, left,
      joined]
    ac_rfl

/-- A range next to the one after it makes that one grow. -/
theorem inserts_right (cut : Cut n list before after free pred range)
    (apart : ¬list.connectsLeft pred range = true)
    (connected : list.connectsRight (list.next pred) range = true) :
    Inserts n list (before ++ after) range pred := by
  have below := cut.below_of_not_connectsLeft apart
  obtain ⟨rest, rfl, next⟩ := cut.connectsRight_iff.mp connected
  have represents := cut.represents
  have ordered := cut.insertable.ordered
  have normal := represents.normal
  have bounded := represents.bounded (list.next pred) (by simp)
  rw [List.map_append, List.map_cons] at normal
  obtain ⟨restNormal, nonempty, -, beyond⟩ := normal.cons_of_append_cons
  refine ⟨list.setRange (list.next pred) ⟨range.left, list.right (list.next pred)⟩, none,
    before ++ list.next pred :: rest, free, ?_, ?_, represents.freeUnlocked, ?_, ?_⟩
  · rw [insertBetween, if_neg (by simp [apart]), if_neg apart, if_pos connected]
  · simpa using cut.unlocked
  · refine represents.setRange (restNormal.middle ?_ below beyond) ⟨cut.insertable.above, bounded.2⟩
    show range.left ≤ (list.range (list.next pred)).right
    unfold left at next
    omega
  · have joined := Interval.toSet_join ordered nonempty next
    rw [collected, represents.map_setRange, List.map_append, List.map_cons, covers_append,
      covers_append, covers_cons, covers_cons, right, joined]
    ac_rfl

/-- A range between two others makes one of them, and the node of the second becomes free. -/
theorem inserts_both (cut : Cut n list before after free pred range)
    (connectedLeft : list.connectsLeft pred range = true)
    (connectedRight : list.connectsRight (list.next pred) range = true) :
    Inserts n list (before ++ after) range pred := by
  obtain ⟨pre, last⟩ := cut.last
  obtain ⟨rest, rfl, next⟩ := cut.connectsLeft_iff.mp connectedLeft
  obtain ⟨rest', rfl, next'⟩ := cut.connectsRight_iff.mp connectedRight
  have represents := cut.represents
  have ordered := cut.insertable.ordered
  have boundedLeft := represents.bounded pred (by simp)
  have boundedRight := represents.bounded (list.next pred) (by simp)
  have normal := represents.normal
  rw [List.map_append, List.map_cons] at normal
  obtain ⟨normal, nonempty', -, beyond'⟩ := normal.cons_of_append_cons
  rw [List.map_append, List.map_singleton, List.append_assoc, List.singleton_append] at normal
  obtain ⟨restNormal, nonempty, beyond, -⟩ := normal.cons_of_append_cons
  have unlinked := represents.unlink last
  rw [List.append_assoc, List.singleton_append] at unlinked
  -- the stores are those that unlink the second node and give the first one its range
  have same : ((((list.setRange pred ⟨list.left pred, list.right (list.next pred)⟩).setMark
      (list.next pred) true).setNext pred (list.next (list.next pred))).collected
        (some (list.next pred))) = (list.unlinkNode pred (list.next pred)).setRange pred
          ⟨list.left pred, list.right (list.next pred)⟩ := by
    simp [collected, unlinkNode, setMark_setRange, setNext_setRange, setFreeHead_setRange,
      represents.idx _ cut.next_lt]
  refine ⟨((list.setRange pred ⟨list.left pred, list.right (list.next pred)⟩).setMark
      (list.next pred) true).setNext pred (list.next (list.next pred)), some (list.next pred),
    rest ++ pred :: rest', list.next pred :: free, ?_, ?_, represents.freeUnlocked, ?_, ?_⟩
  · rw [insertBetween, connectedLeft, connectedRight, Bool.true_and, if_pos rfl]
    simp [represents.idx _ cut.next_lt]
  · simpa using cut.unlocked
  · rw [same]
    refine unlinked.setRange ?_ ⟨boundedLeft.1, boundedRight.2⟩
    rw [range_unlinkNode]
    refine restNormal.middle ?_ beyond beyond'
    show (list.range pred).left ≤ (list.range (list.next pred)).right
    unfold right at next
    unfold left at next'
    omega
  · have bridged := Interval.toSet_bridge nonempty ordered nonempty' next next'
    rw [same, unlinked.map_setRange, range_unlinkNode, List.append_assoc, List.singleton_append,
      List.map_append, List.map_cons, List.map_cons, covers_append, covers_append, covers_cons,
      covers_cons, covers_cons, left, right, bridged]
    ac_rfl

/-- A range that is next to no other gets a node of its own. -/
theorem inserts_new {node : Nat} (cut : Cut n list before after (node :: free) pred range)
    (fits : range.right < list.left (list.next pred))
    (apart : ¬list.connectsLeft pred range = true)
    (apart' : ¬list.connectsRight (list.next pred) range = true) :
    Inserts n list (before ++ after) range pred := by
  obtain ⟨pre, last⟩ := cut.last
  have below := cut.below_of_not_connectsLeft apart
  have above := cut.above_of_not_connectsRight fits apart'
  have represents := cut.represents
  have normal := represents.normal
  rw [List.map_append] at normal
  have nodeLt : node < n + 2 := by
    have := represents.lt (i := node) (by simp)
    omega
  obtain ⟨first, -⟩ := represents.linkedFree
  -- the stores are those that link the node
  have same : list.insertBetween range pred (list.next pred) =
      some (list.linkNode pred node range, none, 0) := by
    rw [insertBetween, if_neg (by simp [apart]), if_neg apart, if_neg apart',
      lazylistGetFreeNode_eq represents.freeUnlocked, ← first]
    have unlocked := represents.unlocked node nodeLt
    simp only [Option.bind_eq_bind, Option.bind_some, idx_setNext, idx_setLock, idx_setMark,
      idx_setRange, idx_setFreeHead, represents.idx _ cut.next_lt, represents.idx _ nodeLt]
    rw [setLock_of_eq (by simpa using unlocked)]
    rfl
  refine ⟨list.linkNode pred node range, none, before ++ node :: after, free, same, ?_,
    represents.freeUnlocked, ?_, ?_⟩
  · simpa using cut.unlocked
  · refine represents.link last (normal.middle cut.insertable.ordered below above) ?_
    exact ⟨cut.insertable.above, cut.insertable.below⟩
  · rw [collected, represents.map_linkNode, List.map_append, covers_append, covers_append,
      covers_cons]
    ac_rfl

end Cut

/-- A node of its own is only needed by a range that touches no other, and then there is one. -/
def Room (list : Lazylist) (path free : List Nat) (range : LazylistRange) : Prop :=
  free ≠ [] ∨ ∃ i ∈ path, (list.range i).Touches range

theorem Cut.room_of_touches (cut : Cut n list before after free pred range)
    (fits : range.right < list.left (list.next pred)) (room : Room list (before ++ after) free range) :
    free ≠ [] ∨ list.connectsLeft pred range = true ∨
      list.connectsRight (list.next pred) range = true := by
  obtain free | ⟨i, member, touchLeft, touchRight⟩ := room
  · exact .inl free
  · refine .inr ?_
    by_contra apart
    obtain ⟨apart, apart'⟩ := not_or.mp apart
    obtain inBefore | inAfter := List.mem_append.mp member
    · have := cut.below_of_not_connectsLeft apart _ (List.mem_map_of_mem inBefore)
      omega
    · have := cut.above_of_not_connectsRight fits apart' _ (List.mem_map_of_mem inAfter)
      omega

theorem Cut.inserts (cut : Cut n list before after free pred range)
    (fits : range.right < list.left (list.next pred))
    (room : free ≠ [] ∨ list.connectsLeft pred range = true ∨
      list.connectsRight (list.next pred) range = true) :
    Inserts n list (before ++ after) range pred := by
  by_cases connectedLeft : list.connectsLeft pred range = true
  · by_cases connectedRight : list.connectsRight (list.next pred) range = true
    · exact cut.inserts_both connectedLeft connectedRight
    · exact cut.inserts_left fits connectedLeft connectedRight
  · by_cases connectedRight : list.connectsRight (list.next pred) range = true
    · exact cut.inserts_right connectedLeft connectedRight
    · cases free with
      | nil => simp [connectedLeft, connectedRight] at room
      | cons node free => exact cut.inserts_new fits connectedLeft connectedRight

/-- An insertion puts a range in that meets no other and leaves the list alone if it meets one. -/
theorem Represents.lazylistInsert (represents : Represents n list path free)
    (insertable : Insertable range) (room : Room list path free range)
    (enough : path.length + 1 < turns) :
    ∃ list' path' free', lazylistInsert range turns list = some (list', 0) ∧
      Represents n list' path' free' ∧
      (Disjoint (covers (path.map list.range)) range.toSet →
        covers (path'.map list'.range) = covers (path.map list.range) ∪ range.toSet) ∧
      (¬Disjoint (covers (path.map list.range)) range.toSet → list' = list) := by
  obtain ⟨before, after, pred, rfl, cut⟩ := represents.cut insertable
  have enough' : before.length + 1 < turns := by
    rw [List.length_append] at enough
    omega
  by_cases fits : range.right < list.left (list.next pred)
  · obtain ⟨list', toDelete, path', free', between, unlocked, freeUnlocked, represents', union⟩ :=
      cut.inserts fits (cut.room_of_touches fits room)
    refine ⟨_, path', free', cut.lazylistInsert_eq fits enough' between unlocked freeUnlocked,
      represents', fun _ => union, fun meets => ?_⟩
    exact absurd (cut.disjoint_iff.mpr fits) meets
  · refine ⟨list, before ++ after, free, ?_, represents, fun disjoint => ?_, fun _ => rfl⟩
    · obtain ⟨turns, rfl⟩ : ∃ more, turns = more + 1 := ⟨turns - 1, by omega⟩
      rw [Lazylist.lazylistInsert, cut.lazylistFindPred_eq enough', if_pos (Int.not_lt.mp fits)]
      rfl
    · exact absurd (cut.disjoint_iff.mp disjoint) fits

/-! ## Popping -/

/-- A start that is accepted takes the first node out and returns its range. -/
theorem Represents.lazylistPopFront_pops (represents : Represents n list (node :: path) free)
    (positive : 0 < turns) (accepts : startAny rangeLeft = true ∨ list.left node = rangeLeft) :
    lazylistPopFront rangeLeft turns list = some (list.unlinkNode n node, some (list.range node)) := by
  obtain ⟨turns, rfl⟩ : ∃ more, turns = more + 1 := ⟨turns - 1, by omega⟩
  obtain ⟨-, rfl, linked⟩ := represents.linked
  have bounded := represents.bounded (list.next n) (by simp)
  have nonempty := represents.normal.nonempty (list.range (list.next n)) (by simp)
  have inside : list.left (list.next n) ≠ int32Max := by
    unfold left
    unfold right at bounded
    omega
  have small := represents.small
  have frontLt : list.next n < n := represents.lt (by simp)
  -- what follows the first node is another one or the right sentinel
  obtain ⟨lastLt, ne, unmarked⟩ : list.next (list.next n) < n + 2 ∧
      list.next n ≠ list.next (list.next n) ∧ list.marks (list.next (list.next n)) = false := by
    have nodup := represents.nodup
    have marks := represents.unmarked
    cases path with
    | nil =>
      have isLast : list.next (list.next n) = n + 1 := linked
      rw [isLast]
      exact ⟨by omega, by omega, marks _ (by simp)⟩
    | cons other path =>
      obtain ⟨rfl, -⟩ := linked
      have otherLt := represents.lt (i := list.next (list.next n)) (by simp)
      exact ⟨by omega, by grind, marks _ (by simp)⟩
  have idx := represents.idx (list.next n) (by omega)
  have idx' := represents.idx _ lastLt
  have valid : list.lazylistValidate (list.next n) (list.next (list.next n)) = true := by
    simp [lazylistValidate, idx, idx', unmarked, represents.unmarked (list.next n) (by simp)]
  rw [lazylistPopFront, if_neg (show list.headIdx ≠ eol by rw [represents.head]; omega)]
  simp only [represents.head, Option.bind_eq_bind]
  rw [if_neg inside, if_neg ?_, lock_both _ ne (represents.unlocked _ (by omega))
    (represents.unlocked _ lastLt), if_pos ?_]
  · have head : (((list.setMark (list.next n) true).setLock (list.next n) 1).setLock
        (list.next (list.next n)) 1).headIdx = n := represents.head
    have freeUnlocked : ((list.setMark (list.next n) true).setNext n
        (list.next (list.next n))).freeHeadLock = 0 := represents.freeUnlocked
    simp only [idx_setLock, idx_setMark, idx_setNext, range_setLock, idx, idx', setMark_setLock, head,
      setNext_setLock]
    rw [unlock_both ne (by simpa using represents.unlocked _ (by omega))
      (by simpa using represents.unlocked _ lastLt), lazylistPutFreeNode_eq freeUnlocked]
    simp [unlinkNode, idx]
  · simpa [valid, or_comm] using accepts
  · obtain any | matching := accepts
    · simp [any]
    · simp [matching]

/-- A start that is not accepted, or no range at all, leaves the list alone. -/
theorem Represents.lazylistPopFront_keeps (represents : Represents n list path free)
    (positive : 0 < turns)
    (refuses : ∀ node ∈ path.head?, startAny rangeLeft = false ∧ list.left node ≠ rangeLeft) :
    lazylistPopFront rangeLeft turns list = some (list, none) := by
  obtain ⟨turns, rfl⟩ : ∃ more, turns = more + 1 := ⟨turns - 1, by omega⟩
  have small := represents.small
  have notEnd : list.headIdx ≠ eol := by
    rw [represents.head]
    omega
  rw [lazylistPopFront, if_neg notEnd]
  simp only [represents.head]
  cases path with
  | nil =>
    obtain ⟨-, isLast⟩ := represents.linked
    have isLast : list.next n = n + 1 := isLast
    rw [isLast, if_pos (by rw [left, represents.sentinelRight])]
  | cons node path =>
    obtain ⟨-, rfl, linked⟩ := represents.linked
    obtain ⟨notAny, other⟩ := refuses (list.next n) rfl
    by_cases atEnd : list.left (list.next n) = int32Max
    · rw [if_pos atEnd]
    · rw [if_neg atEnd, if_pos (by simp [notAny, other])]

end Lazylist

end Pspin
