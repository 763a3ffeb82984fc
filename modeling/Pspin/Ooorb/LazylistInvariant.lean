import Pspin.Ooorb.LazylistPool
import Pspin.Ooorb.LazylistThreads

/-! # What cores on one list leave true

A node is on the path, or free, or belongs to one core that is about to put it on the
path or among the free ones.  A core works on two neighbours it has locked; the
nodes it holds without their locks are on the path or have left it, but are not free.
What a core knows is about the nodes it has locked, the node that belongs to it and,
while it has the lock, the first free node.
-/

namespace Pspin

open Clocked Lazylist

/-! ## What a core has -/

def LazylistResult.popped? : LazylistResult → Option LazylistRange
  | .inserted _ => none
  | .popped range => range

def LazylistCall.range? : LazylistCall → Option LazylistRange
  | .insert range => some range
  | .popFront _ => none

namespace InsertStage

/-- It has the lock of the free nodes. -/
def getting : InsertStage → Bool
  | .getCheck | .getHead | .getNext _ | .getStore _ _ | .getUnlock _ => true
  | _ => false

/-- The node it took from the free ones. -/
def newNode : InsertStage → Option Nat
  | .getUnlock newNode => newNode
  | .newLeft newNode | .newRight newNode | .newMark newNode | .newLock newNode | .newNext newNode
  | .newLink newNode => some newNode
  | _ => none

/-- The range of one node is already part of the other's. -/
def merging : InsertStage → Bool
  | .mergeMark | .mergeNext | .mergeLink _ => true
  | _ => false

end InsertStage

namespace LazylistOutcome

def toDelete : LazylistOutcome → Option Nat
  | .retry => none
  | .finish _ node => node

def popped? : LazylistOutcome → Option LazylistRange
  | .retry => none
  | .finish result _ => result.popped?

end LazylistOutcome

namespace LazylistPc

/-- The nodes it has locked. -/
def locks : LazylistPc → List Nat
  | .lockCurr _ pred _ => [pred]
  | .validating _ pred curr _ => [pred, curr]
  | .inserting _ pred curr _ => [pred, curr]
  | .popping _ front frontNext _ => [front, frontNext]
  | .unlockCurr _ pred curr _ => [pred, curr]
  | .unlockPred _ pred _ => [pred]
  | _ => []

/-- It has the lock of the free nodes. -/
def locksFree : LazylistPc → Bool
  | .inserting _ _ _ stage => stage.getting
  | .putting _ _ _ stage => stage ≠ .lock
  | _ => false

/-- The node that belongs to it and that no other core can know. -/
def fresh : LazylistPc → Option Nat
  | .inserting _ _ _ stage => stage.newNode
  | .putting _ _ freedNode .store => some freedNode
  | _ => none

/-- The node that it took off the path and that other cores may still hold. -/
def removed : LazylistPc → Option Nat
  | .unlockCurr _ _ _ outcome => outcome.toDelete
  | .unlockPred _ _ outcome => outcome.toDelete
  | .putting _ _ freedNode stage =>
    match stage with
    | .lock | .head | .next _ => some freedNode
    | .store | .unlock => none
  | _ => none

/-- The range that it has not yet put into the list. -/
def pending : LazylistPc → Option LazylistRange
  | .findRight range _ _ => some range
  | .findNext range _ => some range
  | .findLeft range _ _ => some range
  | .lockPred call _ _ => call.range?
  | .lockCurr call _ _ => call.range?
  | .validating call _ _ _ => call.range?
  | .inserting range _ _ stage => if stage.merging then none else some range
  | .unlockCurr call _ _ .retry => call.range?
  | .unlockPred call _ .retry => call.range?
  | _ => none

/-- The range that it took out of the list and has not yet returned. -/
def carried : LazylistPc → Option LazylistRange
  | .unlockCurr _ _ _ outcome => outcome.popped?
  | .unlockPred _ _ outcome => outcome.popped?
  | .putting _ result _ _ => result.popped?
  | _ => none

/-- The neighbours of which the first has the range of the second, which is still on the path. -/
def merges : LazylistPc → Option (Nat × Nat)
  | .inserting _ pred curr stage => if stage.merging then some (pred, curr) else none
  | _ => none

end LazylistPc

/-! ## What a core knows -/

section Facts

variable (n : Nat) (list : Lazylist) (path : List Nat)

/-- Neighbours on the path. -/
structure Neighbours (pred curr : Nat) : Prop where
  member : pred ∈ n :: path
  next : list.next pred = curr
  ne : pred ≠ curr
  inside : curr ≠ n

/-- `connects_left` -/
def JoinsLeft (range : LazylistRange) (pred : Nat) : Prop :=
  pred ≠ n ∧ list.right pred + 1 = range.left

/-- `connects_right` -/
def JoinsRight (range : LazylistRange) (curr : Nat) : Prop :=
  curr ≠ n + 1 ∧ range.right + 1 = list.left curr

/-- The first of two nodes has the range of the second, and the one that joined them. -/
structure Absorbs (inserted : List LazylistRange) (range : LazylistRange) (pred curr : Nat) :
    Prop where
  notHead : pred ≠ n
  notLast : curr ≠ n + 1
  left : list.left pred ≤ list.left curr
  right : list.right pred = list.right curr
  put : range ∈ inserted

def InsertStage.Facts (inserted : List LazylistRange) (range : LazylistRange) (pred curr : Nat) :
    InsertStage → Prop
  | .predRight => True
  | .predLeft => list.right pred + 1 = range.left
  | .currLeft connectsLeft => connectsLeft = true → JoinsLeft n list range pred
  | .currMax connectsLeft =>
    (connectsLeft = true → JoinsLeft n list range pred) ∧ range.right + 1 = list.left curr
  | .mergeRight => JoinsLeft n list range pred ∧ JoinsRight n list range curr
  | .mergeStore right =>
    JoinsLeft n list range pred ∧ JoinsRight n list range curr ∧ right = list.right curr
  | .mergeMark => Absorbs n list inserted range pred curr
  | .mergeNext => Absorbs n list inserted range pred curr ∧ list.marks curr = true
  | .mergeLink nextIdx =>
    Absorbs n list inserted range pred curr ∧ list.marks curr = true ∧ nextIdx = list.next curr
  | .extendPred => JoinsLeft n list range pred
  | .extendCurr => JoinsRight n list range curr
  | .getLock | .getCheck | .getHead => True
  | .getNext freeNode => freeNode = list.freeHeadIdx ∧ freeNode ≠ eol
  | .getStore freeNode nextIdx =>
    (freeNode = list.freeHeadIdx ∧ freeNode ≠ eol) ∧ nextIdx = list.next freeNode
  | .getUnlock _ => True
  | .newLeft _ => True
  | .newRight newNode => list.left newNode = range.left
  | .newMark newNode => list.range newNode = range
  | .newLock newNode => list.range newNode = range
  | .newNext newNode => list.range newNode = range
  | .newLink newNode => list.range newNode = range ∧ list.next newNode = curr

def PopStage.Facts (front : Nat) : PopStage → Prop
  | .check => True
  | .left => True
  | .right start => start = list.left front
  | .mark range => range = list.range front
  | .store range => range = list.range front ∧ list.marks front = true

def PutStage.Facts (freedNode : Nat) : PutStage → Prop
  | .next nextIdx => nextIdx = list.freeHeadIdx
  | .store => list.next freedNode = list.freeHeadIdx
  | _ => True

/-- A front is not one of the sentinels. -/
def LazylistCall.Fronts (pred : Nat) : LazylistCall → Prop
  | .insert _ => True
  | .popFront _ => pred ≠ n ∧ pred ≠ n + 1

/-- An insertion that returns 0 has put its range into the list. -/
def LazylistOutcome.Holds (inserted : List LazylistRange) (call : LazylistCall) :
    LazylistOutcome → Prop
  | .retry => True
  | .finish result _ => ∀ range, call = .insert range → result = .inserted 0 → range ∈ inserted

def LazylistPc.Facts (inserted : List LazylistRange) : LazylistPc → Prop
  | .idle => True
  | .findRight _ _ _ => True
  | .findNext _ curr => curr ≠ n + 1
  | .findLeft range _ curr => range.left ≤ list.right curr
  | .popHead _ => True
  | .popNext _ front => front ≠ n
  | .popEmpty _ front _ => front ≠ n
  | .popStart _ front _ => front ≠ n ∧ front ≠ n + 1
  | .lockPred call pred _ => call.Fronts n pred
  | .lockCurr call pred _ => call.Fronts n pred
  | .validating call pred curr stage =>
    call.Fronts n pred ∧ pred ≠ curr ∧ (stage ≠ .pred → list.marks pred = false)
  | .inserting range pred curr stage =>
    Neighbours n list path pred curr ∧ stage.Facts n list inserted range pred curr
  | .popping _ front frontNext stage =>
    Neighbours n list path front frontNext ∧ front ≠ n ∧ stage.Facts list front
  | .unlockCurr call pred curr outcome => pred ≠ curr ∧ outcome.Holds inserted call
  | .unlockPred call _ outcome => outcome.Holds inserted call
  | .putting call result freedNode stage =>
    stage.Facts list freedNode ∧ (LazylistOutcome.finish result none).Holds inserted call

end Facts

/-- A node that belongs to a core. -/
def LazylistPc.Owns (pc : LazylistPc) (i : Nat) : Prop := pc.fresh = some i ∨ pc.removed = some i

/-- A step of another core, as far as what a core knows is concerned: it keeps away from the
    nodes the core has locked and from the one that belongs to it.  A store to the left
    sentinel's link need not, unless the core has locked both ends of the link. -/
structure Undisturbed (n : Nat) (list list' : Lazylist) (path path' : List Nat)
    (pc : LazylistPc) : Prop where
  range : ∀ i, i ∈ pc.locks ∨ pc.Owns i → list'.range i = list.range i
  marks : ∀ i, i ∈ pc.locks ∨ pc.Owns i → list'.marks i = list.marks i
  grows : ∀ i ∈ pc.held (n + 1), list.right i ≤ list'.right i
  member : ∀ i ∈ pc.locks, i ∈ n :: path → i ∈ n :: path'
  nextOwned : ∀ i, pc.Owns i → list'.next i = list.next i
  nextLocked : ∀ i ∈ pc.locks, (i = n → list.next n ∈ pc.locks) → list'.next i = list.next i
  freeHead : pc.locksFree = true → list'.freeHeadIdx = list.freeHeadIdx ∧
    (list.freeHeadIdx ≠ eol → list'.next list.freeHeadIdx = list.next list.freeHeadIdx)

namespace Undisturbed

variable {n : Nat} {list list' : Lazylist} {path path' : List Nat} {pc : LazylistPc}
  {pred curr node : Nat} {range : LazylistRange} {inserted inserted' : List LazylistRange}

theorem left (undisturbed : Undisturbed n list list' path path' pc)
    (owned : node ∈ pc.locks ∨ pc.Owns node) : list'.left node = list.left node :=
  congrArg Interval.left (undisturbed.range node owned)

theorem right (undisturbed : Undisturbed n list list' path path' pc)
    (owned : node ∈ pc.locks ∨ pc.Owns node) : list'.right node = list.right node :=
  congrArg Interval.right (undisturbed.range node owned)

theorem neighbours (undisturbed : Undisturbed n list list' path path' pc)
    (neighbours : Neighbours n list path pred curr) (locked : pred ∈ pc.locks ∧ curr ∈ pc.locks) :
    Neighbours n list' path' pred curr := by
  refine ⟨undisturbed.member pred locked.1 neighbours.member, ?_, neighbours.ne, neighbours.inside⟩
  rw [undisturbed.nextLocked pred locked.1 fun atHead => ?_]
  · exact neighbours.next
  · subst atHead
    rw [neighbours.next]
    exact locked.2

theorem absorbs (undisturbed : Undisturbed n list list' path path' pc)
    (more : ∀ range ∈ inserted, range ∈ inserted') (absorbs : Absorbs n list inserted range pred curr)
    (locked : pred ∈ pc.locks ∧ curr ∈ pc.locks) : Absorbs n list' inserted' range pred curr where
  notHead := absorbs.notHead
  notLast := absorbs.notLast
  left := by
    rw [undisturbed.left (.inl locked.1), undisturbed.left (.inl locked.2)]
    exact absorbs.left
  right := by
    rw [undisturbed.right (.inl locked.1), undisturbed.right (.inl locked.2)]
    exact absorbs.right
  put := more range absorbs.put

theorem insertFacts {stage : InsertStage}
    (undisturbed : Undisturbed n list list' path path' (.inserting range pred curr stage))
    (more : ∀ range ∈ inserted, range ∈ inserted') (neighbours : Neighbours n list path pred curr)
    (facts : stage.Facts n list inserted range pred curr) :
    stage.Facts n list' inserted' range pred curr := by
  have locked : pred ∈ [pred, curr] ∧ curr ∈ [pred, curr] := by simp
  have predRight := undisturbed.right (.inl locked.1)
  have currLeft := undisturbed.left (.inl locked.2)
  have currRight := undisturbed.right (.inl locked.2)
  have currMarks := undisturbed.marks curr (.inl locked.2)
  have currNext := undisturbed.nextLocked curr locked.2 fun atHead => absurd atHead neighbours.inside
  -- a node that was taken for the range is no other core's
  have owned : ∀ newNode, stage.newNode = some newNode →
      list'.range newNode = list.range newNode ∧ list'.next newNode = list.next newNode :=
    fun newNode same => ⟨undisturbed.range newNode (.inr (.inl same)),
      undisturbed.nextOwned newNode (.inl same)⟩
  cases stage with
  | predRight | getLock | getCheck | getHead | getUnlock _ | newLeft _ => trivial
  | predLeft => simpa only [InsertStage.Facts, predRight] using facts
  | currLeft connectsLeft =>
    simpa only [InsertStage.Facts, JoinsLeft, predRight] using facts
  | currMax connectsLeft =>
    simpa only [InsertStage.Facts, JoinsLeft, predRight, currLeft] using facts
  | mergeRight =>
    simpa only [InsertStage.Facts, JoinsLeft, JoinsRight, predRight, currLeft] using facts
  | mergeStore right =>
    simpa only [InsertStage.Facts, JoinsLeft, JoinsRight, predRight, currLeft, currRight] using facts
  | mergeMark => exact undisturbed.absorbs more facts locked
  | mergeNext =>
    refine ⟨undisturbed.absorbs more facts.1 locked, ?_⟩
    rw [currMarks]
    exact facts.2
  | mergeLink nextIdx =>
    refine ⟨undisturbed.absorbs more facts.1 locked, ?_⟩
    rw [currMarks, currNext]
    exact facts.2
  | extendPred => simpa only [InsertStage.Facts, JoinsLeft, predRight] using facts
  | extendCurr => simpa only [InsertStage.Facts, JoinsRight, currLeft] using facts
  | getNext freeNode =>
    simpa only [InsertStage.Facts, (undisturbed.freeHead rfl).1] using facts
  | getStore freeNode nextIdx =>
    obtain ⟨head, next⟩ := undisturbed.freeHead rfl
    obtain ⟨⟨rfl, ne⟩, rfl⟩ := facts
    exact ⟨⟨head.symm, ne⟩, (next ne).symm⟩
  | newRight newNode =>
    simpa only [InsertStage.Facts, Lazylist.left, (owned newNode rfl).1] using facts
  | newMark newNode | newLock newNode | newNext newNode =>
    simpa only [InsertStage.Facts, (owned newNode rfl).1] using facts
  | newLink newNode =>
    simpa only [InsertStage.Facts, (owned newNode rfl).1, (owned newNode rfl).2] using facts

theorem popFacts {stage : PopStage} {rangeLeft : Int} {front frontNext : Nat}
    (undisturbed : Undisturbed n list list' path path' (.popping rangeLeft front frontNext stage))
    (facts : stage.Facts list front) : stage.Facts list' front := by
  have frontRange := undisturbed.range front (.inl (show front ∈ [front, frontNext] by simp))
  have frontMarks := undisturbed.marks front (.inl (show front ∈ [front, frontNext] by simp))
  cases stage with
  | check | left => trivial
  | right start => simpa only [PopStage.Facts, Lazylist.left, frontRange] using facts
  | mark range => simpa only [PopStage.Facts, frontRange] using facts
  | store range => simpa only [PopStage.Facts, frontRange, frontMarks] using facts

theorem putFacts {stage : PutStage} {call : LazylistCall} {result : LazylistResult}
    (undisturbed : Undisturbed n list list' path path' (.putting call result node stage))
    (facts : stage.Facts list node) : stage.Facts list' node := by
  cases stage with
  | lock | head | unlock => trivial
  | next nextIdx => simpa only [PutStage.Facts, (undisturbed.freeHead rfl).1] using facts
  | store =>
    simpa only [PutStage.Facts, (undisturbed.freeHead rfl).1, undisturbed.nextOwned node (.inl rfl)]
      using facts

/-- What a core knows stays true. -/
theorem facts (undisturbed : Undisturbed n list list' path path' pc)
    (more : ∀ range ∈ inserted, range ∈ inserted') (facts : pc.Facts n list path inserted) :
    pc.Facts n list' path' inserted' := by
  -- what a call has done stays in the record
  have done : ∀ {call : LazylistCall} {outcome : LazylistOutcome}, outcome.Holds inserted call →
      outcome.Holds inserted' call := by
    intro call outcome holds
    cases outcome with
    | retry => trivial
    | finish result node =>
      exact fun range isInsert isDone => more range (holds range isInsert isDone)
  cases pc with
  | idle | findRight _ _ _ | popHead _ => trivial
  | findNext range curr => exact facts
  | findLeft range pred curr =>
    have grows := undisturbed.grows curr (show curr ∈ [pred, curr] by simp)
    exact Int.le_trans facts grows
  | popNext rangeLeft front => exact facts
  | popEmpty rangeLeft front frontNext => exact facts
  | popStart rangeLeft front frontNext => exact facts
  | lockPred call pred curr => exact facts
  | lockCurr call pred curr => exact facts
  | validating call pred curr stage =>
    refine ⟨facts.1, facts.2.1, fun later => ?_⟩
    rw [undisturbed.marks pred (.inl (show pred ∈ [pred, curr] by simp))]
    exact facts.2.2 later
  | inserting range pred curr stage =>
    exact ⟨undisturbed.neighbours facts.1 (show pred ∈ [pred, curr] ∧ curr ∈ [pred, curr] by simp),
      undisturbed.insertFacts more facts.1 facts.2⟩
  | popping rangeLeft front frontNext stage =>
    exact ⟨undisturbed.neighbours facts.1
      (show front ∈ [front, frontNext] ∧ frontNext ∈ [front, frontNext] by simp), facts.2.1,
      undisturbed.popFacts facts.2.2⟩
  | unlockCurr call pred curr outcome => exact ⟨facts.1, done facts.2⟩
  | unlockPred call pred outcome => exact done facts
  | putting call result freedNode stage => exact ⟨undisturbed.putFacts facts.1, done facts.2⟩

end Undisturbed

/-! ## The invariant -/

/-- The links and the sentinels. -/
structure Shape (n : Nat) (list : Lazylist) (path free : List Nat) : Prop where
  small : n + 1 < eol
  head : list.headIdx = n
  idx : ∀ i < n + 2, list.idx i = i
  sentinelLeft : list.range n = ⟨int32Min, int32Min⟩
  sentinelRight : list.range (n + 1) = ⟨int32Max, int32Max⟩
  ended : list.next (n + 1) = eol
  linked : Clocked.Path list.next n (n :: path) (n + 1)
  linkedFree : Clocked.Path list.next list.freeHeadIdx free eol
  nodup : (n :: (path ++ free)).Nodup
  below : ∀ i ∈ path ++ free, i < n

/-- Every integer that was put in is in a node on the path or was taken out, and in no two of
    them, except for two nodes that are being merged. -/
structure Account (list : Lazylist) (path : List Nat) (history : LazylistHistory)
    (merging : Nat → Nat → Prop) : Prop where
  insertable : ∀ i ∈ path, Insertable (list.range i)
  apart : ∀ i ∈ path, ∀ j ∈ path, i ≠ j →
    (list.range i).Apart (list.range j) ∨ merging i j ∨ merging j i
  conserved : ∀ x, x ∈ covers history.inserted ↔
    (∃ i ∈ path, x ∈ (list.range i).toSet) ∨ x ∈ covers history.taken
  takenApart : ∀ i ∈ path, ∀ range ∈ history.taken, (list.range i).Apart range
  takenOnce : history.taken.Pairwise Interval.Apart
  takenOrdered : ∀ range ∈ history.taken, range.left ≤ range.right
  requested : ∀ range ∈ history.inserted, range ∈ history.requested
  completed : ∀ range ∈ history.completed, range ∈ history.inserted
  returned : ∀ range ∈ history.returned, range ∈ history.taken
  returnedOnce : history.returned.Pairwise Interval.Apart

/-- A node that is not free: it is on the path, or the right sentinel, or was removed and still
    belongs to the core that removed it. -/
def Sound (n : Nat) (path : List Nat) (removed : Nat → Prop) (i : Nat) : Prop :=
  i ∈ n :: path ∨ i = n + 1 ∨ removed i

/-- What is true of one core, where `sound` are the nodes it may come across. -/
structure Sane (n : Nat) (list : Lazylist) (path free : List Nat) (history : LazylistHistory)
    (sound : Nat → Prop) (pc : LazylistPc) : Prop where
  facts : pc.Facts n list path history.inserted
  locked : ∀ i ∈ pc.locks, list.lock i ≠ 0
  lockedFree : pc.locksFree = true → list.freeHeadLock ≠ 0
  held : ∀ i ∈ pc.held (n + 1), Within list.next (n + 1) sound i
  owned : ∀ i, pc.Owns i → i < n ∧ i ∉ path ∧ i ∉ free
  removed : ∀ i, pc.removed = some i → list.marks i = true ∧ list.left i ≤ list.right i ∧
    ∀ x ∈ (list.range i).toSet, x ∈ covers history.inserted
  pending : ∀ range, pc.pending = some range → Insertable range ∧ range ∈ history.requested ∧
    ∀ other ∈ history.inserted, range.Apart other
  carried : ∀ range, pc.carried = some range → range ∈ history.taken ∧ range ∉ history.returned

/-- Two cores have nothing in common. -/
structure Separate (pc pc' : LazylistPc) : Prop where
  locks : ∀ i ∈ pc.locks, i ∉ pc'.locks
  locksFree : pc.locksFree = true → pc'.locksFree = false
  owned : ∀ i, pc.Owns i → ¬pc'.Owns i
  pending : ∀ range range', pc.pending = some range → pc'.pending = some range' → range.Apart range'
  carried : ∀ range range', pc.carried = some range → pc'.carried = some range' →
    range.Apart range'

/-- A core has removed the node, and has not yet put it among the free ones. -/
def Removed {Core : Type} (thread : Core → LazylistPc) (i : Nat) : Prop :=
  ∃ core, (thread core).removed = some i

/-- A core is merging the two nodes. -/
def Merging {Core : Type} (thread : Core → LazylistPc) (i j : Nat) : Prop :=
  ∃ core, (thread core).merges = some (i, j)

structure LazylistInvariant {Core : Type} (n : Nat) (state : LazylistState Core)
    (path free : List Nat) : Prop where
  shape : Shape n state.1.shared path free
  account : Account state.1.shared path state.2 (Merging state.1.thread)
  sane : ∀ core, Sane n state.1.shared path free state.2 (Sound n path (Removed state.1.thread))
    (state.1.thread core)
  separate : ∀ core other, core ≠ other → Separate (state.1.thread core) (state.1.thread other)

/-! ## What follows at once -/

namespace LazylistPc

variable {pc : LazylistPc} {last i j : Nat}

/-- A node it has locked is one it holds. -/
theorem held_of_locks (locked : i ∈ pc.locks) : i ∈ pc.held last := by
  cases pc <;> first | exact locked | simp_all [locks, held]

theorem removed_of_fresh (fresh : pc.fresh = some i) : pc.removed = none := by
  cases pc with
  | putting call result freedNode stage => cases stage <;> simp_all [LazylistPc.fresh, removed]
  | _ => simp_all [LazylistPc.fresh, removed]

theorem locks_of_merges (merges : pc.merges = some (i, j)) : i ∈ pc.locks ∧ j ∈ pc.locks := by
  cases pc <;> simp_all [LazylistPc.merges, locks]

end LazylistPc

namespace Shape

variable {n : Nat} {list : Lazylist} {path free : List Nat} {i : Nat}

theorem lt_of_path (shape : Shape n list path free) (member : i ∈ path) : i < n :=
  shape.below i (List.mem_append_left free member)

theorem le_of_path (shape : Shape n list path free) (member : i ∈ n :: path) : i ≤ n := by
  obtain rfl | onPath := List.mem_cons.mp member
  · exact le_rfl
  · exact le_of_lt (shape.lt_of_path onPath)

theorem notMem_free (shape : Shape n list path free) (member : i ∈ n :: path) : i ∉ free := by
  have nodup := shape.nodup
  rw [← List.cons_append] at nodup
  exact List.disjoint_of_nodup_append nodup member

theorem notMem_path (shape : Shape n list path free) : n ∉ path :=
  fun member => lt_irrefl n (shape.lt_of_path member)

/-- The first free node is free, if it is a node. -/
theorem freeHead_ne (shape : Shape n list path free) (below : i ≤ n) (notFree : i ∉ free) :
    i ≠ list.freeHeadIdx := by
  have small := shape.small
  have linked := shape.linkedFree
  rintro rfl
  cases free with
  | nil =>
    have atEnd : list.freeHeadIdx = eol := linked
    omega
  | cons node free =>
    obtain ⟨rfl, -⟩ := linked
    exact notFree List.mem_cons_self

/-- The link of a node on the path does not lead back to the left sentinel. -/
theorem next_ne (shape : Shape n list path free) (member : i ∈ n :: path) : list.next i ≠ n := by
  obtain onPath | isLast := shape.linked.next_mem member
  · exact Nat.ne_of_lt (shape.lt_of_path onPath)
  · omega

end Shape

theorem Neighbours.curr_mem {n : Nat} {list : Lazylist} {path free : List Nat} {pred curr : Nat}
    (neighbours : Neighbours n list path pred curr) (shape : Shape n list path free)
    (notLast : curr ≠ n + 1) : curr ∈ path := by
  have onward := shape.linked.next_mem neighbours.member
  rw [neighbours.next] at onward
  exact onward.resolve_right notLast

theorem Separate.symm {pc pc' : LazylistPc} (separate : Separate pc pc') : Separate pc' pc where
  locks i locked locked' := separate.locks i locked' locked
  locksFree locked := by
    by_contra notFree
    have free := separate.locksFree (by simpa using notFree)
    simp [free] at locked
  owned i owned owned' := separate.owned i owned' owned
  pending range range' isPending isPending' :=
    (separate.pending range' range isPending' isPending).symm
  carried range range' isCarried isCarried' :=
    (separate.carried range' range isCarried' isCarried).symm

section Consequences

variable {Core : Type} {n : Nat} {state : LazylistState Core} {path free : List Nat}
  {core other : Core} {pc : LazylistPc} {i : Nat}

namespace LazylistInvariant

/-- A new node is not one that anybody comes across. -/
theorem not_sound (invariant : LazylistInvariant n state path free)
    (fresh : (state.1.thread core).fresh = some i) :
    ¬Sound n path (Removed state.1.thread) i := by
  obtain ⟨below, notPath, -⟩ := (invariant.sane core).owned i (.inl fresh)
  rintro (onPath | rfl | ⟨other, removed⟩)
  · obtain rfl | onPath := List.mem_cons.mp onPath
    · exact lt_irrefl _ below
    · exact notPath onPath
  · omega
  · by_cases same : other = core
    · subst same
      rw [LazylistPc.removed_of_fresh fresh] at removed
      cases removed
    · exact (invariant.separate other core same).owned i (.inr removed) (.inl fresh)

theorem sound_of_held (invariant : LazylistInvariant n state path free)
    (held : i ∈ (state.1.thread core).held (n + 1)) :
    Sound n path (Removed state.1.thread) i :=
  ((invariant.sane core).held i held).here

/-- Merging is done with both locks, so that nobody else merges a locked node. -/
theorem not_merging (invariant : LazylistInvariant n state path free)
    (locked : i ∈ (state.1.thread core).locks)
    (notMerging : (state.1.thread core).merges = none) (j : Nat) :
    ¬Merging state.1.thread i j ∧ ¬Merging state.1.thread j i := by
  have apart : ∀ other pair, (state.1.thread other).merges = some pair →
      i ∉ (state.1.thread other).locks := by
    intro other pair merges locked'
    by_cases same : other = core
    · subst same
      rw [notMerging] at merges
      cases merges
    · exact (invariant.separate other core same).locks i locked' locked
  constructor
  · rintro ⟨other, merges⟩
    exact apart other _ merges (LazylistPc.locks_of_merges merges).1
  · rintro ⟨other, merges⟩
    exact apart other _ merges (LazylistPc.locks_of_merges merges).2

/-! ## Nodes a core comes across -/

theorem sound_lt (invariant : LazylistInvariant n state path free) {i : Nat}
    (sound : Sound n path (Removed state.1.thread) i) : i < n + 2 := by
  obtain onPath | rfl | ⟨other, removed⟩ := sound
  · obtain rfl | onPath := List.mem_cons.mp onPath
    · omega
    · have := invariant.shape.below i (List.mem_append_left free onPath)
      omega
  · omega
  · have := ((invariant.sane other).owned i (.inr removed)).1
    omega

/-- A node between the sentinels has a range of which every integer was put in. -/
theorem sound_covered (invariant : LazylistInvariant n state path free) {i : Nat}
    (sound : Sound n path (Removed state.1.thread) i) (ne : i ≠ n) (ne' : i ≠ n + 1) :
    state.1.shared.left i ≤ state.1.shared.right i ∧
      ∀ x ∈ (state.1.shared.range i).toSet, x ∈ covers state.2.inserted := by
  obtain onPath | isLast | ⟨other, removed⟩ := sound
  · have onPath := (List.mem_cons.mp onPath).resolve_left ne
    refine ⟨(invariant.account.insertable i onPath).ordered, fun x member => ?_⟩
    exact (invariant.account.conserved x).mpr (.inl ⟨i, onPath, member⟩)
  · exact absurd isLast ne'
  · exact ((invariant.sane other).removed i removed).2

/-- From a node on the path only nodes on the path are reached, and the right sentinel. -/
theorem within_path (invariant : LazylistInvariant n state path free) {i : Nat}
    (member : i ∈ n :: path) :
    Within state.1.shared.next (n + 1) (Sound n path (Removed state.1.thread)) i := by
  refine .of_closed (fun j => j ∈ n :: path ∨ j = n + 1) ?_ ?_ (.inl member)
  · rintro j (onPath | isLast)
    · exact .inl onPath
    · exact .inr (.inl isLast)
  · rintro j (onPath | isLast) ne
    · exact (invariant.shape.linked.next_mem onPath).imp_left (List.mem_cons_of_mem _)
    · exact absurd isLast ne

theorem within_held (invariant : LazylistInvariant n state path free)
    (here : state.1.thread core = pc) {i : Nat} (held : i ∈ pc.held (n + 1)) :
    Within state.1.shared.next (n + 1) (Sound n path (Removed state.1.thread)) i := by
  subst here
  exact (invariant.sane core).held i held

theorem facts_at (invariant : LazylistInvariant n state path free)
    (here : state.1.thread core = pc) : pc.Facts n state.1.shared path state.2.inserted := by
  subst here
  exact (invariant.sane core).facts

theorem pending_at (invariant : LazylistInvariant n state path free)
    (here : state.1.thread core = pc) {range : LazylistRange} (pending : pc.pending = some range) :
    Insertable range ∧ range ∈ state.2.requested ∧ ∀ other ∈ state.2.inserted, range.Apart other := by
  subst here
  exact (invariant.sane core).pending range pending

end LazylistInvariant

/-! ## One core moves -/

variable [DecidableEq Core] {thread : Core → LazylistPc}

theorem removed_update : Removed (Function.update thread core pc) i ↔
    pc.removed = some i ∨ ∃ other, other ≠ core ∧ (thread other).removed = some i :=
  Function.exists_update_iff thread fun _ pc => pc.removed = some i

theorem merging_update {j : Nat} : Merging (Function.update thread core pc) i j ↔
    pc.merges = some (i, j) ∨ ∃ other, other ≠ core ∧ (thread other).merges = some (i, j) :=
  Function.exists_update_iff thread fun _ pc => pc.merges = some (i, j)

theorem removed_update_of_none (none_ : (thread core).removed = none) :
    Removed (Function.update thread core pc) i ↔ pc.removed = some i ∨ Removed thread i :=
  Threads.exists_update_of_not (fun pc : LazylistPc => pc.removed = some i)
    (by simp [none_])

theorem merging_update_of_none {j : Nat} (none_ : (thread core).merges = none) :
    Merging (Function.update thread core pc) i j ↔ pc.merges = some (i, j) ∨ Merging thread i j :=
  Threads.exists_update_of_not (fun pc : LazylistPc => pc.merges = some (i, j))
    (by simp [none_])

theorem removed_update_of_eq (same : pc.removed = (thread core).removed) :
    Removed (Function.update thread core pc) = Removed thread := by
  funext i
  exact propext (Threads.exists_update_congr (fun pc : LazylistPc => pc.removed = some i) (by rw [same]))

theorem merging_update_of_eq (same : pc.merges = (thread core).merges) :
    Merging (Function.update thread core pc) = Merging thread := by
  funext i j
  exact propext (Threads.exists_update_congr (fun pc : LazylistPc => pc.merges = some (i, j)) (by rw [same]))

end Consequences

end Pspin
