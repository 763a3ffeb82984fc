import Pspin.Clocked.Interval
import Pspin.Clocked.Path
import Pspin.Runtime.Atomics
import Mathlib.Logic.Function.Basic

/-! # The lazy list of `ooorb`

`lazylist.h` keeps disjoint ranges in a list of nodes that are linked by their
indices.  Sentinels at both ends stand for ranges outside all others; nodes that
are not in the list are linked by the same field from `free_head_idx`.

The functions here run alone: a spin lock that is taken makes them spin for ever,
and a loop that does not end runs out of its turns; both are `none`.  What a failed
`S_ASSERT` or an overlap prints is left out.
-/

namespace Pspin

open Clocked

def int32Min : Int := -2 ^ 31

def int32Max : Int := 2 ^ 31 - 1

/-- `NUM_SEGMENTS` -/
def numSegments : Nat := 128

/-- `EOL` -/
def eol : Nat := 2 ^ 32 - 1

/-- `RANGE_START_ANY`, which is not signed. -/
def rangeStartAny : Int := 2 ^ 32 - 1

/-- `lazylist_range_t` -/
abbrev LazylistRange := Clocked.Interval

/-- `lazylist_node_t` -/
structure LazylistNode where
  idx : Nat
  range : LazylistRange
  lock : Word
  nextIdx : Nat
deriving DecidableEq, Inhabited

/-- `lazylist_t` -/
structure Lazylist where
  headIdx : Nat
  freeHeadIdx : Nat
  freeHeadLock : Word
  nodes : Nat → LazylistNode
  marks : Nat → Bool

/-- The two calls a handler makes. -/
inductive LazylistCall where
  | insert (range : LazylistRange)
  | popFront (rangeLeft : Int)
deriving DecidableEq

/-- What a call returns. -/
inductive LazylistResult where
  | inserted (error : Word)
  | popped (range : Option LazylistRange)
deriving DecidableEq

namespace Lazylist

/-- Memory of zeros. -/
def zeroed : Lazylist where
  headIdx := 0
  freeHeadIdx := 0
  freeHeadLock := 0
  nodes := fun _ => ⟨0, ⟨0, 0⟩, 0, 0⟩
  marks := fun _ => false

variable (list : Lazylist)

def idx (i : Nat) : Nat := (list.nodes i).idx

def range (i : Nat) : LazylistRange := (list.nodes i).range

def left (i : Nat) : Int := (list.range i).left

def right (i : Nat) : Int := (list.range i).right

def lock (i : Nat) : Word := (list.nodes i).lock

def next (i : Nat) : Nat := (list.nodes i).nextIdx

def setNode (i : Nat) (node : LazylistNode) : Lazylist :=
  { list with nodes := Function.update list.nodes i node }

def setRange (i : Nat) (range : LazylistRange) : Lazylist :=
  list.setNode i { list.nodes i with range := range }

def setNext (i nextIdx : Nat) : Lazylist := list.setNode i { list.nodes i with nextIdx := nextIdx }

def setLock (i : Nat) (lock : Word) : Lazylist := list.setNode i { list.nodes i with lock := lock }

def setMark (i : Nat) (mark : Bool) : Lazylist :=
  { list with marks := Function.update list.marks i mark }

def setFreeHead (freeHeadIdx : Nat) : Lazylist := { list with freeHeadIdx := freeHeadIdx }

def setFreeHeadLock (freeHeadLock : Word) : Lazylist := { list with freeHeadLock := freeHeadLock }

/-! ## Initialisation -/

/-- The body of the loop of `lazylist_init`. -/
def initNode (i : Nat) : Lazylist :=
  (list.setNode i { list.nodes i with idx := i, nextIdx := i + 1, lock := 0 }).setMark i false

/-- `lazylist_init` -/
def lazylistInit (capacity : Nat) : Lazylist :=
  let numActualNodes := capacity - 2
  let list := (List.range numActualNodes).foldl initNode list
  let list := list.setNext (numActualNodes - 1) eol
  let list := list.setNode numActualNodes
    ⟨numActualNodes, ⟨int32Min, int32Min⟩, 0, numActualNodes + 1⟩
  let list := list.setNode (numActualNodes + 1)
    ⟨numActualNodes + 1, ⟨int32Max, int32Max⟩, 0, eol⟩
  { list with
    headIdx := list.idx numActualNodes
    freeHeadIdx := 0
    freeHeadLock := 0 }

/-! ## Locks -/

/-- `spin_lock_lock` on a node. -/
def lockNode (i : Nat) : Option Lazylist :=
  let (locked, lock) := futexTryLock (list.lock i)
  if locked then some (list.setLock i lock) else none

/-- `spin_lock_unlock` on a node. -/
def unlockNode (i : Nat) : Lazylist := list.setLock i (futexUnlock (list.lock i))

/-- `spin_lock_lock` on `free_head_lock`. -/
def lockFreeHead : Option Lazylist :=
  let (locked, lock) := futexTryLock list.freeHeadLock
  if locked then some (list.setFreeHeadLock lock) else none

/-- `spin_lock_unlock` on `free_head_lock`. -/
def unlockFreeHead : Lazylist := list.setFreeHeadLock (futexUnlock list.freeHeadLock)

/-! ## Free nodes -/

/-- `lazylist_get_free_node`: the node, if the lock, of all things, is not `EOL`. -/
def lazylistGetFreeNode : Option (Lazylist × Option Nat) := do
  let list ← list.lockFreeHead
  if list.freeHeadLock ≠ BitVec.ofNat 32 eol then
    let freeNode := list.freeHeadIdx
    let list := list.setFreeHead (list.next freeNode)
    some (list.unlockFreeHead, some freeNode)
  else some (list.unlockFreeHead, none)

/-- `lazylist_put_free_node` -/
def lazylistPutFreeNode (freedNode : Nat) : Option Lazylist := do
  let list ← list.lockFreeHead
  let list := list.setNext freedNode list.freeHeadIdx
  let list := list.setFreeHead (list.idx freedNode)
  some list.unlockFreeHead

/-! ## Inserting -/

/-- The loop of `lazylist_find_pred`. -/
def findPredLoop (range : LazylistRange) : Nat → Nat → Nat → Option (Nat × Nat)
  | 0, _, _ => none
  | turns + 1, pred, curr =>
    if list.right curr < range.left then findPredLoop range turns curr (list.next curr)
    else some (pred, curr)

/-- `lazylist_find_pred`: the nodes the range belongs between, unless it overlaps. -/
def lazylistFindPred (turns : Nat) (range : LazylistRange) : Option (Option (Nat × Nat)) := do
  let (pred, curr) ← list.findPredLoop range turns list.headIdx list.headIdx
  if list.left curr ≤ range.right then some none else some (some (pred, curr))

/-- `lazylist_validate` -/
def lazylistValidate (pred curr : Nat) : Bool :=
  !list.marks (list.idx pred) && !list.marks (list.idx curr) &&
    decide (list.next pred = list.idx curr)

def connectsLeft (pred : Nat) (range : LazylistRange) : Bool :=
  decide (list.right pred + 1 = range.left) && decide (list.left pred > int32Min)

def connectsRight (curr : Nat) (range : LazylistRange) : Bool :=
  decide (range.right + 1 = list.left curr) && decide (list.left curr < int32Max)

/-- The middle of `lazylist_insert`, which holds both locks: the node to delete and the
    error. -/
def insertBetween (range : LazylistRange) (pred curr : Nat) : Option (Lazylist × Option Nat × Word) :=
  if list.connectsLeft pred range && list.connectsRight curr range then
    let list := list.setRange pred ⟨list.left pred, list.right curr⟩
    let list := list.setMark (list.idx curr) true
    let list := list.setNext pred (list.next curr)
    some (list, some curr, 0)
  else if list.connectsLeft pred range then
    some (list.setRange pred ⟨list.left pred, range.right⟩, none, 0)
  else if list.connectsRight curr range then
    some (list.setRange curr ⟨range.left, list.right curr⟩, none, 0)
  else do
    let (list, freeNode) ← list.lazylistGetFreeNode
    match freeNode with
    | none => some (list, none, 1)
    | some newNode =>
      let list := list.setRange newNode range
      let list := list.setMark (list.idx newNode) false
      let list := list.setLock newNode 0
      let list := list.setNext newNode (list.idx curr)
      let list := list.setNext pred (list.idx newNode)
      some (list, none, 0)

/-- `lazylist_insert`, with a number of turns for its loops; it returns 0 on success and
    on an overlap. -/
def lazylistInsert (range : LazylistRange) : Nat → Lazylist → Option (Lazylist × Word)
  | 0, _ => none
  | turns + 1, list => do
    match ← list.lazylistFindPred (turns + 1) range with
    | none => some (list, 0)
    | some (pred, curr) =>
      let list ← list.lockNode pred
      let list ← list.lockNode curr
      if list.lazylistValidate pred curr then
        let (list, toDelete, error) ← list.insertBetween range pred curr
        let list := (list.unlockNode curr).unlockNode pred
        match toDelete with
        | none => some (list, error)
        | some node => do
          let list ← list.lazylistPutFreeNode node
          some (list, error)
      else lazylistInsert range turns ((list.unlockNode curr).unlockNode pred)

/-! ## Popping -/

/-- Any start is accepted. -/
def startAny (rangeLeft : Int) : Bool := decide (rangeLeft % 2 ^ 32 = rangeStartAny)

/-- `lazylist_pop_front`, with a number of turns for its loop: the range, if one is popped. -/
def lazylistPopFront (rangeLeft : Int) : Nat → Lazylist → Option (Lazylist × Option LazylistRange)
  | 0, _ => none
  | turns + 1, list =>
    if list.headIdx = eol then some (list, none)
    else
      let front := list.next list.headIdx
      let frontNext := list.next front
      if list.left front = int32Max then some (list, none)
      else if !startAny rangeLeft && decide (list.left front ≠ rangeLeft) then some (list, none)
      else do
        let list ← list.lockNode front
        let list ← list.lockNode frontNext
        if list.lazylistValidate front frontNext &&
            (decide (list.left front = rangeLeft) || startAny rangeLeft) then
          let range := list.range front
          let list := list.setMark (list.idx front) true
          let list := list.setNext list.headIdx (list.idx frontNext)
          let toDelete := list.idx front
          let list := (list.unlockNode frontNext).unlockNode front
          let list ← list.lazylistPutFreeNode toDelete
          some (list, some range)
        else lazylistPopFront rangeLeft turns ((list.unlockNode frontNext).unlockNode front)

/-! ## What a list stands for -/

/-- The nodes between the sentinels. -/
def active : List Nat := walk list.next numSegments (list.next list.headIdx) (numSegments - 1)

def freeNodes : List Nat := walk list.next numSegments list.freeHeadIdx eol

/-- The integers in the ranges of the list. -/
def denotes : Set Int := covers (list.active.map list.range)

/-- The ranges that are inserted. -/
structure Insertable (range : LazylistRange) : Prop where
  above : int32Min < range.left
  ordered : range.left ≤ range.right
  below : range.right < int32Max

instance (range : LazylistRange) : Decidable (Insertable range) :=
  decidable_of_iff (int32Min < range.left ∧ range.left ≤ range.right ∧ range.right < int32Max)
    ⟨fun ⟨above, ordered, below⟩ => ⟨above, ordered, below⟩,
      fun ⟨above, ordered, below⟩ => ⟨above, ordered, below⟩⟩

end Lazylist

end Pspin
