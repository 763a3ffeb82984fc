import Pspin.Clocked.Threads
import Pspin.Ooorb.Lazylist

/-! # Cores on one lazy list

Any number of cores run `lazylist_insert` and `lazylist_pop_front` on one list, and
every load, store and atomic operation on a lock is a step of its own.  The loads of
`head_idx` and of a node's `idx`, which nobody stores to, belong to the access
that uses them; the loads that only an assertion or a message makes are left out.
-/

namespace Pspin

open Clocked

/-- The accesses of `lazylist_validate`. -/
inductive ValidateStage where
  | pred
  | curr
  | next
deriving DecidableEq

/-- The accesses of `lazylist_insert` after a validation, with the registers they need: first
    `connects_left` and `connects_right`, then one of the four branches, the last of which
    calls `lazylist_get_free_node`. -/
inductive InsertStage where
  | predRight
  | predLeft
  | currLeft (connectsLeft : Bool)
  | currMax (connectsLeft : Bool)
  | mergeRight
  | mergeStore (right : Int)
  | mergeMark
  | mergeNext
  | mergeLink (nextIdx : Nat)
  | extendPred
  | extendCurr
  | getLock
  | getCheck
  | getHead
  | getNext (freeNode : Nat)
  | getStore (freeNode nextIdx : Nat)
  | getUnlock (freeNode : Option Nat)
  | newLeft (newNode : Nat)
  | newRight (newNode : Nat)
  | newMark (newNode : Nat)
  | newLock (newNode : Nat)
  | newNext (newNode : Nat)
  | newLink (newNode : Nat)
deriving DecidableEq

/-- The accesses of `lazylist_pop_front` after a validation. -/
inductive PopStage where
  | check
  | left
  | right (left : Int)
  | mark (range : LazylistRange)
  | store (range : LazylistRange)
deriving DecidableEq

/-- The accesses of `lazylist_put_free_node`. -/
inductive PutStage where
  | lock
  | head
  | next (nextIdx : Nat)
  | store
  | unlock
deriving DecidableEq

/-- What comes after the locks are given back: another turn, or the end of the call with a
    node that has to be put among the free ones. -/
inductive LazylistOutcome where
  | retry
  | finish (result : LazylistResult) (toDelete : Option Nat)
deriving DecidableEq

/-- The next access of a core.  A front and the node after it are the two nodes that
    `lazylist_pop_front` locks and validates. -/
inductive LazylistPc where
  | idle
  | findRight (range : LazylistRange) (pred curr : Nat)
  | findNext (range : LazylistRange) (curr : Nat)
  | findLeft (range : LazylistRange) (pred curr : Nat)
  | popHead (rangeLeft : Int)
  | popNext (rangeLeft : Int) (front : Nat)
  | popEmpty (rangeLeft : Int) (front frontNext : Nat)
  | popStart (rangeLeft : Int) (front frontNext : Nat)
  | lockPred (call : LazylistCall) (pred curr : Nat)
  | lockCurr (call : LazylistCall) (pred curr : Nat)
  | validating (call : LazylistCall) (pred curr : Nat) (stage : ValidateStage)
  | inserting (range : LazylistRange) (pred curr : Nat) (stage : InsertStage)
  | popping (rangeLeft : Int) (front frontNext : Nat) (stage : PopStage)
  | unlockCurr (call : LazylistCall) (pred curr : Nat) (outcome : LazylistOutcome)
  | unlockPred (call : LazylistCall) (pred : Nat) (outcome : LazylistOutcome)
  | putting (call : LazylistCall) (result : LazylistResult) (freedNode : Nat) (stage : PutStage)
deriving DecidableEq

namespace LazylistPc

/-- Where a turn of a call begins. -/
def begin (list : Lazylist) : LazylistCall → LazylistPc
  | .insert range => .findRight range list.headIdx list.headIdx
  | .popFront rangeLeft => if list.headIdx = eol then .idle else .popHead rangeLeft

/-- One turn of `spin_lock_lock` on a node. -/
def lockNode (list : Lazylist) (i : Nat) (taken waiting : LazylistPc) : LazylistPc × Lazylist :=
  let (locked, lock) := futexTryLock (list.lock i)
  (if locked then taken else waiting, list.setLock i lock)

/-- One turn of `spin_lock_lock` on `free_head_lock`. -/
def lockFreeHead (list : Lazylist) (taken waiting : LazylistPc) : LazylistPc × Lazylist :=
  let (locked, lock) := futexTryLock list.freeHeadLock
  (if locked then taken else waiting, list.setFreeHeadLock lock)

/-- The branch that `connects_left` and `connects_right` choose. -/
def branch : Bool → Bool → InsertStage
  | true, true => .mergeRight
  | true, false => .extendPred
  | false, true => .extendCurr
  | false, false => .getLock

/-- The end of the locked part of an insertion. -/
def inserted (range : LazylistRange) (pred curr : Nat) (error : Word) (toDelete : Option Nat) :
    LazylistPc :=
  .unlockCurr (.insert range) pred curr (.finish (.inserted error) toDelete)

def actValidate (call : LazylistCall) (pred curr : Nat) (list : Lazylist) : ValidateStage → LazylistPc
  | .pred =>
    if list.marks (list.idx pred) then .unlockCurr call pred curr .retry
    else .validating call pred curr .curr
  | .curr =>
    if list.marks (list.idx curr) then .unlockCurr call pred curr .retry
    else .validating call pred curr .next
  | .next =>
    if list.next pred = list.idx curr then
      match call with
      | .insert range => .inserting range pred curr .predRight
      | .popFront rangeLeft => .popping rangeLeft pred curr .check
    else .unlockCurr call pred curr .retry

def actInsert (range : LazylistRange) (pred curr : Nat) (list : Lazylist) :
    InsertStage → LazylistPc × Lazylist
  -- which neighbours the range continues
  | .predRight =>
    (.inserting range pred curr
      (if list.right pred + 1 = range.left then .predLeft else .currLeft false), list)
  | .predLeft =>
    (.inserting range pred curr (.currLeft (decide (list.left pred > int32Min))), list)
  | .currLeft connectsLeft =>
    (.inserting range pred curr
      (if range.right + 1 = list.left curr then .currMax connectsLeft
        else branch connectsLeft false), list)
  | .currMax connectsLeft =>
    (.inserting range pred curr (branch connectsLeft (decide (list.left curr < int32Max))), list)
  -- both: `pred` takes over `curr`
  | .mergeRight => (.inserting range pred curr (.mergeStore (list.right curr)), list)
  | .mergeStore right =>
    (.inserting range pred curr .mergeMark, list.setRange pred ⟨list.left pred, right⟩)
  | .mergeMark => (.inserting range pred curr .mergeNext, list.setMark (list.idx curr) true)
  | .mergeNext => (.inserting range pred curr (.mergeLink (list.next curr)), list)
  | .mergeLink nextIdx => (inserted range pred curr 0 (some curr), list.setNext pred nextIdx)
  -- one of them
  | .extendPred =>
    (inserted range pred curr 0 none, list.setRange pred ⟨list.left pred, range.right⟩)
  | .extendCurr =>
    (inserted range pred curr 0 none, list.setRange curr ⟨range.left, list.right curr⟩)
  -- neither: a node from the free list
  | .getLock =>
    lockFreeHead list (.inserting range pred curr .getCheck) (.inserting range pred curr .getLock)
  | .getCheck =>
    (.inserting range pred curr
      (if list.freeHeadLock ≠ BitVec.ofNat 32 eol then .getHead else .getUnlock none), list)
  | .getHead => (.inserting range pred curr (.getNext list.freeHeadIdx), list)
  | .getNext freeNode =>
    (.inserting range pred curr (.getStore freeNode (list.next freeNode)), list)
  | .getStore freeNode nextIdx =>
    (.inserting range pred curr (.getUnlock (some freeNode)), list.setFreeHead nextIdx)
  | .getUnlock (some newNode) =>
    (.inserting range pred curr (.newLeft newNode), list.unlockFreeHead)
  | .getUnlock none => (inserted range pred curr 1 none, list.unlockFreeHead)
  -- the new node is filled before it is linked
  | .newLeft newNode =>
    (.inserting range pred curr (.newRight newNode),
      list.setRange newNode ⟨range.left, list.right newNode⟩)
  | .newRight newNode =>
    (.inserting range pred curr (.newMark newNode),
      list.setRange newNode ⟨list.left newNode, range.right⟩)
  | .newMark newNode =>
    (.inserting range pred curr (.newLock newNode), list.setMark (list.idx newNode) false)
  | .newLock newNode => (.inserting range pred curr (.newNext newNode), list.setLock newNode 0)
  | .newNext newNode =>
    (.inserting range pred curr (.newLink newNode), list.setNext newNode (list.idx curr))
  | .newLink newNode => (inserted range pred curr 0 none, list.setNext pred (list.idx newNode))

def actPop (rangeLeft : Int) (front frontNext : Nat) (list : Lazylist) :
    PopStage → LazylistPc × Lazylist
  | .check =>
    (if list.left front = rangeLeft ∨ Lazylist.startAny rangeLeft then
      .popping rangeLeft front frontNext .left
    else .unlockCurr (.popFront rangeLeft) front frontNext .retry, list)
  | .left => (.popping rangeLeft front frontNext (.right (list.left front)), list)
  | .right left => (.popping rangeLeft front frontNext (.mark ⟨left, list.right front⟩), list)
  | .mark range =>
    (.popping rangeLeft front frontNext (.store range), list.setMark (list.idx front) true)
  | .store range =>
    (.unlockCurr (.popFront rangeLeft) front frontNext
      (.finish (.popped (some range)) (some (list.idx front))),
      list.setNext list.headIdx (list.idx frontNext))

def actPut (call : LazylistCall) (result : LazylistResult) (freedNode : Nat) (list : Lazylist) :
    PutStage → LazylistPc × Lazylist
  | .lock =>
    lockFreeHead list (.putting call result freedNode .head) (.putting call result freedNode .lock)
  | .head => (.putting call result freedNode (.next list.freeHeadIdx), list)
  | .next nextIdx => (.putting call result freedNode .store, list.setNext freedNode nextIdx)
  | .store =>
    (.putting call result freedNode .unlock, list.setFreeHead (list.idx freedNode))
  | .unlock => (.idle, list.unlockFreeHead)

/-- The next access of a core, and what a core that is idle calls. -/
def act (pc : LazylistPc) (list : Lazylist) (call : LazylistCall) : LazylistPc × Lazylist :=
  match pc with
  | .idle => (begin list call, list)
  -- the search of `lazylist_insert`, which takes no lock
  | .findRight range pred curr =>
    (if list.right curr < range.left then .findNext range curr else .findLeft range pred curr, list)
  | .findNext range curr => (.findRight range curr (list.next curr), list)
  | .findLeft range pred curr =>
    (if list.left curr ≤ range.right then .idle else .lockPred (.insert range) pred curr, list)
  -- the first node, for `lazylist_pop_front`
  | .popHead rangeLeft => (.popNext rangeLeft (list.next list.headIdx), list)
  | .popNext rangeLeft front => (.popEmpty rangeLeft front (list.next front), list)
  | .popEmpty rangeLeft front frontNext =>
    (if list.left front = int32Max then .idle
      else if Lazylist.startAny rangeLeft then .lockPred (.popFront rangeLeft) front frontNext
      else .popStart rangeLeft front frontNext, list)
  | .popStart rangeLeft front frontNext =>
    (if list.left front ≠ rangeLeft then .idle
      else .lockPred (.popFront rangeLeft) front frontNext, list)
  -- both operations lock two nodes and validate them
  | .lockPred call pred curr =>
    lockNode list pred (.lockCurr call pred curr) (.lockPred call pred curr)
  | .lockCurr call pred curr =>
    lockNode list curr (.validating call pred curr .pred) (.lockCurr call pred curr)
  | .validating call pred curr stage => (actValidate call pred curr list stage, list)
  | .inserting range pred curr stage => actInsert range pred curr list stage
  | .popping rangeLeft front frontNext stage => actPop rangeLeft front frontNext list stage
  -- a failed validation starts the call again
  | .unlockCurr call pred curr outcome => (.unlockPred call pred outcome, list.unlockNode curr)
  | .unlockPred call pred outcome =>
    (match outcome with
      | .retry => begin list call
      | .finish result (some freedNode) => .putting call result freedNode .lock
      | .finish _ none => .idle, list.unlockNode pred)
  | .putting call result freedNode stage => actPut call result freedNode list stage

/-! ## What a step does for the caller -/

/-- The call that a step ends, and what it returns. -/
def returns (pc : LazylistPc) (list : Lazylist) : Option (LazylistCall × LazylistResult) :=
  match pc with
  | .findLeft range _ curr =>
    if list.left curr ≤ range.right then some (.insert range, .inserted 0) else none
  | .popEmpty rangeLeft front _ =>
    if list.left front = int32Max then some (.popFront rangeLeft, .popped none) else none
  | .popStart rangeLeft front _ =>
    if list.left front ≠ rangeLeft then some (.popFront rangeLeft, .popped none) else none
  | .unlockPred call _ (.finish result none) => some (call, result)
  | .putting call result _ .unlock => some (call, result)
  | _ => none

/-- The range that a step starts to insert. -/
def requests (pc : LazylistPc) (call : LazylistCall) : Option LazylistRange :=
  match pc, call with
  | .idle, .insert range => some range
  | _, _ => none

/-- The range that a step puts into the list. -/
def inserts : LazylistPc → Option LazylistRange
  | .inserting range _ _ (.mergeStore _) => some range
  | .inserting range _ _ .extendPred => some range
  | .inserting range _ _ .extendCurr => some range
  | .inserting range _ _ (.newLink _) => some range
  | _ => none

/-- The range that a step takes out of the list. -/
def takes : LazylistPc → Option LazylistRange
  | .popping _ _ _ (.store range) => some range
  | _ => none

/-- The indices of nodes that a core still uses.  It does nothing with what follows `last`, the
    right sentinel. -/
def held (last : Nat) : LazylistPc → List Nat
  | .idle => []
  | .findRight _ pred curr => [pred, curr]
  | .findNext _ curr => [curr]
  | .findLeft _ pred curr => [pred, curr]
  | .popHead _ => []
  | .popNext _ front => [front]
  -- what follows the right sentinel is read but never used
  | .popEmpty _ front frontNext => if front = last then [front] else [front, frontNext]
  | .popStart _ front frontNext => [front, frontNext]
  | .lockPred _ pred curr => [pred, curr]
  | .lockCurr _ pred curr => [pred, curr]
  | .validating _ pred curr _ => [pred, curr]
  | .inserting _ pred curr _ => [pred, curr]
  | .popping _ front frontNext _ => [front, frontNext]
  | .unlockCurr _ pred curr _ => [pred, curr]
  | .unlockPred _ pred _ => [pred]
  | .putting _ _ _ _ => []

end LazylistPc

/-! ## Runs -/

/-- What the calls were for: the ranges of the insertions that were started, the ranges put into
    the list, those of the insertions that have returned 0, the ranges taken out of the
    list, and those that have been returned. -/
structure LazylistHistory where
  requested : List LazylistRange
  inserted : List LazylistRange
  completed : List LazylistRange
  taken : List LazylistRange
  returned : List LazylistRange
deriving DecidableEq

namespace LazylistHistory

variable (history : LazylistHistory)

def recordReturn : Option (LazylistCall × LazylistResult) → LazylistHistory
  | some (.insert range, .inserted error) =>
    if error = 0 then { history with completed := history.completed ++ [range] } else history
  | some (_, .popped (some range)) => { history with returned := history.returned ++ [range] }
  | _ => history

/-- What a step of a core adds. -/
def record (pc : LazylistPc) (list : Lazylist) (call : LazylistCall) : LazylistHistory :=
  recordReturn { history with
    requested := history.requested ++ (pc.requests call).toList
    inserted := history.inserted ++ pc.inserts.toList
    taken := history.taken ++ pc.takes.toList } (pc.returns list)

end LazylistHistory

abbrev LazylistState (Core : Type) := Threads Core LazylistPc Lazylist × LazylistHistory

/-- Cores on a list that was initialised in zeroed memory, and what they did. -/
def lazylistThreads (Core : Type) [DecidableEq Core] :
    Machine (LazylistState Core) (Core × LazylistCall) :=
  (Threads.interleave (Lazylist.zeroed.lazylistInit numSegments) .idle LazylistPc.act).observedBy
    ⟨[], [], [], [], []⟩
    fun state history input => history.record (state.thread input.1) state.shared input.2

end Pspin
