import Pspin.Ooorb.LazylistAccount

/-! # What a step of one core leaves of the others

A step changes one field of one node, one lock, or the first free node.  What the other
cores know is kept because the node is one the core has locked on the path, or one
that belongs to it.
-/

namespace Pspin

open Clocked Lazylist

variable {Core : Type} {n : Nat} {list list' : Lazylist} {path path' free free' : List Nat}
  {history history' : LazylistHistory} {sound sound' : Nat → Prop} {pc pc' other : LazylistPc}
  {i value : Nat} {values : LazylistRange} {word : Word} {mark : Bool}

/-- What is put in, taken out and returned by one core, as the others see it. -/
structure Continues (history history' : LazylistHistory) (pc : LazylistPc) : Prop where
  requested : ∀ range ∈ history.requested, range ∈ history'.requested
  inserted : ∀ range ∈ history.inserted, range ∈ history'.inserted
  taken : ∀ range ∈ history.taken, range ∈ history'.taken
  pending : ∀ range, pc.pending = some range → ∀ other ∈ history'.inserted,
    other ∈ history.inserted ∨ range.Apart other
  carried : ∀ range, pc.carried = some range → range ∈ history'.returned →
    range ∈ history.returned

theorem Continues.refl : Continues history history pc where
  requested _ := id
  inserted _ := id
  taken _ := id
  pending _ _ _ := .inl
  carried _ _ := id

theorem covers_mono {first second : List LazylistRange} (more : ∀ range ∈ first, range ∈ second)
    {x : Int} (member : x ∈ covers first) : x ∈ covers second := by
  obtain ⟨range, inFirst, inRange⟩ := member
  exact ⟨range, more range inFirst, inRange⟩

theorem Sane.frame (sane : Sane n list path free history sound pc)
    (undisturbed : Undisturbed n list list' path path' pc) (continues : Continues history history' pc)
    (locked : ∀ i ∈ pc.locks, list'.lock i ≠ 0)
    (lockedFree : pc.locksFree = true → list'.freeHeadLock ≠ 0)
    (held : ∀ i ∈ pc.held (n + 1), Within list'.next (n + 1) sound' i)
    (owned : ∀ i, pc.Owns i → i ∉ path' ∧ i ∉ free') :
    Sane n list' path' free' history' sound' pc where
  facts := undisturbed.facts continues.inserted sane.facts
  locked := locked
  lockedFree := lockedFree
  held := held
  owned i owns := ⟨(sane.owned i owns).1, owned i owns⟩
  removed i removed := by
    obtain ⟨marked, ordered, inside⟩ := sane.removed i removed
    -- the node is locked by this core, so that the others have left it alone
    have owns : i ∈ pc.locks ∨ pc.Owns i := .inr (.inr removed)
    rw [undisturbed.marks i owns, undisturbed.left owns, undisturbed.right owns,
      undisturbed.range i owns]
    exact ⟨marked, ordered, fun x member => covers_mono continues.inserted (inside x member)⟩
  pending range pending := by
    obtain ⟨insertable, requested, apart⟩ := sane.pending range pending
    refine ⟨insertable, continues.requested range requested, fun other member => ?_⟩
    obtain old | new := continues.pending range pending other member
    · exact apart other old
    · exact new
  carried range carried := by
    obtain ⟨taken, notReturned⟩ := sane.carried range carried
    exact ⟨continues.taken range taken, fun returned =>
      notReturned (continues.carried range carried returned)⟩

/-- The lists have the same nodes and differ in their locks. -/
structure SameNodes (list list' : Lazylist) : Prop where
  headIdx : list'.headIdx = list.headIdx
  freeHeadIdx : list'.freeHeadIdx = list.freeHeadIdx
  idx : list'.idx = list.idx
  range : list'.range = list.range
  marks : list'.marks = list.marks
  next : list'.next = list.next

theorem SameNodes.refl : SameNodes list list := ⟨rfl, rfl, rfl, rfl, rfl, rfl⟩

theorem SameNodes.setLock : SameNodes list (list.setLock i word) :=
  ⟨rfl, rfl, idx_setLock, range_setLock, rfl, next_setLock⟩

theorem SameNodes.setFreeHeadLock : SameNodes list (list.setFreeHeadLock word) :=
  ⟨rfl, rfl, rfl, rfl, rfl, rfl⟩

theorem SameNodes.left (same : SameNodes list list') : list'.left = list.left := by
  funext i
  rw [Lazylist.left, Lazylist.left, same.range]

theorem SameNodes.right (same : SameNodes list list') : list'.right = list.right := by
  funext i
  rw [Lazylist.right, Lazylist.right, same.range]

theorem SameNodes.shape (same : SameNodes list list') (shape : Shape n list path free) :
    Shape n list' path free where
  small := shape.small
  head := by rw [same.headIdx, shape.head]
  idx := by rw [same.idx]; exact shape.idx
  sentinelLeft := by rw [same.range, shape.sentinelLeft]
  sentinelRight := by rw [same.range, shape.sentinelRight]
  ended := by rw [same.next, shape.ended]
  linked := by rw [same.next]; exact shape.linked
  linkedFree := by rw [same.next, same.freeHeadIdx]; exact shape.linkedFree
  nodup := shape.nodup
  below := shape.below

theorem Shape.setRange (shape : Shape n list path free) (notHead : i ≠ n) (notLast : i ≠ n + 1) :
    Shape n (list.setRange i values) path free where
  small := shape.small
  head := shape.head
  idx := by rw [idx_setRange]; exact shape.idx
  sentinelLeft := by
    rw [range_setRange, Function.update_of_ne notHead.symm]
    exact shape.sentinelLeft
  sentinelRight := by
    rw [range_setRange, Function.update_of_ne notLast.symm]
    exact shape.sentinelRight
  ended := by rw [next_setRange]; exact shape.ended
  linked := by rw [next_setRange]; exact shape.linked
  linkedFree := by rw [next_setRange]; exact shape.linkedFree
  nodup := shape.nodup
  below := shape.below

theorem Shape.setMark (shape : Shape n list path free) :
    Shape n (list.setMark i mark) path free := { shape with }

theorem SameNodes.account {merging : Nat → Nat → Prop} (same : SameNodes list list')
    (account : Account list path history merging) : Account list' path history merging :=
  account.congr fun i _ => congrFun same.range i

theorem SameNodes.undisturbed (same : SameNodes list list') : Undisturbed n list list' path path pc where
  range i _ := by rw [same.range]
  marks i _ := by rw [same.marks]
  grows i _ := by rw [same.right]
  member _ _ member := member
  nextOwned i _ := by rw [same.next]
  nextLocked i _ _ := by rw [same.next]
  freeHead _ := ⟨same.freeHeadIdx, fun _ => by rw [same.next]⟩

/-! ## A node that others have nothing to do with -/

/-- A core has neither locked the node nor does it belong to it. -/
def Foreign (pc : LazylistPc) (i : Nat) : Prop := i ∉ pc.locks ∧ ¬pc.Owns i

theorem Foreign.ne {j : Nat} (foreign : Foreign pc i) (mine : j ∈ pc.locks ∨ pc.Owns j) : j ≠ i := by
  rintro rfl
  obtain locked | owned := mine
  · exact foreign.1 locked
  · exact foreign.2 owned

theorem Foreign.setRange (foreign : Foreign pc i)
    (grows : i ∈ pc.held (n + 1) → list.right i ≤ values.right) :
    Undisturbed n list (list.setRange i values) path path pc where
  range j mine := by rw [range_setRange, Function.update_of_ne (foreign.ne mine)]
  marks j _ := rfl
  grows j held := by
    rw [Lazylist.right, Lazylist.right, range_setRange]
    by_cases same : j = i
    · subst same
      rw [Function.update_self]
      exact grows held
    · rw [Function.update_of_ne same]
  member _ _ member := member
  nextOwned j _ := by rw [next_setRange]
  nextLocked j _ _ := by rw [next_setRange]
  freeHead _ := ⟨rfl, fun _ => by rw [next_setRange]⟩

theorem Foreign.setMark (foreign : Foreign pc i) :
    Undisturbed n list (list.setMark i mark) path path pc where
  range j _ := by rw [range_setMark]
  marks j mine := by rw [marks_setMark, Function.update_of_ne (foreign.ne mine)]
  grows j _ := by rw [Lazylist.right, Lazylist.right, range_setMark]
  member _ _ member := member
  nextOwned j _ := by rw [next_setMark]
  nextLocked j _ _ := by rw [next_setMark]
  freeHead _ := ⟨rfl, fun _ => by rw [next_setMark]⟩

/-- A link is redirected: of a node others have nothing to do with, or of the left sentinel, of
    which nobody else has locked both ends of the link. -/
theorem Undisturbed.setNext (owned : ¬pc.Owns i)
    (apart : i ∈ pc.locks → i = n ∧ list.next n ∉ pc.locks) (notFree : i ≠ list.freeHeadIdx)
    (member : ∀ j ∈ pc.locks, j ∈ n :: path → j ∈ n :: path') :
    Undisturbed n list (list.setNext i value) path path' pc where
  range j _ := by rw [range_setNext]
  marks j _ := rfl
  grows j _ := by rw [Lazylist.right, Lazylist.right, range_setNext]
  member := member
  nextOwned j owns := by
    rw [next_setNext, Function.update_of_ne]
    rintro rfl
    exact owned owns
  nextLocked j locked both := by
    rw [next_setNext, Function.update_of_ne]
    rintro rfl
    obtain ⟨atHead, notLocked⟩ := apart locked
    exact notLocked (both atHead)
  freeHead _ := ⟨rfl, fun _ => by rw [next_setNext, Function.update_of_ne notFree.symm]⟩

theorem Undisturbed.setFreeHead (notMine : pc.locksFree = false) :
    Undisturbed n list (list.setFreeHead value) path path pc where
  range j _ := by rw [range_setFreeHead]
  marks j _ := rfl
  grows j _ := by rw [Lazylist.right, Lazylist.right, range_setFreeHead]
  member _ _ member := member
  nextOwned j _ := by rw [next_setFreeHead]
  nextLocked j _ _ := by rw [next_setFreeHead]
  freeHead locked := by simp [notMine] at locked

end Pspin
