import Mathlib.Data.List.Basic
import Mathlib.Logic.Function.Basic

/-! # Chains of linked cells

Cells carry the index of the next cell and a flag that ends the chain.  A list of
indices is linked when following `next` from its first cell visits exactly the
list.  The next field of the last cell means nothing, so a chain grows by
rewriting its last cell only and shrinks by forgetting its first one.
-/

namespace Pspin.Clocked

structure Cell where
  next : Nat
  isLast : Bool
deriving DecidableEq

def setNext (cells : Nat → Cell) (index next : Nat) : Nat → Cell :=
  Function.update cells index { cells index with next := next }

def setIsLast (cells : Nat → Cell) (index : Nat) (isLast : Bool) : Nat → Cell :=
  Function.update cells index { cells index with isLast := isLast }

def Linked (cells : Nat → Cell) : List Nat → Prop
  | [] => True
  | [last] => (cells last).isLast = true
  | index :: next :: rest =>
    (cells index).isLast = false ∧ (cells index).next = next ∧ Linked cells (next :: rest)

/-- The cells from one on along `next`, as many as asked for at most. -/
def chainFrom (cells : Nat → Cell) : Nat → Nat → List Nat
  | 0, _ => []
  | fuel + 1, index =>
    index :: if (cells index).isLast then [] else chainFrom cells fuel (cells index).next

@[simp] theorem setNext_self (cells : Nat → Cell) (index next : Nat) :
    setNext cells index next index = { cells index with next := next } := by
  simp [setNext]

@[simp] theorem setNext_of_ne (cells : Nat → Cell) {index other : Nat} (next : Nat)
    (ne : other ≠ index) : setNext cells index next other = cells other := by
  simp [setNext, ne]

@[simp] theorem setIsLast_self (cells : Nat → Cell) (index : Nat) (isLast : Bool) :
    setIsLast cells index isLast index = { cells index with isLast := isLast } := by
  simp [setIsLast]

@[simp] theorem setIsLast_of_ne (cells : Nat → Cell) {index other : Nat} (isLast : Bool)
    (ne : other ≠ index) : setIsLast cells index isLast other = cells other := by
  simp [setIsLast, ne]

namespace Linked

variable {cells cells' : Nat → Cell} {chain rest : List Nat} {index next : Nat}

theorem congr (agree : ∀ index ∈ chain, cells' index = cells index) (linked : Linked cells chain) :
    Linked cells' chain := by
  induction chain with
  | nil => trivial
  | cons index rest inductionHypothesis =>
    have same := agree index (by simp)
    cases rest with
    | nil => simpa [Linked, same] using linked
    | cons next rest =>
      obtain ⟨notLast, toNext, restLinked⟩ := linked
      refine ⟨same ▸ notLast, same ▸ toNext, ?_⟩
      exact inductionHypothesis (fun other member => agree other (by simp [member])) restLinked

theorem tail (linked : Linked cells (index :: rest)) : Linked cells rest := by
  cases rest with
  | nil => trivial
  | cons next rest => exact linked.2.2

theorem isLast_head (linked : Linked cells (index :: rest)) :
    (cells index).isLast = rest.isEmpty := by
  cases rest with
  | nil => exact linked
  | cons next rest => exact linked.1

theorem next_head (linked : Linked cells (index :: next :: rest)) :
    (cells index).next = next := linked.2.1

/-- A chain grows by one cell: its last cell is pointed at the new one, which is
    flagged as the last, and nothing else in the chain changes. -/
theorem append {fresh last : Nat} (linked : Linked cells chain) (nodup : chain.Nodup)
    (isLast : chain.getLast? = some last)
    (agree : ∀ index ∈ chain, index ≠ last → cells' index = cells index)
    (redirected : cells' last = ⟨fresh, false⟩) (ended : (cells' fresh).isLast = true) :
    Linked cells' (chain ++ [fresh]) := by
  induction chain with
  | nil => cases isLast
  | cons index rest inductionHypothesis =>
    cases rest with
    | nil =>
      obtain rfl : index = last := by simpa using isLast
      simp [Linked, redirected, ended]
    | cons next rest =>
      have isLast' : (next :: rest).getLast? = some last := by
        simpa [List.getLast?_cons_cons] using isLast
      have ne : index ≠ last := by
        rintro rfl
        exact (List.nodup_cons.mp nodup).1 (List.mem_of_getLast? isLast')
      have same := agree index (by simp) ne
      obtain ⟨notLast, toNext, restLinked⟩ := linked
      refine ⟨same ▸ notLast, same ▸ toNext, ?_⟩
      exact inductionHypothesis restLinked nodup.of_cons isLast'
        (fun other member => agree other (by simp [member]))

/-- A walk from the first cell visits the chain. -/
theorem chainFrom_eq {fuel : Nat} (linked : Linked cells (index :: rest))
    (enough : (index :: rest).length ≤ fuel) : chainFrom cells fuel index = index :: rest := by
  induction rest generalizing fuel index with
  | nil =>
    obtain ⟨fuel, rfl⟩ := Nat.exists_eq_add_of_le' enough
    rw [List.length_singleton, chainFrom, linked.isLast_head]
    rfl
  | cons next rest inductionHypothesis =>
    cases fuel with
    | zero => cases enough
    | succ fuel =>
      have later := inductionHypothesis linked.tail (Nat.le_of_succ_le_succ enough)
      rw [chainFrom, linked.isLast_head, linked.next_head, later]
      rfl

end Linked

end Pspin.Clocked
