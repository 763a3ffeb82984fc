import Pspin.Clocked.Bits
import Pspin.Clocked.Tournament
import Mathlib.Data.Fin.Basic

/-! # `lzc`

The trailing-zero counter (`MODE = 0`) as the tree the source builds: the first
set bit wins, and a node with nothing on its left forwards its right side.  A
pair that sticks out of the vector forwards its first index, or zero when both
are outside.
-/

namespace Pspin

open Clocked Clocked.Tournament

namespace Lzc

def request (width : Nat) (inI : Nat → Bool) (k : Nat) : Bool := decide (k < width) && inI k

def indexLut (width k : Nat) : Nat := if k < width then k else 0

def choose (width height position : Nat) (left right : Bool) : Bool :=
  -- the last level has no second input past the end of the vector
  !left && (right || decide (height ≠ 0) || decide (2 * position + 1 < width))

def root (width : Nat) (inI : Nat → Bool) : Bool × Nat :=
  node (request width inI) (indexLut width) (choose width) (clog2 width) 0

end Lzc

/-- `cnt_o` -/
def lzcCnt (width : Nat) (inI : Nat → Bool) : Nat :=
  if width = 1 then (!inI 0).toNat else (Lzc.root width inI).2

/-- `empty_o` -/
def lzcEmpty (width : Nat) (inI : Nat → Bool) : Bool := !(Lzc.root width inI).1

namespace Lzc

theorem prefersRequests (width : Nat) : PrefersRequests (choose width) := by
  intro height position left right requests
  cases left <;> cases right <;> simp_all [choose]

theorem prefersLeft (width : Nat) : PrefersLeft (choose width) := by
  intro height position right
  simp [choose]

end Lzc

@[simp] theorem lzcEmpty_eq_false {width : Nat} {inI : Nat → Bool} :
    lzcEmpty width inI = false ↔ ∃ k < width, inI k = true := by
  rw [lzcEmpty, Bool.not_eq_false', Lzc.root, node_request]
  simp only [Lzc.request, Bool.and_eq_true, decide_eq_true_eq]
  constructor
  · rintro ⟨k, -, bound, set⟩
    exact ⟨k, bound, set⟩
  · rintro ⟨k, bound, set⟩
    exact ⟨k, covers_root (le_two_pow_clog2 width) bound, bound, set⟩

@[simp] theorem lzcEmpty_eq_true {width : Nat} {inI : Nat → Bool} :
    lzcEmpty width inI = true ↔ ∀ k < width, inI k = false := by
  rw [← not_iff_not, Bool.not_eq_true, lzcEmpty_eq_false]
  simp

/-- The counter gives the first set bit. -/
theorem lzcCnt_spec {width : Nat} {inI : Nat → Bool} (some : lzcEmpty width inI = false) :
    lzcCnt width inI < width ∧ inI (lzcCnt width inI) = true ∧
      ∀ k < lzcCnt width inI, inI k = false := by
  obtain ⟨first, firstBound, firstSet⟩ := lzcEmpty_eq_false.mp some
  by_cases single : width = 1
  · have atZero : first = 0 := by omega
    subst atZero
    simp [lzcCnt, single, firstSet]
  · have requests : (Lzc.root width inI).1 = true := by
      simpa only [lzcEmpty, Bool.not_eq_false'] using some
    obtain ⟨k, -, request, least, forwarded⟩ :=
      node_winner_least (Lzc.prefersRequests width) (Lzc.prefersLeft width) _ _ requests
    simp only [Lzc.request, Bool.and_eq_true, decide_eq_true_eq] at request
    have count : lzcCnt width inI = k := by
      rw [lzcCnt, if_neg single]
      exact forwarded.trans (if_pos request.1)
    rw [count]
    refine ⟨request.1, request.2, ?_⟩
    intro j below
    by_contra set
    have covered := covers_root (le_two_pow_clog2 width) (below.trans request.1)
    have := least j covered (by simpa [Lzc.request, below.trans request.1] using set)
    omega

theorem lzcCnt_lt {width : Nat} {inI : Nat → Bool} (some : lzcEmpty width inI = false) :
    lzcCnt width inI < width := (lzcCnt_spec some).1

theorem lzcCnt_set {width : Nat} {inI : Nat → Bool} (some : lzcEmpty width inI = false) :
    inI (lzcCnt width inI) = true := (lzcCnt_spec some).2.1

end Pspin
