import Mathlib.Data.Nat.Basic
import Mathlib.Tactic.Ring

/-! # Register widths

`clog2 n` bits index `n` things, one bit more counts up to `n`.  Counters of a
given width wrap; the lemmas say when they do not.
-/

namespace Pspin.Clocked

/-- `$clog2`: the width of an index into `count` things. -/
def clog2 (count : Nat) : Nat :=
  if count ≤ 1 then 0 else Nat.log2 (count - 1) + 1

theorem le_two_pow_clog2 (count : Nat) : count ≤ 2 ^ clog2 count := by
  unfold clog2
  split
  · simpa using ‹count ≤ 1›
  · have bound : count - 1 < 2 ^ (Nat.log2 (count - 1) + 1) := Nat.lt_log2_self
    omega

theorem clog2_two_pow (bits : Nat) : clog2 (2 ^ bits) = bits := by
  unfold clog2
  cases bits with
  | zero => rfl
  | succ bits =>
    have positive := Nat.two_pow_pos bits
    have many : ¬2 ^ (bits + 1) ≤ 1 := by rw [pow_succ]; omega
    rw [if_neg many]
    have log : Nat.log2 (2 ^ (bits + 1) - 1) = bits := by
      rw [Nat.log2_eq_iff (by rw [pow_succ]; omega)]
      rw [pow_succ]
      omega
    rw [log]

theorem clog2_le {count bits : Nat} (small : count ≤ 2 ^ bits) : clog2 count ≤ bits := by
  unfold clog2
  split
  · exact Nat.zero_le _
  · exact (Nat.log2_lt (by omega)).mpr (by omega)

/-- A counter with one bit more than an index holds the count itself. -/
theorem lt_two_pow_clog2_succ {count : Nat} (positive : 0 < count) :
    count < 2 ^ (clog2 count + 1) := by
  have bound := le_two_pow_clog2 count
  rw [pow_succ]
  omega

/-- A value cut to a register of `width` bits. -/
def truncate (width value : Nat) : Nat := value % 2 ^ width

/-- A counter of `width` bits, incremented. -/
def increment (width value : Nat) : Nat := (value + 1) % 2 ^ width

/-- A counter of `width` bits, decremented. -/
def decrement (width value : Nat) : Nat := (value + (2 ^ width - 1)) % 2 ^ width

theorem truncate_of_lt {width value : Nat} (fits : value < 2 ^ width) :
    truncate width value = value := Nat.mod_eq_of_lt fits

theorem truncate_lt (width value : Nat) : truncate width value < 2 ^ width :=
  Nat.mod_lt _ (Nat.two_pow_pos width)

theorem increment_of_lt {width value : Nat} (fits : value + 1 < 2 ^ width) :
    increment width value = value + 1 := Nat.mod_eq_of_lt fits

/-- A counter that wraps counts modulo its range. -/
theorem increment_mod (width value : Nat) :
    increment width (value % 2 ^ width) = (value + 1) % 2 ^ width := by
  rw [increment, Nat.mod_add_mod]

theorem decrement_mod (width value : Nat) :
    decrement width ((value + 1) % 2 ^ width) = value % 2 ^ width := by
  have positive := Nat.two_pow_pos width
  have split : value + 1 + (2 ^ width - 1) = value + 2 ^ width := by omega
  rw [decrement, Nat.mod_add_mod, split, Nat.add_mod_right]

theorem decrement_of_pos {width value : Nat} (positive : 0 < value) (fits : value < 2 ^ width) :
    decrement width value = value - 1 := by
  have split : value + (2 ^ width - 1) = (value - 1) + 2 ^ width := by omega
  rw [decrement, split, Nat.add_mod_right, Nat.mod_eq_of_lt (by omega)]

/-- A difference cut to `width` bits. -/
def subtract (width value less : Nat) : Nat := (((value : Int) - less) % 2 ^ width).toNat

theorem subtract_of_le {width value less : Nat} (le : less ≤ value) (fits : value - less < 2 ^ width) :
    subtract width value less = value - less := by
  have cast : (value : Int) - less = ((value - less : Nat) : Int) := by omega
  have modulus : (2 : Int) ^ width = ((2 ^ width : Nat) : Int) := by norm_cast
  rw [subtract, cast, modulus, ← Int.natCast_emod, Int.toNat_natCast, Nat.mod_eq_of_lt fits]

/-- A difference below zero wraps. -/
theorem subtract_of_lt {width value less : Nat} (lt : value < less) (near : less ≤ value + 2 ^ width) :
    subtract width value less = value + 2 ^ width - less := by
  have modulus : (2 : Int) ^ width = ((2 ^ width : Nat) : Int) := by norm_cast
  have wraps : ((value : Int) - less) % 2 ^ width = ((value + 2 ^ width - less : Nat) : Int) := by
    rw [modulus, ← Int.add_emod_right,
      Int.emod_eq_of_lt (by omega) (by omega)]
    omega
  rw [subtract, wraps, Int.toNat_natCast]

end Pspin.Clocked
