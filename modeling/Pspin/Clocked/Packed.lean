import Mathlib.Data.BitVec

/-! # Packed arrays of words

The bits of an array of words, the first word lowest, and what a field of these bits
reads: a field inside one word reads that word, a field of two words their concatenation.
-/

namespace Pspin.Clocked

variable {w : Nat}

/-- The first `count` words as one bit vector. -/
def packWords (words : Nat → BitVec w) : (count : Nat) → BitVec (w * count)
  | 0 => 0#_
  | count + 1 => (words count ++ packWords words count).cast (Nat.add_comm w (w * count))

theorem getLsbD_packWords (words : Nat → BitVec w) {count i bit : Nat} (inArray : i < count)
    (inWord : bit < w) :
    (packWords words count).getLsbD (w * i + bit) = (words i).getLsbD bit := by
  induction count with
  | zero => exact absurd inArray (Nat.not_lt_zero i)
  | succ count ih =>
    rw [packWords, BitVec.getLsbD_cast, BitVec.getLsbD_append]
    rcases Nat.lt_succ_iff_lt_or_eq.mp inArray with below | rfl
    · have lower : w * i + bit < w * count :=
        calc w * i + bit < w * i + w := Nat.add_lt_add_left inWord _
          _ = w * (i + 1) := (Nat.mul_succ w i).symm
          _ ≤ w * count := Nat.mul_le_mul_left w below
      rw [if_pos lower, ih below]
    · have upper : ¬w * i + bit < w * i := Nat.not_lt.mpr (Nat.le_add_right _ _)
      rw [if_neg upper, Nat.add_sub_cancel_left]

/-- A field inside one word. -/
theorem extractLsb'_packWords (words : Nat → BitVec w) {count : Nat} (i start len : Nat)
    (inArray : i < count) (inWord : start + len ≤ w) :
    (packWords words count).extractLsb' (w * i + start) len = (words i).extractLsb' start len := by
  apply BitVec.eq_of_getLsbD_eq
  intro bit inside
  have here : start + bit < w := Nat.lt_of_lt_of_le (Nat.add_lt_add_left inside start) inWord
  rw [BitVec.getLsbD_extractLsb', BitVec.getLsbD_extractLsb', Nat.add_assoc,
    getLsbD_packWords words inArray here]

/-- A whole word. -/
theorem word_packWords (words : Nat → BitVec w) {count : Nat} (i : Nat) (inArray : i < count) :
    (packWords words count).extractLsb' (w * i) w = words i := by
  have field := extractLsb'_packWords words i 0 w inArray (Nat.le_of_eq (Nat.zero_add w))
  rwa [Nat.add_zero, BitVec.extractLsb'_eq_self] at field

/-- Two words next to each other. -/
theorem words_packWords (words : Nat → BitVec w) {count : Nat} (i : Nat) (inArray : i + 1 < count) :
    (packWords words count).extractLsb' (w * i) (w + w) = words (i + 1) ++ words i := by
  rw [← word_packWords words (i + 1) inArray,
    ← word_packWords words i (Nat.lt_of_succ_lt inArray),
    BitVec.extractLsb'_append_extractLsb'_eq_extractLsb' (Nat.mul_succ w i)]

/-- A field of a field. -/
theorem extractLsb'_extractLsb'_inside {n : Nat} (bits : BitVec n) {start len start' len' : Nat}
    (inside : start' + len' ≤ len) :
    (bits.extractLsb' start len).extractLsb' start' len' = bits.extractLsb' (start + start') len' := by
  apply BitVec.eq_of_getLsbD_eq
  intro bit below
  have here : start' + bit < len := by omega
  simp [BitVec.getLsbD_extractLsb', here, Nat.add_assoc]

end Pspin.Clocked
