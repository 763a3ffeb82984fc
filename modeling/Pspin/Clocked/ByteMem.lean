import Mathlib.Data.BitVec

/-! # Bytes in memory

Memory seen from a pointer, and the little-endian words in it.
-/

namespace Pspin.Clocked

/-- The bytes at and after an address. -/
abbrev ByteMem := Nat → BitVec 8

namespace ByteMem

/-- A list of bytes, and what the memory holds after them. -/
def ofList (bytes : List (BitVec 8)) (rest : ByteMem) : ByteMem :=
  fun i => bytes[i]?.getD (rest i)

def load16 (mem : ByteMem) (offset : Nat) : BitVec 16 := mem (offset + 1) ++ mem offset

def load32 (mem : ByteMem) (offset : Nat) : BitVec 32 :=
  (mem (offset + 3) ++ mem (offset + 2)) ++ (mem (offset + 1) ++ mem offset)

/-- The low `count` bytes of a value stored at an offset. -/
def storeBytes {w : Nat} (mem : ByteMem) (offset count : Nat) (value : BitVec w) : ByteMem :=
  fun i =>
    if offset ≤ i ∧ i < offset + count then value.extractLsb' (8 * (i - offset)) 8 else mem i

def store16 (mem : ByteMem) (offset : Nat) (value : BitVec 16) : ByteMem :=
  mem.storeBytes offset 2 value

def store32 (mem : ByteMem) (offset : Nat) (value : BitVec 32) : ByteMem :=
  mem.storeBytes offset 4 value

theorem ofList_of_lt {bytes : List (BitVec 8)} {rest : ByteMem} {i : Nat} (inside : i < bytes.length) :
    ofList bytes rest i = bytes[i] := by
  rw [ofList, List.getElem?_eq_getElem inside, Option.getD_some]

theorem load32_congr {mem mem' : ByteMem} {offset offset' : Nat}
    (same : ∀ i, i < 4 → mem (offset + i) = mem' (offset' + i)) :
    mem.load32 offset = mem'.load32 offset' := by
  have first : mem offset = mem' offset' := same 0 (by decide)
  rw [load32, load32, first, same 1 (by decide), same 2 (by decide), same 3 (by decide)]

theorem load16_congr {mem mem' : ByteMem} {offset offset' : Nat}
    (same : ∀ i, i < 2 → mem (offset + i) = mem' (offset' + i)) :
    mem.load16 offset = mem'.load16 offset' := by
  have first : mem offset = mem' offset' := same 0 (by decide)
  rw [load16, load16, first, same 1 (by decide)]

/-! ## Loads after stores -/

section Stores

variable {w : Nat} {mem : ByteMem} {offset count i : Nat} {value : BitVec w}

theorem storeBytes_inside (inside : i < count) :
    mem.storeBytes offset count value (offset + i) = value.extractLsb' (8 * i) 8 := by
  rw [storeBytes, if_pos ⟨Nat.le_add_right _ _, Nat.add_lt_add_left inside _⟩,
    Nat.add_sub_cancel_left]

theorem storeBytes_outside (outside : i < offset ∨ offset + count ≤ i) :
    mem.storeBytes offset count value i = mem i := by
  have apart : ¬(offset ≤ i ∧ i < offset + count) := by omega
  rw [storeBytes, if_neg apart]

end Stores

section Apart

variable {mem : ByteMem} {offset at' : Nat}

theorem load32_store32_apart {value : BitVec 32} (apart : at' + 4 ≤ offset ∨ offset + 4 ≤ at') :
    (mem.store32 offset value).load32 at' = mem.load32 at' :=
  load32_congr fun _ inside => storeBytes_outside (by omega)

theorem load32_store16_apart {value : BitVec 16} (apart : at' + 4 ≤ offset ∨ offset + 2 ≤ at') :
    (mem.store16 offset value).load32 at' = mem.load32 at' :=
  load32_congr fun _ inside => storeBytes_outside (by omega)

theorem load16_store32_apart {value : BitVec 32} (apart : at' + 2 ≤ offset ∨ offset + 4 ≤ at') :
    (mem.store32 offset value).load16 at' = mem.load16 at' :=
  load16_congr fun _ inside => storeBytes_outside (by omega)

theorem load16_store16_apart {value : BitVec 16} (apart : at' + 2 ≤ offset ∨ offset + 2 ≤ at') :
    (mem.store16 offset value).load16 at' = mem.load16 at' :=
  load16_congr fun _ inside => storeBytes_outside (by omega)

end Apart

@[simp] theorem load32_store32 (mem : ByteMem) (offset : Nat) (value : BitVec 32) :
    (mem.store32 offset value).load32 offset = value := by
  have first : mem.store32 offset value offset = value.extractLsb' 0 8 :=
    storeBytes_inside (show 0 < 4 by decide)
  rw [load32, first, store32, storeBytes_inside (by decide), storeBytes_inside (by decide),
    storeBytes_inside (by decide)]
  apply BitVec.eq_of_getLsbD_eq
  intro bit inside
  simp only [BitVec.getLsbD_append, BitVec.getLsbD_extractLsb']
  grind

@[simp] theorem load16_store16 (mem : ByteMem) (offset : Nat) (value : BitVec 16) :
    (mem.store16 offset value).load16 offset = value := by
  have first : mem.store16 offset value offset = value.extractLsb' 0 8 :=
    storeBytes_inside (show 0 < 2 by decide)
  rw [load16, first, store16, storeBytes_inside (by decide)]
  apply BitVec.eq_of_getLsbD_eq
  intro bit inside
  simp only [BitVec.getLsbD_append, BitVec.getLsbD_extractLsb']
  grind

end ByteMem

end Pspin.Clocked
