import Pspin.Clocked.ByteMem

/-! # Byte lanes

A bus moves words of a number of bytes.  The byte at an address travels on the lane that is the
address modulo the width of the bus, so a beat changes bytes of one bus word only, those on the
lanes with a strobe.
-/

namespace Pspin.Clocked

namespace ByteMem

/-- A beat of a write on a bus of `width` bytes. -/
def writeBeat (mem : ByteMem) (width addr : Nat) (data : Nat → BitVec 8) (strb : Nat → Bool) :
    ByteMem :=
  fun i => if i / width = addr / width ∧ strb (i % width) = true then data (i % width) else mem i

variable {w width addr count : Nat} {value : BitVec w}

/-! ## Runs of bytes -/

/-- A run of bytes stored at an address. -/
def storeRun (mem : ByteMem) (addr count : Nat) (bytes : Nat → BitVec 8) : ByteMem :=
  fun i => if addr ≤ i ∧ i < addr + count then bytes (i - addr) else mem i

section Runs

variable {mem : ByteMem} {bytes bytes' data : Nat → BitVec 8} {strb : Nat → Bool} {more : Nat}

@[simp] theorem storeRun_zero : mem.storeRun addr 0 bytes = mem := by
  funext i
  have apart : ¬(addr ≤ i ∧ i < addr + 0) := by omega
  rw [storeRun, if_neg apart]

theorem storeRun_congr (same : ∀ i < count, bytes i = bytes' i) :
    mem.storeRun addr count bytes = mem.storeRun addr count bytes' := by
  funext i
  simp only [storeRun]
  split
  next inside => exact same _ (by omega)
  next => rfl

/-- A run and one that starts where it ends are one run. -/
theorem storeRun_append : (mem.storeRun addr count bytes).storeRun (addr + count) more
    (fun i => bytes (count + i)) = mem.storeRun addr (count + more) bytes := by
  funext i
  simp only [storeRun]
  by_cases second : addr + count ≤ i ∧ i < addr + count + more
  · have inside : addr ≤ i ∧ i < addr + (count + more) := by omega
    have offset : count + (i - (addr + count)) = i - addr := by omega
    rw [if_pos second, if_pos inside, offset]
  · rw [if_neg second]
    by_cases first : addr ≤ i ∧ i < addr + count
    · have inside : addr ≤ i ∧ i < addr + (count + more) := by omega
      rw [if_pos first, if_pos inside]
    · have outside : ¬(addr ≤ i ∧ i < addr + (count + more)) := by omega
      rw [if_neg first, if_neg outside]

/-- A run and one behind it that is padded are one padded run. -/
theorem storeRun_padded {start total pad : Nat} {rest : BitVec 8} (inside : count ≤ total) :
    (mem.storeRun addr count fun i => if i < count then data (start + i) else rest).storeRun
        (addr + count) (total - count + pad)
        (fun i => if i < total - count then data (start + count + i) else rest) =
      mem.storeRun addr (total + pad) fun i => if i < total then data (start + i) else rest := by
  have all : total + pad = count + (total - count + pad) := by omega
  have first : (mem.storeRun addr count fun i => if i < count then data (start + i) else rest) =
      mem.storeRun addr count fun i => if i < total then data (start + i) else rest :=
    storeRun_congr fun i before => by
      rw [if_pos before, if_pos (Nat.lt_of_lt_of_le before inside)]
  have second : (fun i => if i < total - count then data (start + count + i) else rest) =
      fun i => if count + i < total then data (start + (count + i)) else rest := by
    funext i
    have here : i < total - count ↔ count + i < total := by omega
    simp only [here, Nat.add_assoc]
  rw [all, first, second]
  exact storeRun_append

/-! ## Lanes -/

/-- The bytes that a beat with lanes from that of its address on strobed changes. -/
theorem inLanes_iff (positive : 0 < width) (fits : addr % width + count ≤ width) (i : Nat) :
    i / width = addr / width ∧ addr % width ≤ i % width ∧ i % width < addr % width + count ↔
      addr ≤ i ∧ i < addr + count := by
  have start := Nat.div_add_mod addr width
  have split := Nat.div_add_mod i width
  have lane := Nat.mod_lt i positive
  constructor
  · rintro ⟨same, above, below⟩
    rw [same] at split
    omega
  · rintro ⟨above, below⟩
    have word : i / width = addr / width := by
      apply Nat.div_eq_of_lt_le
      · rw [Nat.mul_comm]
        omega
      · rw [Nat.succ_mul, Nat.mul_comm]
        omega
    rw [word] at split
    exact ⟨word, by omega, by omega⟩

/-- A beat with the lanes from that of its address on strobed stores a run. -/
theorem writeBeat_eq_storeRun (positive : 0 < width) (fits : addr % width + count ≤ width)
    (strobed : ∀ lane < width, strb lane = true ↔ addr % width ≤ lane ∧ lane < addr % width + count)
    (carries : ∀ i < count, data (addr % width + i) = bytes i) :
    mem.writeBeat width addr data strb = mem.storeRun addr count bytes := by
  funext i
  have inside := inLanes_iff positive fits i
  rw [← strobed _ (Nat.mod_lt i positive)] at inside
  simp only [writeBeat, storeRun, inside]
  split
  next here =>
    have start := Nat.div_add_mod addr width
    have split := Nat.div_add_mod i width
    rw [(inside.mpr here).1] at split
    have offset : i % width = addr % width + (i - addr) := by omega
    rw [offset, carries _ (by omega)]
  next => rfl

/-- At an address on the first lane, a beat stores the first bytes of its data. -/
theorem writeBeat_eq_storeBytes (positive : 0 < width) (aligned : addr % width = 0)
    (fits : count ≤ width) (mem : ByteMem) :
    mem.writeBeat width addr (fun n => value.extractLsb' (8 * n) 8) (fun n => decide (n < count)) =
      mem.storeBytes addr count value := by
  show _ = mem.storeRun addr count fun i => value.extractLsb' (8 * i) 8
  refine writeBeat_eq_storeRun positive (by omega) (fun lane _ => ?_) fun i _ => ?_
  · rw [decide_eq_true_iff]
    omega
  · rw [aligned, Nat.zero_add]

end Runs

/-- At any other address it changes a byte below the address. -/
theorem writeBeat_ne_storeBytes (positive : 0 < width) (unaligned : addr % width ≠ 0)
    (some : 0 < count) :
    ∃ mem : ByteMem, mem.writeBeat width addr (fun n => value.extractLsb' (8 * n) 8)
      (fun n => decide (n < count)) ≠ mem.storeBytes addr count value := by
  -- a memory whose bytes all differ from the one on the first lane
  refine ⟨fun _ => value.extractLsb' 0 8 + 1, fun same => ?_⟩
  have below : addr / width * width < addr := by
    have start := Nat.div_add_mod addr width
    rw [Nat.mul_comm] at start
    omega
  have there := congrFun same (addr / width * width)
  have word : addr / width * width / width = addr / width := Nat.mul_div_cancel _ positive
  have outside : ¬(addr ≤ addr / width * width ∧ addr / width * width < addr + count) := by omega
  simp only [writeBeat, storeBytes, word, Nat.mul_mod_left, decide_eq_true_eq, some, and_self,
    if_true, Nat.mul_zero, if_neg outside] at there
  bv_omega

/-- The addresses at which a beat with the first lanes strobed stores its bytes where it says. -/
theorem writeBeat_exact_iff (positive : 0 < width) (some : 0 < count) (fits : count ≤ width) :
    (∀ mem : ByteMem, mem.writeBeat width addr (fun n => value.extractLsb' (8 * n) 8)
      (fun n => decide (n < count)) = mem.storeBytes addr count value) ↔ addr % width = 0 := by
  constructor
  · intro exact_
    by_contra unaligned
    obtain ⟨mem, differs⟩ := writeBeat_ne_storeBytes positive unaligned some
    exact differs (exact_ mem)
  · exact fun aligned mem => writeBeat_eq_storeBytes positive aligned fits mem

end ByteMem

end Pspin.Clocked
