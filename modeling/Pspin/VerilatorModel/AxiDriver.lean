import Mathlib.Algebra.BigOperators.Group.Finset.Basic
import Mathlib.Algebra.BigOperators.Intervals
import Pspin.Clocked.Tiling

/-! # Bursts

`create_ax_beats` of `AXIDriver.hpp` splits a transfer into bursts that stay in one page of 4 KiB.
A transfer that fits one line of the bus is a single beat, of the smallest size that holds it;
any other burst uses beats of the whole bus.

Addresses are numbers.  A transfer ends inside the address space, so that only the address behind
its last byte can wrap around, and of that the source only takes differences.
-/

namespace Pspin

open Clocked

/-- `AXI_SW`, the bytes of the bus -/
def axiSw : Nat := 64

/-- `axi_ax_beat_t`, of which the other fields are the same for all bursts. -/
structure AxBeat where
  axAddr : Nat
  axLen : Nat
  axSize : Nat
deriving DecidableEq

/-- `beat_and_size_t` -/
structure BeatAndSize where
  beat : AxBeat
  nBytes : Nat
deriving DecidableEq

def axiNumBytes (size : Nat) : Nat := 2 ^ size

def axiAlignedAddress (addr size : Nat) : Nat := addr / axiNumBytes size * axiNumBytes size

def beatAddr (ax : AxBeat) (iBeat : Nat) : Nat :=
  if iBeat = 0 then ax.axAddr else axiAlignedAddress ax.axAddr ax.axSize + iBeat * 2 ^ ax.axSize

def beatLowerByte (ax : AxBeat) (iBeat : Nat) : Nat :=
  beatAddr ax iBeat - beatAddr ax iBeat / axiSw * axiSw

def beatUpperByte (ax : AxBeat) (iBeat nBytes : Nat) : Nat :=
  if iBeat = 0 then axiAlignedAddress ax.axAddr ax.axSize + 2 ^ ax.axSize - ax.axAddr / axiSw * axiSw
  else if iBeat = ax.axLen then
    nBytes - (axiSw - beatLowerByte ax 0) - (ax.axLen - 1) * axiSw
  else beatLowerByte ax iBeat + 2 ^ ax.axSize

def pageNum (addr : Nat) : Nat := addr / 2 ^ 12

/-- The loop that looks for the size of a single beat, which fails if its assertion does. -/
def growSize (addr nBytes : Nat) : Nat → Nat → Option Nat
  | 0, _ => none
  | turns + 1, axSize =>
    if beatUpperByte ⟨addr, 0, axSize⟩ 0 nBytes - beatLowerByte ⟨addr, 0, axSize⟩ 0 < nBytes then
      if axSize < Nat.log2 axiSw then growSize addr nBytes turns (axSize + 1) else none
    else some axSize

/-- The size of the beats. -/
def chooseSize (addr nBytes : Nat) : Option Nat :=
  if nBytes > axiSw ∨ addr / axiSw ≠ (addr + nBytes - 1) / axiSw then some (Nat.log2 axiSw)
  else growSize addr nBytes (Nat.log2 axiSw + 1) (Nat.log2 nBytes)

/-- `create_ax_beats`, with a number of turns for its loop and for its calls of itself. -/
def createAxBeats : Nat → Nat → Nat → Option (List BeatAndSize)
  | 0, _, _ => none
  | turns + 1, addr, nBytes =>
    if nBytes = 0 then some []
    else do
      let axSize ← chooseSize addr nBytes
      let room := axiSw - addr % axiSw
      let bytesInFirstBeat := if nBytes ≤ room then nBytes else room
      let nBeats := if nBytes ≤ room then 1 else 1 + (nBytes - room + axiSw - 1) / axiSw
      let bytesInLastBeat := nBytes - bytesInFirstBeat - axiSw * (nBeats - 2)
      if pageNum addr ≠ pageNum (addr + nBytes - 1) then
        let bytesInBurst := 4096 - addr % 4096
        let burst ← createAxBeats turns addr bytesInBurst
        let rest ← createAxBeats turns (addr + bytesInBurst) (nBytes - bytesInBurst)
        some (burst ++ rest)
      else
        let bytesInLastBeat := if nBeats > 256 then axiSw else bytesInLastBeat
        let nBeats := if nBeats > 256 then 256 else nBeats
        let bytesInBurst :=
          if nBeats > 1 then bytesInFirstBeat + ((nBeats - 2) * axiSw + bytesInLastBeat)
          else bytesInFirstBeat
        let rest ← createAxBeats turns (addr + bytesInBurst) (nBytes - bytesInBurst)
        some (⟨⟨addr, nBeats - 1, axSize⟩, bytesInBurst⟩ :: rest)

/-! ## One burst for a page -/

/-- The bytes of a transfer that are in the page of its first byte. -/
def bytesInPage (addr nBytes : Nat) : Nat := min nBytes (4096 - addr % 4096)

/-- The burst of a transfer that stays in its page. -/
def pageBurst (addr nBytes : Nat) : BeatAndSize :=
  ⟨⟨addr, (addr % axiSw + nBytes - 1) / axiSw, (chooseSize addr nBytes).getD 0⟩, nBytes⟩

/-- A burst for every page that a transfer meets. -/
def axBursts (addr nBytes : Nat) : List BeatAndSize :=
  if nBytes = 0 then []
  else pageBurst addr (bytesInPage addr nBytes) ::
    axBursts (addr + bytesInPage addr nBytes) (nBytes - bytesInPage addr nBytes)
termination_by nBytes
decreasing_by
  unfold bytesInPage
  omega

/-- A single beat of a size holds the bytes. -/
def SizeHolds (addr nBytes axSize : Nat) : Prop :=
  addr + nBytes ≤ axiAlignedAddress addr axSize + 2 ^ axSize

instance (addr nBytes axSize : Nat) : Decidable (SizeHolds addr nBytes axSize) :=
  inferInstanceAs (Decidable (_ ≤ _))

/-- The end of the lanes that a beat can use. -/
def axiLaneEnd (ax : AxBeat) (iBeat : Nat) : Nat :=
  axiAlignedAddress (beatAddr ax iBeat) ax.axSize + 2 ^ ax.axSize -
    beatAddr ax iBeat / axiSw * axiSw

namespace BeatAndSize

/-- The bytes of a burst. -/
def region (bs : BeatAndSize) : Region := ⟨bs.beat.axAddr, bs.nBytes⟩

def lower (bs : BeatAndSize) (iBeat : Nat) : Nat := beatLowerByte bs.beat iBeat

def upper (bs : BeatAndSize) (iBeat : Nat) : Nat := beatUpperByte bs.beat iBeat bs.nBytes

/-- A burst that keeps to the rules of the bus: it stays in its page, is not too long, every beat
    has bytes on lanes of its own, they hold all bytes, and only a single beat is narrow. -/
structure Legal (bs : BeatAndSize) : Prop where
  positive : 0 < bs.nBytes
  page : pageNum bs.beat.axAddr = pageNum (bs.beat.axAddr + bs.nBytes - 1)
  beats : bs.beat.axLen + 1 ≤ 256
  lanes : ∀ i ≤ bs.beat.axLen, bs.lower i < bs.upper i ∧ bs.upper i ≤ axiLaneEnd bs.beat i ∧
    axiLaneEnd bs.beat i ≤ axiSw
  counts : bs.nBytes ≤ ∑ i ∈ Finset.range (bs.beat.axLen + 1), (bs.upper i - bs.lower i)
  wide : 0 < bs.beat.axLen → axiNumBytes bs.beat.axSize = axiSw

end BeatAndSize

section Sizes

variable {addr nBytes axSize turns : Nat}

theorem log2_axiSw : Nat.log2 axiSw = 6 := by decide

theorem axiAlignedAddress_le (addr axSize : Nat) : axiAlignedAddress addr axSize ≤ addr :=
  Nat.div_mul_le_self addr _

/-- A beat is in one line of the bus. -/
theorem line_le_aligned (small : axSize ≤ 6) :
    addr / axiSw * axiSw ≤ axiAlignedAddress addr axSize := by
  have whole : axiSw = 2 ^ (6 - axSize) * 2 ^ axSize := by
    rw [← Nat.pow_add, Nat.sub_add_cancel small]
    rfl
  have below : addr / axiSw * 2 ^ (6 - axSize) ≤ addr / 2 ^ axSize := by
    rw [Nat.le_div_iff_mul_le (Nat.two_pow_pos axSize), Nat.mul_assoc, ← whole]
    exact Nat.div_mul_le_self addr axiSw
  calc addr / axiSw * axiSw = addr / axiSw * 2 ^ (6 - axSize) * 2 ^ axSize := by
        rw [Nat.mul_assoc, ← whole]
    _ ≤ addr / 2 ^ axSize * 2 ^ axSize := Nat.mul_le_mul_right _ below

theorem aligned_le_line (small : axSize ≤ 6) :
    axiAlignedAddress addr axSize + 2 ^ axSize ≤ addr / axiSw * axiSw + axiSw := by
  have whole : axiSw = 2 ^ (6 - axSize) * 2 ^ axSize := by
    rw [← Nat.pow_add, Nat.sub_add_cancel small]
    rfl
  have below : addr / 2 ^ axSize + 1 ≤ (addr / axiSw + 1) * 2 ^ (6 - axSize) := by
    rw [Nat.succ_le_iff, Nat.div_lt_iff_lt_mul (Nat.two_pow_pos axSize), Nat.mul_assoc, ← whole,
      Nat.add_mul, Nat.one_mul]
    exact Nat.lt_div_mul_add (show 0 < axiSw by decide)
  calc axiAlignedAddress addr axSize + 2 ^ axSize = (addr / 2 ^ axSize + 1) * 2 ^ axSize := by
        rw [Nat.add_mul, Nat.one_mul]
        rfl
    _ ≤ (addr / axiSw + 1) * 2 ^ (6 - axSize) * 2 ^ axSize := Nat.mul_le_mul_right _ below
    _ = addr / axiSw * axiSw + axiSw := by
        rw [Nat.mul_assoc, ← whole, Nat.add_mul, Nat.one_mul]

theorem lane_bounds (small : axSize ≤ 6) :
    beatUpperByte ⟨addr, 0, axSize⟩ 0 nBytes - beatLowerByte ⟨addr, 0, axSize⟩ 0 =
      axiAlignedAddress addr axSize + 2 ^ axSize - addr := by
  have line : addr / axiSw * axiSw ≤ axiAlignedAddress addr axSize := line_le_aligned small
  have aligned := axiAlignedAddress_le addr axSize
  simp only [beatUpperByte, beatLowerByte, beatAddr, if_true]
  omega

/-- The loop stops at the first size that holds the bytes. -/
theorem growSize_eq (holds : SizeHolds addr nBytes 6) (small : axSize ≤ 6)
    (enough : 6 < turns + axSize) : ∃ size, growSize addr nBytes turns axSize = some size ∧
      axSize ≤ size ∧ size ≤ 6 ∧ SizeHolds addr nBytes size ∧
      ∀ other, axSize ≤ other → other < size → ¬SizeHolds addr nBytes other := by
  induction turns generalizing axSize with
  | zero => omega
  | succ turns inductionHypothesis =>
    have lanes : beatUpperByte ⟨addr, 0, axSize⟩ 0 nBytes - beatLowerByte ⟨addr, 0, axSize⟩ 0 =
        axiAlignedAddress addr axSize + 2 ^ axSize - addr := lane_bounds small
    have fits : beatUpperByte ⟨addr, 0, axSize⟩ 0 nBytes - beatLowerByte ⟨addr, 0, axSize⟩ 0 <
        nBytes ↔ ¬SizeHolds addr nBytes axSize := by
      have behind : addr < axiAlignedAddress addr axSize + 2 ^ axSize := by
        exact Nat.lt_div_mul_add (Nat.two_pow_pos axSize)
      rw [lanes, SizeHolds]
      omega
    rw [growSize]
    by_cases here : SizeHolds addr nBytes axSize
    · refine ⟨axSize, by rw [if_neg (by rw [fits]; exact not_not.mpr here)], le_rfl, small, here, ?_⟩
      intro other above below
      omega
    · have less : axSize < 6 := by
        by_contra big
        obtain rfl : axSize = 6 := by omega
        exact here holds
      obtain ⟨size, grown, above, below, sizeHolds, least⟩ :=
        inductionHypothesis less (show 6 < turns + (axSize + 1) by omega)
      refine ⟨size, ?_, by omega, below, sizeHolds, fun other least' less' => ?_⟩
      · rw [if_pos (fits.mpr here), log2_axiSw, if_pos less]
        exact grown
      · by_cases same : other = axSize
        · rw [same]
          exact here
        · exact least other (by omega) less'

/-- The bytes are in one line of the bus. -/
theorem sizeHolds_iff_line : SizeHolds addr nBytes 6 ↔ addr % axiSw + nBytes ≤ axiSw := by
  have split := Nat.div_add_mod addr axiSw
  show addr + nBytes ≤ addr / axiSw * axiSw + axiSw ↔ _
  rw [Nat.mul_comm]
  omega

/-- A single beat has the first size that holds the bytes, from that of their number on. -/
structure NarrowSize (addr nBytes size : Nat) : Prop where
  above : Nat.log2 nBytes ≤ size
  small : size ≤ 6
  holds : SizeHolds addr nBytes size
  least : ∀ other, Nat.log2 nBytes ≤ other → other < size → ¬SizeHolds addr nBytes other

theorem chooseSize_narrow (positive : 0 < nBytes) (line : addr % axiSw + nBytes ≤ axiSw) :
    ∃ size, chooseSize addr nBytes = some size ∧ NarrowSize addr nBytes size := by
  have oneLine : ¬(nBytes > axiSw ∨ addr / axiSw ≠ (addr + nBytes - 1) / axiSw) := by
    unfold axiSw at *
    omega
  have few : Nat.log2 nBytes ≤ 6 := by
    have bound : nBytes < 2 ^ 7 := by
      unfold axiSw at line
      omega
    exact Nat.le_of_lt_succ ((Nat.log2_lt positive.ne').mpr bound)
  obtain ⟨size, grown, above, small, holds, least⟩ :=
    growSize_eq (sizeHolds_iff_line.mpr line) few (show 6 < 7 + Nat.log2 nBytes by omega)
  exact ⟨size, by rw [chooseSize, if_neg oneLine]; exact grown, above, small, holds, least⟩

theorem chooseSize_wide (lines : axiSw < addr % axiSw + nBytes) :
    chooseSize addr nBytes = some 6 := by
  have several : nBytes > axiSw ∨ addr / axiSw ≠ (addr + nBytes - 1) / axiSw := by
    unfold axiSw at *
    omega
  rw [chooseSize, if_pos several, log2_axiSw]

theorem chooseSize_isSome (positive : 0 < nBytes) :
    chooseSize addr nBytes = some ((chooseSize addr nBytes).getD 0) := by
  by_cases line : addr % axiSw + nBytes ≤ axiSw
  · obtain ⟨size, chosen, -⟩ := chooseSize_narrow positive line
    rw [chosen, Option.getD_some]
  · rw [chooseSize_wide (by omega), Option.getD_some]

end Sizes

/-! ## The bursts that are made -/

section Bursts

variable {addr nBytes turns : Nat}

theorem pageNum_eq_iff (positive : 0 < nBytes) :
    pageNum addr = pageNum (addr + nBytes - 1) ↔ addr % 4096 + nBytes ≤ 4096 := by
  simp only [pageNum]
  omega

theorem axBursts_zero (addr : Nat) : axBursts addr 0 = [] := by
  rw [axBursts, if_pos rfl]

theorem axBursts_page (positive : 0 < nBytes) (page : addr % 4096 + nBytes ≤ 4096) :
    axBursts addr nBytes = [pageBurst addr nBytes] := by
  have whole : bytesInPage addr nBytes = nBytes := by
    unfold bytesInPage
    omega
  rw [axBursts, if_neg positive.ne', whole, Nat.sub_self, axBursts_zero]

/-- Within a page the loop makes one burst of all bytes, well below 256 beats. -/
theorem createAxBeats_page (positive : 0 < nBytes) (page : addr % 4096 + nBytes ≤ 4096)
    (enough : 0 < turns) : createAxBeats (turns + 1) addr nBytes = some [pageBurst addr nBytes] := by
  obtain ⟨turns, rfl⟩ : ∃ more, turns = more + 1 := ⟨turns - 1, by omega⟩
  have samePage : ¬pageNum addr ≠ pageNum (addr + nBytes - 1) :=
    not_not.mpr ((pageNum_eq_iff positive).mpr page)
  rw [createAxBeats, if_neg positive.ne', chooseSize_isSome positive]
  simp only [Option.bind_eq_bind, Option.bind_some, if_neg samePage]
  -- the next turn of the loop finds nothing left
  have done : ∀ bytes, bytes = nBytes → createAxBeats (turns + 1) (addr + bytes) (nBytes - bytes) =
      some [] := by
    rintro bytes rfl
    rw [Nat.sub_self, createAxBeats, if_pos rfl]
  -- in the source the beats behind the first and the last one are counted apart
  by_cases oneBeat : nBytes ≤ axiSw - addr % axiSw
  · have single : (addr % axiSw + nBytes - 1) / axiSw = 0 := by
      unfold axiSw at *
      omega
    have few : ¬1 > 256 := by decide
    simp only [if_pos oneBeat, if_neg few, if_neg (Nat.lt_irrefl 1)]
    rw [done nBytes rfl, Option.bind_some, pageBurst, single]
  · have beats : 1 + (nBytes - (axiSw - addr % axiSw) + axiSw - 1) / axiSw - 1 =
        (addr % axiSw + nBytes - 1) / axiSw := by
      unfold axiSw at *
      omega
    have few : ¬1 + (nBytes - (axiSw - addr % axiSw) + axiSw - 1) / axiSw > 256 := by
      unfold axiSw at *
      omega
    have many : 1 + (nBytes - (axiSw - addr % axiSw) + axiSw - 1) / axiSw > 1 := by
      unfold axiSw at *
      omega
    have all : axiSw - addr % axiSw + ((1 + (nBytes - (axiSw - addr % axiSw) + axiSw - 1) / axiSw - 2)
        * axiSw + (nBytes - (axiSw - addr % axiSw) - axiSw *
          (1 + (nBytes - (axiSw - addr % axiSw) + axiSw - 1) / axiSw - 2))) = nBytes := by
      unfold axiSw at *
      omega
    simp only [if_neg oneBeat, if_neg few, if_pos many]
    rw [done _ all, Option.bind_some, all, beats, pageBurst]

theorem axBursts_cross (cross : 4096 < addr % 4096 + nBytes) : axBursts addr nBytes =
    pageBurst addr (4096 - addr % 4096) ::
      axBursts (addr + (4096 - addr % 4096)) (nBytes - (4096 - addr % 4096)) := by
  have inPage : bytesInPage addr nBytes = 4096 - addr % 4096 := by
    unfold bytesInPage
    omega
  rw [axBursts, if_neg (by omega), inPage]

/-- With enough turns the loop and its calls of itself make one burst for every page. -/
theorem createAxBeats_eq (enough : nBytes < turns) :
    createAxBeats turns addr nBytes = some (axBursts addr nBytes) := by
  induction turns generalizing addr nBytes with
  | zero => omega
  | succ turns inductionHypothesis =>
    by_cases none_ : nBytes = 0
    · subst none_
      rw [createAxBeats, if_pos rfl, axBursts_zero]
    · have positive : 0 < nBytes := Nat.pos_of_ne_zero none_
      by_cases page : addr % 4096 + nBytes ≤ 4096
      · rw [createAxBeats_page positive page (by omega), axBursts_page positive page]
      · have cross : pageNum addr ≠ pageNum (addr + nBytes - 1) := by
          rw [Ne, pageNum_eq_iff positive]
          exact page
        rw [createAxBeats, if_neg none_, chooseSize_isSome positive]
        simp only [Option.bind_eq_bind, Option.bind_some, if_pos cross]
        have crossing : 4096 < addr % 4096 + nBytes := Nat.not_le.mp page
        have within : 0 < 4096 - addr % 4096 := by omega
        rw [inductionHypothesis (by omega), inductionHypothesis (by omega), Option.bind_some,
          Option.bind_some, axBursts_cross crossing, axBursts_page within (by omega)]
        rfl

/-! ## The lanes of a burst -/

/-- A single beat holds the bytes on lanes of one line. -/
theorem pageBurst_narrow (positive : 0 < nBytes) (line : addr % axiSw + nBytes ≤ axiSw) :
    ∃ size, NarrowSize addr nBytes size ∧ pageBurst addr nBytes = ⟨⟨addr, 0, size⟩, nBytes⟩ := by
  obtain ⟨size, chosen, narrow⟩ := chooseSize_narrow positive line
  have single : (addr % axiSw + nBytes - 1) / axiSw = 0 := by
    unfold axiSw at *
    omega
  exact ⟨size, narrow, by rw [pageBurst, single, chosen, Option.getD_some]⟩

/-- Any other burst has beats of the whole bus, one for every line. -/
theorem pageBurst_wide (lines : axiSw < addr % axiSw + nBytes) :
    pageBurst addr nBytes = ⟨⟨addr, (addr % axiSw + nBytes - 1) / axiSw, 6⟩, nBytes⟩ := by
  rw [pageBurst, chooseSize_wide lines, Option.getD_some]

section Lanes

variable {axLen i : Nat}

/-- The first lane of a beat of the whole bus. -/
theorem wide_lower : beatLowerByte ⟨addr, axLen, 6⟩ i = if i = 0 then addr % axiSw else 0 := by
  have split := Nat.div_add_mod addr axiSw
  rw [Nat.mul_comm] at split
  rw [beatLowerByte, beatAddr]
  split
  next =>
    show addr - addr / axiSw * axiSw = addr % axiSw
    omega
  next =>
    show addr / axiSw * axiSw + i * axiSw - (addr / axiSw * axiSw + i * axiSw) / axiSw * axiSw = 0
    rw [← Nat.add_mul, Nat.mul_div_cancel _ (show 0 < axiSw by decide), Nat.sub_self]

/-- The end of its lanes: that of the bus but for the last beat. -/
theorem wide_upper : beatUpperByte ⟨addr, axLen, 6⟩ i nBytes =
    if i = 0 then axiSw else if i = axLen then
      addr % axiSw + nBytes - axLen * axiSw else axiSw := by
  rw [beatUpperByte]
  split
  next =>
    show addr / axiSw * axiSw + axiSw - addr / axiSw * axiSw = axiSw
    rw [Nat.add_sub_cancel_left]
  next other =>
    have lane := Nat.mod_lt addr (show 0 < axiSw by decide)
    split
    next last =>
      have last : i = axLen := last
      obtain ⟨before, rfl⟩ : ∃ before, axLen = before + 1 := ⟨axLen - 1, by omega⟩
      rw [wide_lower, if_pos rfl]
      show nBytes - (axiSw - addr % axiSw) - (before + 1 - 1) * axiSw = _
      rw [Nat.add_sub_cancel, Nat.add_mul, Nat.one_mul]
      omega
    next =>
      rw [wide_lower, if_neg other]
      rfl

theorem wide_laneEnd : axiLaneEnd ⟨addr, axLen, 6⟩ i = axiSw := by
  show beatAddr ⟨addr, axLen, 6⟩ i / axiSw * axiSw + axiSw -
    beatAddr ⟨addr, axLen, 6⟩ i / axiSw * axiSw = axiSw
  rw [Nat.add_sub_cancel_left]

/-- The lanes of the beats up to one that is not the last, and of all of them. -/
theorem wide_sum (lines : axLen * axiSw < addr % axiSw + nBytes) (several : 0 < axLen) :
    ∑ i ∈ Finset.range (axLen + 1), (beatUpperByte ⟨addr, axLen, 6⟩ i nBytes -
      beatLowerByte ⟨addr, axLen, 6⟩ i) = nBytes := by
  have lane := Nat.mod_lt addr (show 0 < axiSw by decide)
  have prefix_ : ∀ count, 0 < count → count ≤ axLen → ∑ i ∈ Finset.range count,
      (beatUpperByte ⟨addr, axLen, 6⟩ i nBytes - beatLowerByte ⟨addr, axLen, 6⟩ i) =
        count * axiSw - addr % axiSw := by
    intro count some_ inside
    induction count with
    | zero => omega
    | succ count inductionHypothesis =>
      rw [Finset.sum_range_succ, wide_upper, wide_lower]
      cases count with
      | zero => simp
      | succ count =>
        rw [inductionHypothesis (by omega) (by omega), if_neg (by omega), if_neg (by omega),
          if_neg (by omega), Nat.add_mul (count + 1), Nat.one_mul]
        have whole : axiSw ≤ (count + 1) * axiSw := Nat.le_mul_of_pos_left _ (by omega)
        omega
  have whole : axiSw ≤ axLen * axiSw := Nat.le_mul_of_pos_left _ several
  rw [Finset.sum_range_succ, prefix_ axLen several le_rfl, wide_upper, wide_lower,
    if_neg several.ne', if_pos rfl, if_neg several.ne']
  omega

end Lanes

theorem pageBurst_legal (positive : 0 < nBytes) (page : addr % 4096 + nBytes ≤ 4096) :
    (pageBurst addr nBytes).Legal := by
  have samePage := (pageNum_eq_iff positive).mpr page
  -- one narrow beat, or wide beats over several lines
  by_cases line : addr % axiSw + nBytes ≤ axiSw
  · obtain ⟨size, narrow, same⟩ := pageBurst_narrow positive line
    rw [same]
    have holds := narrow.holds
    have lanes : beatUpperByte ⟨addr, 0, size⟩ 0 nBytes - beatLowerByte ⟨addr, 0, size⟩ 0 =
        axiAlignedAddress addr size + 2 ^ size - addr := lane_bounds narrow.small
    have within : axiLaneEnd ⟨addr, 0, size⟩ 0 ≤ axiSw := by
      have : axiAlignedAddress addr size + 2 ^ size ≤ addr / axiSw * axiSw + axiSw :=
        aligned_le_line narrow.small
      show axiAlignedAddress addr size + 2 ^ size - addr / axiSw * axiSw ≤ axiSw
      omega
    unfold SizeHolds at holds
    refine ⟨positive, samePage, by show 1 ≤ 256; decide, fun i first => ?_, ?_, fun several => ?_⟩
    · obtain rfl : i = 0 := Nat.le_zero.mp first
      refine ⟨?_, le_rfl, within⟩
      show beatLowerByte ⟨addr, 0, size⟩ 0 < beatUpperByte ⟨addr, 0, size⟩ 0 nBytes
      omega
    · show nBytes ≤ ∑ i ∈ Finset.range 1, (beatUpperByte ⟨addr, 0, size⟩ i nBytes -
        beatLowerByte ⟨addr, 0, size⟩ i)
      rw [Finset.sum_range_one, lanes]
      omega
    · exact absurd several (Nat.lt_irrefl 0)
  · have lines : axiSw < addr % axiSw + nBytes := Nat.not_le.mp line
    have lane := Nat.mod_lt addr (show 0 < axiSw by decide)
    rw [pageBurst_wide lines]
    generalize count : (addr % axiSw + nBytes - 1) / axiSw = axLen
    have several : 0 < axLen := by
      unfold axiSw at *
      omega
    have beyond : axLen * axiSw < addr % axiSw + nBytes ∧
        addr % axiSw + nBytes ≤ axLen * axiSw + axiSw := by
      unfold axiSw at *
      omega
    refine ⟨positive, samePage, ?_, fun i inside => ?_, ?_, fun _ => rfl⟩
    · show axLen + 1 ≤ 256
      unfold axiSw at *
      omega
    · show beatLowerByte ⟨addr, axLen, 6⟩ i < beatUpperByte ⟨addr, axLen, 6⟩ i nBytes ∧
        beatUpperByte ⟨addr, axLen, 6⟩ i nBytes ≤ axiLaneEnd ⟨addr, axLen, 6⟩ i ∧
          axiLaneEnd ⟨addr, axLen, 6⟩ i ≤ axiSw
      rw [wide_lower, wide_upper, wide_laneEnd]
      refine ⟨?_, ?_, le_rfl⟩
      · split
        · exact lane
        · split <;> omega
      · split
        · exact le_rfl
        · split <;> omega
    · exact Nat.le_of_eq (wide_sum beyond.1 several).symm

/-! ## All bursts -/

/-- The bursts of a transfer follow one another, and each is that of the bytes of one page. -/
theorem axBursts_tiles (addr nBytes : Nat) :
    Tiles addr ((axBursts addr nBytes).map BeatAndSize.region) (addr + nBytes) := by
  induction addr, nBytes using axBursts.induct with
  | case1 addr =>
    rw [axBursts_zero]
    rfl
  | case2 addr nBytes some_ inductionHypothesis =>
    have inside : bytesInPage addr nBytes ≤ nBytes := Nat.min_le_left _ _
    rw [axBursts, if_neg some_, List.map_cons]
    refine ⟨rfl, ?_⟩
    have ends : addr + bytesInPage addr nBytes + (nBytes - bytesInPage addr nBytes) =
        addr + nBytes := by omega
    rw [ends] at inductionHypothesis
    exact inductionHypothesis

theorem axBursts_legal (addr nBytes : Nat) : ∀ bs ∈ axBursts addr nBytes, bs.Legal := by
  induction addr, nBytes using axBursts.induct with
  | case1 addr =>
    rw [axBursts_zero]
    exact fun bs member => absurd member List.not_mem_nil
  | case2 addr nBytes some_ inductionHypothesis =>
    rw [axBursts, if_neg some_, List.forall_mem_cons]
    refine ⟨pageBurst_legal ?_ ?_, inductionHypothesis⟩ <;> unfold bytesInPage <;> omega

end Bursts

/-- A transfer is split into bursts that follow one another from its first byte to its last one
    and keep to the rules of the bus, and the loop and the calls of itself end. -/
theorem createAxBeats_splits (addr nBytes : Nat) : ∃ bursts,
    (∀ turns, nBytes < turns → createAxBeats turns addr nBytes = some bursts) ∧
      Tiles addr (bursts.map BeatAndSize.region) (addr + nBytes) ∧
        ∀ bs ∈ bursts, bs.Legal :=
  ⟨axBursts addr nBytes, fun _ enough => createAxBeats_eq enough, axBursts_tiles addr nBytes,
    axBursts_legal addr nBytes⟩

example : createAxBeats 200 4090 80 =
    some [⟨⟨4090, 0, 3⟩, 6⟩, ⟨⟨4096, 1, 6⟩, 74⟩] := by decide +kernel

end Pspin
