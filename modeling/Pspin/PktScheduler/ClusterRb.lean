import Pspin.Config
import Pspin.CommonCells.Lzc

/-! # `cluster_rb` and `cluster_rb_shim`

The L1 packet buffer is divided into `NumRB` ring buffers of slots.  A bitmap says
which slots are in use; allocations are contiguous and made at the tail, frees
come in any order, and the head moves over free slots.  The shim offers the most
any ring can take and sends a request to the first ring with that much space.
-/

namespace Pspin

open Clocked

def pktBuffMemSlotSize : Nat := 64
def numRB : Nat := 4

/-- A ring of `NumSlots` slots with pointers of some width. -/
structure ClusterRb (slots ptrBits : Nat) where
  bitmapQ : Nat → Bool
  headPtrQ : Nat
  tailPtrQ : Nat

structure ClusterRbIn where
  allocValidI : Bool
  allocSizeI : Nat
  freeValidI : Bool
  freeIndexI : Nat
  freeSizeI : Nat

/-- Width of a `slot_ptr_t`, which is `[-1:0]` for one slot. -/
def slotPtrBits (slots : Nat) : Nat := if slots = 1 then 2 else clog2 slots

/-- Width of a `slot_size_t`. -/
def slotSizeBits (slots : Nat) : Nat := clog2 slots + 1

/-- Width of an `elem_size_t`, a size in bytes up to and including the length of the ring. -/
def rbSizeWidth (slots : Nat) : Nat := clog2 (slots * pktBuffMemSlotSize) + 1

namespace ClusterRb

variable {slots ptrBits : Nat}

def reset : ClusterRb slots ptrBits where
  bitmapQ := fun _ => false
  headPtrQ := 0
  tailPtrQ := 0

/-- Slots of a size in bytes, as a `slot_size_t`; the ports cut the size to their width. -/
def slotsOf (slots size : Nat) : Nat :=
  truncate (slotSizeBits slots)
    ((truncate (rbSizeWidth slots) size + pktBuffMemSlotSize - 1) / pktBuffMemSlotSize)

variable (rb : ClusterRb slots ptrBits) (inp : ClusterRbIn)

def anySet : Bool := (List.range slots).any rb.bitmapQ

def equalFull : Bool := decide (rb.headPtrQ = rb.tailPtrQ) && rb.anySet

def equalEmpty : Bool := decide (rb.headPtrQ = rb.tailPtrQ) && !rb.anySet

def freeSlotsToEnd : Nat := subtract (slotSizeBits slots) slots rb.tailPtrQ

def freeSlotsToHead : Nat := truncate (slotSizeBits slots) rb.headPtrQ

/-- Number of consecutive slots available. -/
def freeSlots : Nat :=
  if rb.equalFull then 0
  else if rb.headPtrQ ≤ rb.tailPtrQ then
    (if rb.freeSlotsToEnd > rb.freeSlotsToHead then rb.freeSlotsToEnd else rb.freeSlotsToHead)
  else subtract (slotSizeBits slots) rb.headPtrQ rb.tailPtrQ

def freeSpaceO : Nat := rb.freeSlots * pktBuffMemSlotSize

def pushSize (slots : Nat) (inp : ClusterRbIn) : Nat := slotsOf slots inp.allocSizeI

def popSize (slots : Nat) (inp : ClusterRbIn) : Nat := slotsOf slots inp.freeSizeI

def popIdx (ptrBits : Nat) (inp : ClusterRbIn) : Nat :=
  truncate ptrBits (inp.freeIndexI / pktBuffMemSlotSize)

/-- `NumSlots - tail_ptr_q` where it is compared, in the 32 bits of `NumSlots`. -/
def roomToEnd : Nat :=
  if rb.tailPtrQ ≤ slots then slots - rb.tailPtrQ else slots + 2 ^ 32 - rb.tailPtrQ

/-- `data_fits` and `padding` -/
def fit : Bool × Nat :=
  if rb.equalFull then (false, 0)
  else if rb.headPtrQ ≤ rb.tailPtrQ then
    -- room up to the end, else room before the head
    if rb.roomToEnd ≥ pushSize slots inp then (true, 0)
    else if pushSize slots inp < rb.headPtrQ then (true, rb.freeSlotsToEnd)
    else (false, 0)
  else if subtract (max ptrBits (slotSizeBits slots)) rb.tailPtrQ rb.headPtrQ ≥
      pushSize slots inp then (true, 0)
  else (false, 0)

def dataFits : Bool := (rb.fit inp).1

def padding : Nat := (rb.fit inp).2

def pushEn : Bool := rb.dataFits inp && inp.allocValidI

def popEn : Bool := inp.freeValidI

def pushIdx : Nat := truncate ptrBits (rb.tailPtrQ + rb.padding inp)

def allocReadyO : Bool := rb.pushEn inp

def allocIndexO : Nat := rb.pushIdx inp * pktBuffMemSlotSize

def bitmapD (i : Nat) : Bool :=
  Bool.xor (rb.bitmapQ i)
    (rb.pushEn inp && decide (rb.pushIdx inp ≤ i) &&
        decide (i < rb.pushIdx inp + pushSize slots inp) ||
      popEn inp && decide (popIdx ptrBits inp ≤ i) &&
        decide (i < popIdx ptrBits inp + popSize slots inp))

/-! ## Moving the head -/

/-- The bitmap shifted right by the head. -/
def bitmapShifted (k : Nat) : Bool := rb.bitmapQ ((rb.headPtrQ + k) % slots)

def headPtrIncrMax : Nat :=
  if rb.tailPtrQ ≥ rb.headPtrQ then subtract (slotSizeBits slots) rb.tailPtrQ rb.headPtrQ
  else subtract (slotSizeBits slots) (rb.tailPtrQ + slots) rb.headPtrQ

def headPtrIncr : Nat :=
  truncate (slotSizeBits slots) (lzcCnt slots rb.bitmapShifted +
    (lzcEmpty slots rb.bitmapShifted).toNat)

def headPtrIncrReal : Nat :=
  if rb.headPtrIncrMax > rb.headPtrIncr then rb.headPtrIncr else rb.headPtrIncrMax

/-- If everything is quiet and the buffer is empty the pointers go back to zero. -/
def quiet : Bool := !rb.pushEn inp && !popEn inp && rb.equalEmpty

def headPtrD : Nat :=
  if rb.quiet inp then 0 else truncate ptrBits (rb.headPtrQ + rb.headPtrIncrReal)

def tailPtrD : Nat :=
  if rb.quiet inp then 0
  else if rb.pushEn inp then
    truncate ptrBits (rb.tailPtrQ + rb.padding inp + pushSize slots inp)
  else rb.tailPtrQ

/-- One clock edge. -/
def step : ClusterRb slots ptrBits where
  bitmapQ := rb.bitmapD inp
  headPtrQ := rb.headPtrD inp
  tailPtrQ := rb.tailPtrD inp

/-- A size up to the length of the ring is rounded up to slots. -/
theorem slotsOf_eq {size : Nat} (small : size ≤ slots * pktBuffMemSlotSize) :
    slotsOf slots size = (size + 63) / 64 := by
  have widen : ∀ {value count : Nat}, value ≤ count → value < 2 ^ (clog2 count + 1) := by
    intro value count le
    have bound := le_two_pow_clog2 count
    have positive := Nat.two_pow_pos (clog2 count)
    rw [pow_succ]
    omega
  have cut : truncate (rbSizeWidth slots) size = size := truncate_of_lt (widen small)
  rw [slotsOf, cut]
  refine truncate_of_lt (widen ?_)
  rw [pktBuffMemSlotSize] at small ⊢
  omega

/-! ## Pointers into the ring -/

/-- The pointers are no further than the end, so that no difference between them wraps. -/
structure InRing (rb : ClusterRb slots ptrBits) : Prop where
  some : 0 < slots
  head_le : rb.headPtrQ ≤ slots
  tail_le : rb.tailPtrQ ≤ slots

section InRing

variable {rb : ClusterRb slots ptrBits} {inp : ClusterRbIn} (inRing : rb.InRing)
include inRing

theorem fits_slotSize {value : Nat} (small : value ≤ slots) : value < 2 ^ slotSizeBits slots :=
  lt_of_le_of_lt small (lt_two_pow_clog2_succ inRing.some)

theorem freeSlotsToEnd_eq : rb.freeSlotsToEnd = slots - rb.tailPtrQ :=
  subtract_of_le inRing.tail_le (fits_slotSize inRing (Nat.sub_le _ _))

theorem roomToEnd_eq : rb.roomToEnd = slots - rb.tailPtrQ := if_pos inRing.tail_le

theorem freeSlotsToHead_eq : rb.freeSlotsToHead = rb.headPtrQ :=
  truncate_of_lt (fits_slotSize inRing inRing.head_le)

theorem freeSlots_eq : rb.freeSlots =
    if rb.equalFull then 0
    else if rb.headPtrQ ≤ rb.tailPtrQ then
      (if slots - rb.tailPtrQ > rb.headPtrQ then slots - rb.tailPtrQ else rb.headPtrQ)
    else rb.headPtrQ - rb.tailPtrQ := by
  have head := inRing.head_le
  rw [freeSlots, freeSlotsToEnd_eq inRing, freeSlotsToHead_eq inRing]
  by_cases before : rb.headPtrQ ≤ rb.tailPtrQ
  · rw [if_pos before, if_pos before]
  · rw [if_neg before, if_neg before,
      subtract_of_le (by omega) (fits_slotSize inRing (by omega))]

theorem freeSpaceO_le : rb.freeSpaceO ≤ slots * pktBuffMemSlotSize := by
  have head := inRing.head_le
  apply Nat.mul_le_mul_right
  rw [freeSlots_eq inRing]
  split_ifs <;> omega

theorem fit_eq : rb.fit inp =
    if rb.equalFull then (false, 0)
    else if rb.headPtrQ ≤ rb.tailPtrQ then
      (if slots - rb.tailPtrQ ≥ pushSize slots inp then (true, 0)
        else if pushSize slots inp < rb.headPtrQ then (true, slots - rb.tailPtrQ) else (false, 0))
    else if subtract (max ptrBits (slotSizeBits slots)) rb.tailPtrQ rb.headPtrQ ≥
      pushSize slots inp then (true, 0) else (false, 0) := by
  rw [fit, roomToEnd_eq inRing, freeSlotsToEnd_eq inRing]

theorem headPtrIncrMax_eq : rb.headPtrIncrMax =
    if rb.tailPtrQ ≥ rb.headPtrQ then rb.tailPtrQ - rb.headPtrQ
    else rb.tailPtrQ + slots - rb.headPtrQ := by
  have head := inRing.head_le
  have tail := inRing.tail_le
  rw [headPtrIncrMax]
  by_cases after : rb.tailPtrQ ≥ rb.headPtrQ
  · rw [if_pos after, if_pos after, subtract_of_le after (fits_slotSize inRing (by omega))]
  · rw [if_neg after, if_neg after,
      subtract_of_le (by omega) (fits_slotSize inRing (by omega))]

end InRing

end ClusterRb

/-! ## `cluster_rb_shim` -/

/-- `NumSlots` of rings whose pointers wrap where they end. -/
def numSlots (slotBits : Nat) : Nat := 2 ^ slotBits

/-- `BuffMemLength` of one ring. -/
def rbMemLength (slotBits : Nat) : Nat := numSlots slotBits * pktBuffMemSlotSize

structure ClusterRbShim (slotBits : Nat) where
  rb : Fin numRB → ClusterRb (numSlots slotBits) slotBits

namespace ClusterRbShim

variable {slotBits : Nat}

def reset : ClusterRbShim slotBits where
  rb := fun _ => ClusterRb.reset

variable (shim : ClusterRbShim slotBits) (inp : ClusterRbIn)

def rbFreeSpace (i : Fin numRB) : Nat := (shim.rb i).freeSpaceO

def rbWithSpace (i : Nat) : Bool :=
  if inside : i < numRB then decide (shim.rbFreeSpace ⟨i, inside⟩ ≥ inp.allocSizeI) else false

instance : NeZero numRB := ⟨by decide⟩

def selRbIdx : Fin numRB := Fin.ofNat numRB (lzcCnt numRB (shim.rbWithSpace inp))

/-- The most any ring has to offer. -/
def freeSpaceO : Nat :=
  (List.finRange numRB).foldl (fun most i => if most ≥ shim.rbFreeSpace i then most
    else shim.rbFreeSpace i) (shim.rbFreeSpace 0)

def rbIn (i : Fin numRB) : ClusterRbIn where
  allocValidI := decide (i = shim.selRbIdx inp) && inp.allocValidI
  allocSizeI := inp.allocSizeI
  freeValidI := inp.freeValidI && decide (inp.freeIndexI / rbMemLength slotBits = i)
  freeIndexI := inp.freeIndexI % rbMemLength slotBits
  freeSizeI := inp.freeSizeI

def allocReadyO : Bool :=
  (shim.rb (shim.selRbIdx inp)).allocReadyO (shim.rbIn inp (shim.selRbIdx inp))

def allocIndexO : Nat :=
  shim.selRbIdx inp * rbMemLength slotBits +
    (shim.rb (shim.selRbIdx inp)).allocIndexO (shim.rbIn inp (shim.selRbIdx inp))

/-- One clock edge. -/
def step : ClusterRbShim slotBits where
  rb := fun i => (shim.rb i).step (shim.rbIn inp i)

end ClusterRbShim

end Pspin
