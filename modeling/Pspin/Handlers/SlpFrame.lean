import Pspin.Handlers.Packets
import Pspin.Runtime.Atomics

/-! # Frames of `slp_l1`

What `slp_l1_ph` finds in the payload of a packet: the type of the frame, the number of its samples,
their input vectors and behind them, in a frame to train with, their results.  The number of samples
is a `uint32_t`, so that the pointer to the results and the index of the loop that predicts wrap
around; `fit_batch` takes it as an `int`, so that from `2 ^ 31` samples on it fits none.

`VECTOR_LEN` is given when the handlers are compiled.
-/

namespace Pspin

open Clocked

def tyFitData : BitVec 8 := 0
def tyPredict : BitVec 8 := 1
def sizeofSlpFrameHdr : Nat := 8

section Frame

variable (vectorLen : Nat) (pkt : ByteMem)

/-- `slp_frame_hdr_t.type` and `slp_frame_hdr_t.count` -/
def slpType : BitVec 8 := pkt (PktHdr.pldOffset pkt)

def slpCount : Word := pkt.load32 (PktHdr.pldOffset pkt + 4)

/-- `input_ptr`, as an offset in the packet. -/
def slpInputPtr : Nat := PktHdr.pldOffset pkt + sizeofSlpFrameHdr

/-- `res_ptr`, as an offset in the packet. -/
def slpResPtr : Nat := slpInputPtr pkt + 4 * (vectorLen * (slpCount pkt).toNat % 2 ^ 32)

/-- The turns of the loop of `fit_batch`, whose `len` is an `int`. -/
def slpFitLen : Nat := (slpCount pkt).toInt.toNat

/-- Where the input of a turn of `fit_batch` begins; the product is an `int`, which overflows only for
    samples that end outside the address space. -/
def slpFitIndex (i : Nat) : Nat := i * vectorLen

/-- Where the input of a turn of the loop that predicts begins; its index is a `uint32_t`. -/
def slpPredictIndex (i : Nat) : Nat := i * vectorLen % 2 ^ 32

variable {pkt}

/-- A count that is negative as an `int` makes no turn. -/
theorem slpFitLen_eq :
    slpFitLen pkt = if (slpCount pkt).toNat < 2 ^ 31 then (slpCount pkt).toNat else 0 := by
  have bound := (slpCount pkt).isLt
  rw [slpFitLen, BitVec.toInt_eq_toNat_cond]
  split <;> split <;> omega

theorem slpFitLen_of_pos (some : 0 < slpFitLen pkt) : slpFitLen pkt = (slpCount pkt).toNat := by
  rw [slpFitLen_eq] at some ⊢
  split at some
  next counts => rw [if_pos counts]
  next => exact absurd some (Nat.lt_irrefl 0)

end Frame

/-- Where a word of the input at an index is. -/
def slpInputWord (inputPtr index k : Nat) : Nat := inputPtr + 4 * index + 4 * k

/-- The words from an index of the samples on. -/
def slpInput (pkt : ByteMem) (inputPtr index : Nat) : Nat → Word :=
  fun k => pkt.load32 (slpInputWord inputPtr index k)

end Pspin
