import Mathlib.Order.Interval.Set.Basic
import Mathlib.Data.Set.Basic
import Pspin.Clocked.Regions
import Pspin.Handlers.AllReduce
import Pspin.Handlers.SlpFrame

/-! # What payload handlers read of a packet

`GET_IP_UDP_PLD` takes the size of the two header structures off the length field and adds what
`ihl` says to the pointer.  The two agree for a header without options only, the difference
wraps around below 28, and no handler compares any of it with the bytes that were received.

A payload handler is the list of the loads it makes from the packet.
-/

namespace Pspin

open Clocked

namespace PktHdr

/-- `pkt_pld_len / 4` -/
def numWords (pkt : ByteMem) : Nat := (pldLen pkt).toNat / 4

/-- The load of a word of the payload. -/
def loadWord (pkt : ByteMem) (i : Nat) : Region := ⟨pldOffset pkt + 4 * i, 4⟩

end PktHdr

/-! ## The loads of the handlers -/

section Loads

variable (pkt : ByteMem)

/-- The loop of `map_phase_ph`. -/
def mapPhasePhLoads : List Region := (List.range (PktHdr.numWords pkt)).map (PktHdr.loadWord pkt)

/-- The loop of both `aggregate_global_ph`. -/
def aggregateGlobalPhLoads : List Region :=
  (List.range (PktHdr.numWords pkt)).map (PktHdr.loadWord pkt)

/-- The loop of `int_sum_ph`. -/
def intSumPhLoads : List Region := (List.range (PktHdr.numWords pkt)).map (PktHdr.loadWord pkt)

/-- The loop of `reduce_l1_ph`. -/
def reduceL1PhLoads : List Region := (List.range (PktHdr.numWords pkt)).map (PktHdr.loadWord pkt)

/-- The loop of `allreduce_ph`, which leaves out what does not fit the model. -/
def allreducePhLoads : List Region :=
  ((List.range (PktHdr.numWords pkt)).filter (· < modelSizeFloats)).map (PktHdr.loadWord pkt)

/-- `histogram_l1_ph` loads the first word whatever the length, and the others in its loop. -/
def histogramL1PhLoads : List Region :=
  PktHdr.loadWord pkt 0 ::
    ((List.range' 1 (PktHdr.numWords pkt - 1)).map (PktHdr.loadWord pkt))

/-- `predict` on the input at an index of the payload. -/
def predictLoads (vectorLen inputPtr index : Nat) : List Region :=
  (List.range vectorLen).map fun k => ⟨slpInputWord inputPtr index k, 4⟩

/-- `slp_l1_ph` loads its header, and goes by the count it finds there. -/
def slpL1PhLoads (vectorLen : Nat) : List Region :=
  ⟨PktHdr.pldOffset pkt, 1⟩ :: ⟨PktHdr.pldOffset pkt + 4, 4⟩ ::
    if slpType pkt = tyFitData then
      (List.range (slpFitLen pkt)).flatMap fun i => ⟨slpResPtr vectorLen pkt + 4 * i, 4⟩ ::
        predictLoads vectorLen (slpInputPtr pkt) (slpFitIndex vectorLen i)
    else if slpType pkt = tyPredict then
      (List.range (slpCount pkt).toNat).flatMap fun i =>
        predictLoads vectorLen (slpInputPtr pkt) (slpPredictIndex vectorLen i)
    else []

end Loads

/-- The payload handlers that use `GET_IP_UDP_PLD`, `slp_l1_ph` for each `VECTOR_LEN`. -/
inductive PldHandler where
  | mapPhasePh
  | aggregateGlobalPh
  | intSumPh
  | reduceL1Ph
  | allreducePh
  | histogramL1Ph
  | slpL1Ph (vectorLen : Nat)
deriving DecidableEq

namespace PldHandler

def loads : PldHandler → ByteMem → List Region
  | mapPhasePh => mapPhasePhLoads
  | aggregateGlobalPh => aggregateGlobalPhLoads
  | intSumPh => intSumPhLoads
  | reduceL1Ph => reduceL1PhLoads
  | allreducePh => allreducePhLoads
  | histogramL1Ph => histogramL1PhLoads
  | slpL1Ph vectorLen => fun pkt => slpL1PhLoads pkt vectorLen

end PldHandler

/-! ## What the accessor and the handlers should do -/

/-- The header does not describe a packet of this size: the length leaves no room for the headers
    or is more than what was received, or the header is shorter than its fields. -/
def Malformed (pkt : ByteMem) (pktMemSize : Word) : Prop :=
  (PktHdr.length pkt).toNat < (PktHdr.ihl pkt).toNat * 4 + sizeofUdpHdr ∨
    pktMemSize.toNat < (PktHdr.length pkt).toNat ∨ (PktHdr.ihl pkt).toNat * 4 < sizeofIpHdr

/-- The accessor denotes the payload, and no load is outside the received bytes of a packet that
    is malformed. -/
structure PldBounded (handler : PldHandler) (pkt : ByteMem) (pktMemSize : Word) : Prop where
  denotes : Set.Ico (PktHdr.pldOffset pkt) (PktHdr.pldOffset pkt + (PktHdr.pldLen pkt).toNat) =
    Set.Ico ((PktHdr.ihl pkt).toNat * 4 + sizeofUdpHdr) (PktHdr.length pkt).toNat
  inside : Malformed pkt pktMemSize →
    ∀ load ∈ handler.loads pkt, load.start + load.size ≤ pktMemSize.toNat

/-- The payload is empty or the header has no options, and the length counts the two headers. -/
def Plain (pkt : ByteMem) : Prop :=
  (sizeofPktHdr ≤ (PktHdr.length pkt).toNat ∧ (PktHdr.ihl pkt).toNat * 4 = sizeofIpHdr) ∨
    ((PktHdr.length pkt).toNat = sizeofPktHdr ∧ sizeofIpHdr ≤ (PktHdr.ihl pkt).toNat * 4)

/-- The bytes of the payload that a handler reads, from the first one on. -/
def PldHandler.reads (handler : PldHandler) (pkt : ByteMem) : Nat :=
  let words := ((PktHdr.length pkt).toNat - sizeofPktHdr) / 4
  match handler with
  | mapPhasePh | aggregateGlobalPh | intSumPh | reduceL1Ph => 4 * words
  | allreducePh => 4 * min words modelSizeFloats
  | histogramL1Ph => 4 * max words 1
  | slpL1Ph vectorLen =>
    if slpType pkt = tyFitData then
      sizeofSlpFrameHdr + 4 * ((vectorLen + 1) * slpFitLen pkt)
    else if slpType pkt = tyPredict then
      sizeofSlpFrameHdr + 4 * (vectorLen * (slpCount pkt).toNat)
    else sizeofSlpFrameHdr

/-- They were received. -/
def PldHandler.Received (handler : PldHandler) (pkt : ByteMem) (pktMemSize : Word) : Prop :=
  handler.reads pkt = 0 ∨
    (PktHdr.ihl pkt).toNat * 4 + sizeofUdpHdr + handler.reads pkt ≤ pktMemSize.toNat

section Bounds

variable {pkt : ByteMem} {pktMemSize : Word} {loads : List Region} {count bound : Nat}

theorem Ico_eq_iff {start stop stop' : Nat} : Set.Ico start stop = Set.Ico start stop' ↔
    stop = stop' ∨ stop ≤ start ∧ stop' ≤ start := by
  constructor
  · intro same
    by_contra differ
    -- the first index that is in the longer of the two only
    have both := Set.ext_iff.mp same (max start (min stop stop'))
    simp only [Set.mem_Ico] at both
    omega
  · rintro (rfl | ⟨empty, empty'⟩)
    · rfl
    · rw [Set.Ico_eq_empty (by omega), Set.Ico_eq_empty (by omega)]

/-- The payload length wraps around if the length field counts less than the headers. -/
theorem toNat_pldLen (pkt : ByteMem) : (PktHdr.pldLen pkt).toNat =
    if sizeofPktHdr ≤ (PktHdr.length pkt).toNat then (PktHdr.length pkt).toNat - sizeofPktHdr
    else 2 ^ 32 + (PktHdr.length pkt).toNat - sizeofPktHdr := by
  have bound := (PktHdr.length pkt).isLt
  rw [PktHdr.pldLen]
  split
  all_goals
    simp only [BitVec.toNat_sub, BitVec.toNat_setWidth, BitVec.toNat_ofNat, sizeofPktHdr,
      sizeofIpHdr, sizeofUdpHdr] at *
    omega

/-- The accessor denotes the payload of plain packets only. -/
theorem denotes_iff : Set.Ico (PktHdr.pldOffset pkt) (PktHdr.pldOffset pkt + (PktHdr.pldLen pkt).toNat) =
    Set.Ico ((PktHdr.ihl pkt).toNat * 4 + sizeofUdpHdr) (PktHdr.length pkt).toNat ↔ Plain pkt := by
  have bound := (PktHdr.length pkt).isLt
  have bound' := (PktHdr.ihl pkt).isLt
  have len := toNat_pldLen pkt
  rw [PktHdr.pldOffset, Ico_eq_iff, Plain]
  split at len
  all_goals
    simp only [sizeofPktHdr, sizeofIpHdr, sizeofUdpHdr] at *
    omega

theorem numWords_of_plain (plain : Plain pkt) :
    PktHdr.numWords pkt = ((PktHdr.length pkt).toNat - sizeofPktHdr) / 4 := by
  have counted : sizeofPktHdr ≤ (PktHdr.length pkt).toNat := by
    obtain plain | plain := plain
    · exact plain.1
    · exact Nat.le_of_eq plain.1.symm
  rw [PktHdr.numWords, toNat_pldLen, if_pos counted]

/-! ### Words one after another -/

/-- The words up to a number of them are inside if the last one is. -/
theorem words_inside_iff (words : ∀ load, load ∈ loads ↔ ∃ i < count, PktHdr.loadWord pkt i = load) :
    (∀ load ∈ loads, load.start + load.size ≤ bound) ↔
      count = 0 ∨ PktHdr.pldOffset pkt + 4 * count ≤ bound := by
  constructor
  · intro inside
    cases count with
    | zero => exact .inl rfl
    | succ last =>
      have ends := inside _ ((words _).mpr ⟨last, Nat.lt_succ_self last, rfl⟩)
      simp only [PktHdr.loadWord] at ends
      omega
  · intro fits load member
    obtain ⟨i, less, rfl⟩ := (words load).mp member
    simp only [PktHdr.loadWord]
    omega

theorem mem_words (n : Nat) (load : Region) :
    load ∈ (List.range n).map (PktHdr.loadWord pkt) ↔ ∃ i < n, PktHdr.loadWord pkt i = load := by
  simp

theorem mem_allreducePhLoads (load : Region) : load ∈ allreducePhLoads pkt ↔
    ∃ i < min (PktHdr.numWords pkt) modelSizeFloats, PktHdr.loadWord pkt i = load := by
  simp [allreducePhLoads]

theorem mem_histogramL1PhLoads (load : Region) : load ∈ histogramL1PhLoads pkt ↔
    ∃ i < max (PktHdr.numWords pkt) 1, PktHdr.loadWord pkt i = load := by
  rw [histogramL1PhLoads, List.mem_cons, List.mem_map]
  constructor
  · rintro (rfl | ⟨i, member, rfl⟩)
    · exact ⟨0, by omega, rfl⟩
    · have inside := List.mem_range'_1.mp member
      exact ⟨i, by omega, rfl⟩
  · rintro ⟨i, less, rfl⟩
    cases i with
    | zero => exact .inl rfl
    | succ i => exact .inr ⟨i + 1, List.mem_range'_1.mpr (by omega), rfl⟩

/-! ### Frames -/

theorem predictLoads_inside_iff (vectorLen inputPtr index : Nat) :
    (∀ load ∈ predictLoads vectorLen inputPtr index, load.start + load.size ≤ bound) ↔
      vectorLen = 0 ∨ inputPtr + 4 * (index + vectorLen) ≤ bound := by
  simp only [predictLoads, List.forall_mem_map, List.mem_range, slpInputWord]
  constructor
  · intro inside
    cases vectorLen with
    | zero => exact .inl rfl
    | succ last =>
      have ends := inside last (Nat.lt_succ_self last)
      omega
  · intro fits k less
    omega

/-- The inputs and behind them the results. -/
theorem fit_inside_iff (vectorLen : Nat) (pkt : ByteMem) (size : Word) :
    (∀ load ∈ (List.range (slpFitLen pkt)).flatMap fun i => ⟨slpResPtr vectorLen pkt + 4 * i, 4⟩ ::
      predictLoads vectorLen (slpInputPtr pkt) (slpFitIndex vectorLen i),
        load.start + load.size ≤ size.toNat) ↔
      slpFitLen pkt = 0 ∨
        slpInputPtr pkt + 4 * ((vectorLen + 1) * slpFitLen pkt) ≤ size.toNat := by
  have small := size.isLt
  simp only [List.forall_mem_flatMap, List.forall_mem_cons, predictLoads_inside_iff, List.mem_range,
    slpResPtr, slpFitIndex, Nat.add_mul, Nat.one_mul]
  constructor
  · intro inside
    cases count : slpFitLen pkt with
    | zero => exact .inl rfl
    | succ last =>
      have counted : slpFitLen pkt = (slpCount pkt).toNat := slpFitLen_of_pos (by omega)
      obtain ⟨result, input⟩ := inside last (by omega)
      rw [← counted, count] at result
      have inputs : vectorLen * (last + 1) = last * vectorLen + vectorLen := by
        rw [Nat.mul_succ, Nat.mul_comm]
      -- the inputs are inside, so that the index of the results does not wrap around
      have whole : vectorLen * (last + 1) % 2 ^ 32 = vectorLen * (last + 1) := by
        refine Nat.mod_eq_of_lt ?_
        rcases input with rfl | input <;> omega
      omega
  · intro fits i less
    have counted : slpFitLen pkt = (slpCount pkt).toNat := slpFitLen_of_pos (by omega)
    have inputs : (i + 1) * vectorLen ≤ vectorLen * slpFitLen pkt := by
      rw [Nat.mul_comm vectorLen]
      exact Nat.mul_le_mul_right vectorLen less
    have least := Nat.mod_le (vectorLen * slpFitLen pkt) (2 ^ 32)
    rw [Nat.succ_mul] at inputs
    rw [← counted]
    omega

/-- Behind a header that was received. -/
theorem predict_inside_iff (vectorLen : Nat) (pkt : ByteMem) (size : Word)
    (header : slpInputPtr pkt ≤ size.toNat) :
    (∀ load ∈ (List.range (slpCount pkt).toNat).flatMap fun i =>
      predictLoads vectorLen (slpInputPtr pkt) (slpPredictIndex vectorLen i),
        load.start + load.size ≤ size.toNat) ↔
      slpInputPtr pkt + 4 * (vectorLen * (slpCount pkt).toNat) ≤ size.toNat := by
  have small := size.isLt
  simp only [List.forall_mem_flatMap, predictLoads_inside_iff, List.mem_range, slpPredictIndex]
  constructor
  · intro inside
    by_contra beyond
    have some : 0 < vectorLen := by
      refine Nat.pos_of_ne_zero fun none => ?_
      rw [none, Nat.zero_mul] at beyond
      omega
    -- the last input whose index does not wrap around
    let last := min ((slpCount pkt).toNat - 1) ((2 ^ 32 - 1) / vectorLen)
    have counts : 0 < (slpCount pkt).toNat := by
      refine Nat.pos_of_ne_zero fun none => ?_
      rw [none, Nat.mul_zero] at beyond
      omega
    have ends := inside last (by omega)
    have whole : last * vectorLen ≤ 2 ^ 32 - 1 :=
      (Nat.mul_le_mul_right vectorLen (Nat.min_le_right _ _)).trans (Nat.div_mul_le_self _ _)
    rw [Nat.mod_eq_of_lt (by omega)] at ends
    have after : 2 ^ 32 - 1 < ((2 ^ 32 - 1) / vectorLen + 1) * vectorLen := by
      rw [Nat.mul_comm]
      exact Nat.lt_mul_div_succ _ some
    rcases Nat.le_total ((slpCount pkt).toNat - 1) ((2 ^ 32 - 1) / vectorLen) with few | many
    · have isLast : last + 1 = (slpCount pkt).toNat := by
        show min _ _ + 1 = _
        rw [Nat.min_eq_left few]
        omega
      rw [← isLast, Nat.mul_comm vectorLen, Nat.add_mul, Nat.one_mul] at beyond
      omega
    · have isLast : last = (2 ^ 32 - 1) / vectorLen := Nat.min_eq_right many
      rw [← isLast, Nat.add_mul, Nat.one_mul] at after
      omega
  · intro fits i less
    have inputs : (i + 1) * vectorLen ≤ vectorLen * (slpCount pkt).toNat := by
      rw [Nat.mul_comm vectorLen]
      exact Nat.mul_le_mul_right vectorLen less
    have least := Nat.mod_le (i * vectorLen) (2 ^ 32)
    rw [Nat.succ_mul] at inputs
    omega

theorem slpL1Ph_inside_iff (vectorLen : Nat) (pkt : ByteMem) (size : Word) :
    (∀ load ∈ slpL1PhLoads pkt vectorLen, load.start + load.size ≤ size.toNat) ↔
      PktHdr.pldOffset pkt + (PldHandler.slpL1Ph vectorLen).reads pkt ≤ size.toNat := by
  have header : slpInputPtr pkt ≤ size.toNat ↔ PktHdr.pldOffset pkt + 1 ≤ size.toNat ∧
      PktHdr.pldOffset pkt + 4 + 4 ≤ size.toNat := by
    rw [slpInputPtr, sizeofSlpFrameHdr]
    omega
  rw [slpL1PhLoads, List.forall_mem_cons, List.forall_mem_cons, ← and_assoc, ← header]
  simp only [PldHandler.reads]
  split
  next =>
    rw [fit_inside_iff, ← Nat.add_assoc, ← slpInputPtr]
    constructor
    · rintro ⟨inside, none | fits⟩
      · rwa [none]
      · exact fits
    · intro fits
      exact ⟨(Nat.le_add_right _ _).trans fits, .inr fits⟩
  next =>
    split
    next =>
      rw [← Nat.add_assoc, ← slpInputPtr]
      constructor
      · rintro ⟨inside, fits⟩
        exact (predict_inside_iff vectorLen pkt size inside).mp fits
      · intro fits
        have inside := (Nat.le_add_right _ _).trans fits
        exact ⟨inside, (predict_inside_iff vectorLen pkt size inside).mpr fits⟩
    next =>
      rw [← slpInputPtr]
      simp only [List.not_mem_nil, false_implies, implies_true, and_true]

/-! ### All handlers -/

/-- The loads of a plain packet are inside exactly if what the handler reads was received. -/
theorem inside_iff (handler : PldHandler) (plain : Plain pkt) :
    (∀ load ∈ handler.loads pkt, load.start + load.size ≤ pktMemSize.toNat) ↔
      handler.Received pkt pktMemSize := by
  have numWords := numWords_of_plain plain
  rw [PldHandler.Received]
  cases handler with
  | mapPhasePh | aggregateGlobalPh | intSumPh | reduceL1Ph =>
    show (∀ load ∈ (List.range (PktHdr.numWords pkt)).map (PktHdr.loadWord pkt), _) ↔ _
    rw [words_inside_iff (mem_words _), numWords, PldHandler.reads, PktHdr.pldOffset]
    omega
  | allreducePh =>
    rw [PldHandler.loads, words_inside_iff mem_allreducePhLoads, numWords, PldHandler.reads,
      PktHdr.pldOffset]
    omega
  | histogramL1Ph =>
    rw [PldHandler.loads, words_inside_iff mem_histogramL1PhLoads, numWords, PldHandler.reads,
      PktHdr.pldOffset]
    omega
  | slpL1Ph vectorLen =>
    have header : (PldHandler.slpL1Ph vectorLen).reads pkt ≠ 0 := by
      simp only [PldHandler.reads, sizeofSlpFrameHdr]
      split
      · omega
      · split <;> omega
    rw [PldHandler.loads, slpL1Ph_inside_iff, PktHdr.pldOffset]
    omega

end Bounds

/-- The accessor denotes the payload exactly of plain packets, and a handler stays inside a
    malformed one exactly if what it reads was received. -/
theorem pldBounded_iff (handler : PldHandler) (pkt : ByteMem) (pktMemSize : Word) :
    PldBounded handler pkt pktMemSize ↔
      Plain pkt ∧ (Malformed pkt pktMemSize → handler.Received pkt pktMemSize) := by
  constructor
  · rintro ⟨denotes, inside⟩
    have plain := denotes_iff.mp denotes
    exact ⟨plain, fun malformed => (inside_iff handler plain).mp (inside malformed)⟩
  · rintro ⟨plain, received⟩
    exact ⟨denotes_iff.mpr plain, fun malformed =>
      (inside_iff handler plain).mpr (received malformed)⟩

/-- The length field of a packet of zeros is less than the headers. -/
theorem pldBounded_zeros : ¬PldBounded .mapPhasePh (fun _ => 0) 64 := by
  intro bounded
  have plain : Plain fun _ => 0 := denotes_iff.mp bounded.denotes
  unfold Plain at plain
  revert plain
  decide

end Pspin
