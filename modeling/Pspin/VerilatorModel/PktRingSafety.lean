import Mathlib.Data.List.Perm.Basic
import Pspin.Clocked.Tiling
import Pspin.VerilatorModel.PktRing

/-! # The packets in the buffer of `NICInbound` do not overlap

The packets that are live or parked tile the buffer in two parts: from the head
to the cut, or to the tail where there is no cut, and from the start of the
buffer to the tail where there is one.
-/

namespace Pspin

open Clocked

/-- The size in whole segments. -/
def roundUp (size : Nat) : Nat := (size + 63) / 64 * 64

namespace PktRing

/-- The largest size that can be rounded in 32 bits. -/
theorem roundedSize_eq {size : Nat} (fits : size ≤ 2 ^ 32 - 64) :
    roundedSize size = roundUp size := by
  simp only [roundedSize, roundUp, niPktAddrAlignment]
  omega

theorem roundedSize_eq_zero {size : Nat} (large : 2 ^ 32 - 64 < size) (small : size < 2 ^ 32) :
    roundedSize size = 0 := by
  simp only [roundedSize, niPktAddrAlignment]
  omega

variable {params : PktRingParams} {ring placed : PktRing} {size : Nat}

/-- Where the first part of the buffer in use ends. -/
def endPtr (ring : PktRing) : Nat := if ring.cut then ring.cutPtr else ring.tailPtr

/-- Where the second part ends, which starts with the buffer. -/
def wrapPtr (ring : PktRing) : Nat := if ring.cut then ring.tailPtr else 0

theorem endPtr_of_cut (cut : ring.cut = true) : ring.endPtr = ring.cutPtr := if_pos cut

theorem endPtr_of_uncut (uncut : ring.cut = false) : ring.endPtr = ring.tailPtr :=
  if_neg (uncut ▸ Bool.false_ne_true)

theorem wrapPtr_of_cut (cut : ring.cut = true) : ring.wrapPtr = ring.tailPtr := if_pos cut

theorem wrapPtr_of_uncut (uncut : ring.cut = false) : ring.wrapPtr = 0 :=
  if_neg (uncut ▸ Bool.false_ne_true)

/-- The ring with a packet at its tail, nothing cut off. -/
def extend (ring : PktRing) (size : Nat) : PktRing :=
  { ring with
    tailPtr := ring.tailPtr + size
    inFlightPackets := ring.inFlightPackets + 1 }

theorem grant_eq_extend (tail : ring.tailPtr + size < 2 ^ 32)
    (count : ring.inFlightPackets + 1 < 2 ^ 32) : ring.grant size = ring.extend size := by
  rw [grant, extend, Nat.mod_eq_of_lt count, Nat.mod_eq_of_lt (by omega)]

/-- The tail is ahead of the head. -/
def Unwrapped (ring : PktRing) : Prop :=
  ring.headPtr < ring.tailPtr ∨ ring.tailPtr = ring.headPtr ∧ ring.inFlightPackets = 0

instance (ring : PktRing) : Decidable ring.Unwrapped := inferInstanceAs (Decidable (_ ∨ _))

/-- The tail has come round to the head. -/
def Full (ring : PktRing) : Prop := ring.tailPtr = ring.headPtr ∧ ring.inFlightPackets ≠ 0

instance (ring : PktRing) : Decidable ring.Full := inferInstanceAs (Decidable (_ ∧ _))

/-- A packet is placed at the tail, before the end of the buffer or before the head, or
    at the start of the buffer. -/
theorem place_cases (found : ring.place params size = some placed) :
    placed = ring ∧ (ring.Unwrapped ∧ size ≤ ring.leftAtEnd params ∨
      ring.tailPtr < ring.headPtr ∧ size ≤ ring.headPtr - ring.tailPtr) ∨
    placed = { ring with cutPtr := ring.tailPtr, cut := true, tailPtr := 0 } ∧
      ring.Unwrapped ∧ ring.leftAtEnd params < size ∧ size ≤ ring.headPtr := by
  rw [place] at found
  split at found
  next unwrapped =>
    split at found
    next fits =>
      cases found
      exact .inl ⟨rfl, .inl ⟨unwrapped, fits⟩⟩
    next full =>
      split at found
      next fits =>
        cases found
        exact .inr ⟨rfl, unwrapped, Nat.lt_of_not_le full, fits⟩
      next => cases found
  next =>
    split at found
    next behind =>
      split at found
      next fits =>
        cases found
        exact .inl ⟨rfl, .inr ⟨behind, fits⟩⟩
      next => cases found
    next => cases found

end PktRing

/-- The region of an entry of `free_req_queue`. -/
def entryRegion (entry : Nat × Nat) : Region := ⟨entry.1, entry.2⟩

/-- The region of a packet in the buffer. -/
def Pkt.region (params : PktRingParams) (pkt : Pkt) : Region :=
  ⟨pkt.addr - params.l2PktBuffStart, roundUp pkt.size.toNat⟩

/-- The regions given and those parked are the two parts of the buffer in use. -/
structure Tiled (params : PktRingParams) (ring : PktRing) (given first second : List Region) :
    Prop where
  blocks : (given ++ ring.freeReqQueue.map entryRegion).Perm (first ++ second)
  nonempty : ∀ region ∈ given ++ ring.freeReqQueue.map entryRegion, 0 < region.size
  ahead : Tiles ring.headPtr first ring.endPtr
  behind : Tiles 0 second ring.wrapPtr
  inside : ring.endPtr ≤ params.l2PktBuffSize
  wrapped : ring.cut = true → second ≠ [] ∧ ring.tailPtr ≤ ring.headPtr
  counted : ring.inFlightPackets = first.length + second.length

namespace Tiled

variable {params : PktRingParams} {ring placed : PktRing} {given first second : List Region}

theorem reset : Tiled params PktRing.reset [] [] [] where
  blocks := .nil
  nonempty _ member := by cases member
  ahead := rfl
  behind := rfl
  inside := Nat.zero_le _
  wrapped cut := by cases cut
  counted := rfl

theorem perm_cons_erase (given : List Region) {entry : Nat × Nat}
    (inQueue : entry ∈ ring.freeReqQueue) :
    (given ++ ring.freeReqQueue.map entryRegion).Perm
      (entryRegion entry :: (given ++ (ring.freeReqQueue.erase entry).map entryRegion)) :=
  (((List.perm_cons_erase inQueue).map entryRegion).append_left given).trans List.perm_middle

section

variable (tiled : Tiled params ring given first second)

include tiled

theorem nonempty_first : ∀ region ∈ first, 0 < region.size :=
  fun region member =>
    tiled.nonempty region (tiled.blocks.mem_iff.mpr (List.mem_append_left _ member))

theorem nonempty_second : ∀ region ∈ second, 0 < region.size :=
  fun region member =>
    tiled.nonempty region (tiled.blocks.mem_iff.mpr (List.mem_append_right _ member))

/-- The second part ends at the latest where the first one starts. -/
theorem wrapPtr_le : ring.wrapPtr ≤ ring.headPtr := by
  rw [PktRing.wrapPtr]
  split
  next cut => exact (tiled.wrapped cut).2
  next => exact Nat.zero_le _

theorem tailPtr_le : ring.tailPtr ≤ params.l2PktBuffSize := by
  have ahead := tiled.ahead.le
  have inside := tiled.inside
  cases cut : ring.cut with
  | false => rwa [PktRing.endPtr_of_uncut cut] at inside
  | true =>
    have before := (tiled.wrapped cut).2
    omega

theorem headPtr_le : ring.headPtr ≤ params.l2PktBuffSize := 
  Nat.le_trans tiled.ahead.le tiled.inside

theorem leftAtEnd_eq : ring.leftAtEnd params = params.l2PktBuffSize - ring.tailPtr := by
  have tail := tiled.tailPtr_le
  have width := params.size_lt
  rw [PktRing.leftAtEnd]
  omega

/-- Without a cut there is one part. -/
theorem second_eq_nil (uncut : ring.cut = false) : second = [] := by
  have behind := tiled.behind
  rw [PktRing.wrapPtr_of_uncut uncut] at behind
  exact behind.eq_nil tiled.nonempty_second

/-- The tail of a ring with a cut is not ahead of the head. -/
theorem cut_eq_false (unwrapped : ring.Unwrapped) : ring.cut = false := by
  by_contra cut
  have wrapped := tiled.wrapped ((Bool.not_eq_false _).mp cut)
  have some := List.length_pos_of_ne_nil wrapped.1
  have counted := tiled.counted
  obtain ahead | ⟨-, none⟩ := unwrapped <;> omega

theorem cut_eq_true (wrapped : ring.tailPtr < ring.headPtr) : ring.cut = true := by
  by_contra cut
  have ahead := tiled.ahead.le
  rw [PktRing.endPtr, if_neg cut] at ahead
  omega

/-- There are fewer packets than bytes. -/
theorem counted_lt : ring.inFlightPackets < 2 ^ 32 := by
  have first := tiled.ahead.length_le tiled.nonempty_first
  have second := tiled.behind.length_le tiled.nonempty_second
  have wrap := tiled.wrapPtr_le
  have inside := tiled.inside
  have width := params.size_lt
  have counted := tiled.counted
  omega

theorem pairwise_apart :
    (given ++ ring.freeReqQueue.map entryRegion).Pairwise Region.Apart := by
  refine (tiled.blocks.pairwise_iff Region.Apart.symm).mpr ?_
  refine List.pairwise_append.mpr ⟨tiled.ahead.pairwise_apart, tiled.behind.pairwise_apart, ?_⟩
  intro region inFirst other inSecond
  have above := (tiled.ahead.inside inFirst).1
  have below := (tiled.behind.inside inSecond).2
  have wrap := tiled.wrapPtr_le
  exact (Tiles.apart_of_le (by omega)).symm

theorem inside_buffer {region : Region}
    (member : region ∈ given ++ ring.freeReqQueue.map entryRegion) :
    0 < region.size ∧ region.start + region.size ≤ params.l2PktBuffSize := by
  refine ⟨tiled.nonempty region member, ?_⟩
  have member := tiled.blocks.mem_iff.mp member
  have head := tiled.headPtr_le
  have wrap := tiled.wrapPtr_le
  have inside := tiled.inside
  obtain inFirst | inSecond := List.mem_append.mp member
  · exact Nat.le_trans (tiled.ahead.inside inFirst).2 inside
  · have below := (tiled.behind.inside inSecond).2
    omega

theorem nonempty_cons {size start : Nat} (positive : 0 < size) :
    ∀ region ∈ ⟨start, size⟩ :: given ++ ring.freeReqQueue.map entryRegion, 0 < region.size := by
  rw [List.cons_append, List.forall_mem_cons]
  exact ⟨positive, tiled.nonempty⟩

/-- Without a cut the first part grows. -/
theorem grow_first {size : Nat} (positive : 0 < size) (uncut : ring.cut = false)
    (fits : ring.tailPtr + size ≤ params.l2PktBuffSize) :
    Tiled params (ring.extend size) (⟨ring.tailPtr, size⟩ :: given)
      (first ++ [⟨ring.tailPtr, size⟩]) second where
  blocks := by
    rw [List.append_assoc, List.singleton_append]
    exact (tiled.blocks.cons _).trans List.perm_middle.symm
  nonempty := tiled.nonempty_cons positive
  ahead := by
    have ahead := tiled.ahead
    rw [PktRing.endPtr_of_uncut uncut] at ahead
    rw [@PktRing.endPtr_of_uncut (ring.extend size) uncut]
    exact ahead.concat rfl
  behind := by
    have behind := tiled.behind
    rw [PktRing.wrapPtr_of_uncut uncut] at behind
    rwa [@PktRing.wrapPtr_of_uncut (ring.extend size) uncut]
  inside := by rwa [@PktRing.endPtr_of_uncut (ring.extend size) uncut]
  wrapped cut := absurd (uncut.symm.trans cut) Bool.false_ne_true
  counted := by
    rw [List.length_append, List.length_singleton, Nat.add_right_comm, ← tiled.counted]
    rfl

/-- With a cut the second part grows. -/
theorem grow_second {size : Nat} (positive : 0 < size) (cut : ring.cut = true)
    (fits : ring.tailPtr + size ≤ ring.headPtr) :
    Tiled params (ring.extend size) (⟨ring.tailPtr, size⟩ :: given)
      first (second ++ [⟨ring.tailPtr, size⟩]) where
  blocks := by
    rw [← List.append_assoc]
    exact (tiled.blocks.cons _).trans (List.perm_append_singleton _ _).symm
  nonempty := tiled.nonempty_cons positive
  ahead := by
    have ahead := tiled.ahead
    rw [PktRing.endPtr_of_cut cut] at ahead
    rwa [@PktRing.endPtr_of_cut (ring.extend size) cut]
  behind := by
    have behind := tiled.behind
    rw [PktRing.wrapPtr_of_cut cut] at behind
    rw [@PktRing.wrapPtr_of_cut (ring.extend size) cut]
    exact behind.concat rfl
  inside := by
    have inside := tiled.inside
    rw [PktRing.endPtr_of_cut cut] at inside
    rwa [@PktRing.endPtr_of_cut (ring.extend size) cut]
  wrapped _ := ⟨by simp, fits⟩
  counted := by
    rw [List.length_append, List.length_singleton, ← Nat.add_assoc, ← tiled.counted]
    rfl

/-- The second part starts. -/
theorem wrap {size : Nat} (positive : 0 < size) (uncut : ring.cut = false)
    (fits : size ≤ ring.headPtr) :
    Tiled params ({ ring with cutPtr := ring.tailPtr, cut := true, tailPtr := 0 }.extend size)
      (⟨0, size⟩ :: given) first [⟨0, size⟩] where
  blocks := by
    have blocks := tiled.blocks
    rw [tiled.second_eq_nil uncut, List.append_nil] at blocks
    exact (blocks.cons _).trans (List.perm_append_singleton _ _).symm
  nonempty := tiled.nonempty_cons positive
  ahead := by
    have ahead := tiled.ahead
    rwa [PktRing.endPtr_of_uncut uncut] at ahead
  behind := ⟨rfl, rfl⟩
  inside := tiled.tailPtr_le
  wrapped _ := ⟨by simp, Nat.le_trans (Nat.le_of_eq (Nat.zero_add size)) fits⟩
  counted := by
    have counted := tiled.counted
    rw [tiled.second_eq_nil uncut] at counted
    exact congrArg (· + 1) counted

/-- A packet is granted at the tail of the ring it was placed in. -/
theorem grant {size : Nat} (positive : 0 < size) (found : ring.place params size = some placed) :
    ∃ first second,
      Tiled params (placed.grant size) (⟨placed.tailPtr, size⟩ :: given) first second := by
  have left := tiled.leftAtEnd_eq
  have tail := tiled.tailPtr_le
  suffices extended : ∃ first second,
      Tiled params (placed.extend size) (⟨placed.tailPtr, size⟩ :: given) first second by
    obtain ⟨first, second, extended⟩ := extended
    rw [PktRing.grant_eq_extend (Nat.lt_of_le_of_lt extended.tailPtr_le params.size_lt)
      extended.counted_lt]
    exact ⟨first, second, extended⟩
  obtain ⟨rfl, ⟨unwrapped, fits⟩ | ⟨behind, fits⟩⟩ | ⟨rfl, unwrapped, full, fits⟩ :=
    PktRing.place_cases found
  · exact ⟨_, _, tiled.grow_first positive (tiled.cut_eq_false unwrapped) (by omega)⟩
  · exact ⟨_, _, tiled.grow_second positive (tiled.cut_eq_true behind) (by omega)⟩
  · exact ⟨_, _, tiled.wrap positive (tiled.cut_eq_false unwrapped) fits⟩

theorem perm {given' : List Region} (same : given.Perm given') :
    Tiled params ring given' first second where
  blocks := (same.append_right _).symm.trans tiled.blocks
  nonempty region member := tiled.nonempty region ((same.append_right _).mem_iff.mpr member)
  ahead := tiled.ahead
  behind := tiled.behind
  inside := tiled.inside
  wrapped := tiled.wrapped
  counted := tiled.counted

/-- A given packet is parked. -/
theorem park {offset size : Nat} (member : ⟨offset, size⟩ ∈ given) :
    ring.parkedAt offset = none ∧
      Tiled params (ring.insertParked offset size) (given.erase ⟨offset, size⟩) first second := by
  have same : (given ++ ring.freeReqQueue.map entryRegion).Perm (given.erase ⟨offset, size⟩ ++
      ((offset, size) :: ring.freeReqQueue).map entryRegion) :=
    ((List.perm_cons_erase member).append_right _).trans List.perm_middle.symm
  constructor
  · refine List.find?_eq_none.mpr fun entry inQueue found => ?_
    have starts : entry.1 = offset := by simpa using found
    have apart := (List.pairwise_append.mp tiled.pairwise_apart).2.2 _ member _
      (List.mem_map_of_mem inQueue)
    have positive := tiled.nonempty ⟨offset, size⟩ (List.mem_append_left _ member)
    have positive' := tiled.nonempty (entryRegion entry)
      (List.mem_append_right _ (List.mem_map_of_mem inQueue))
    exact apart offset ⟨Nat.le_refl _, Nat.lt_add_of_pos_right positive⟩
      ⟨Nat.le_of_eq starts, starts ▸ Nat.lt_add_of_pos_right positive'⟩
  · exact {
      blocks := same.symm.trans tiled.blocks
      nonempty := fun region inNext => tiled.nonempty region (same.mem_iff.mpr inNext)
      ahead := tiled.ahead
      behind := tiled.behind
      inside := tiled.inside
      wrapped := tiled.wrapped
      counted := tiled.counted }

/-- What is parked at the head is the first region of the first part. -/
theorem first_eq_cons {entry : Nat × Nat}
    (found : ring.parkedAt (ring.headPtr % 2 ^ 32) = some entry) :
    entry ∈ ring.freeReqQueue ∧ ∃ rest, first = entryRegion entry :: rest ∧
      Tiles (ring.headPtr + entry.2) rest ring.endPtr := by
  have inQueue := List.mem_of_find?_eq_some found
  have starts : entry.1 = ring.headPtr := by
    have key := List.find?_some found
    have head := tiled.headPtr_le
    have width := params.size_lt
    rw [beq_iff_eq, Nat.mod_eq_of_lt (by omega)] at key
    exact key
  have member := List.mem_append_right given (List.mem_map_of_mem (f := entryRegion) inQueue)
  refine ⟨inQueue, ?_⟩
  obtain inFirst | inSecond := List.mem_append.mp (tiled.blocks.mem_iff.mp member)
  · exact tiled.ahead.eq_cons tiled.nonempty_first inFirst starts
  · have below := (tiled.behind.inside inSecond).2
    have positive := tiled.nonempty_second _ inSecond
    have wrap := tiled.wrapPtr_le
    change entry.1 + entry.2 ≤ ring.wrapPtr at below
    change 0 < entry.2 at positive
    omega

/-- The head moves over what is parked there. -/
theorem advance {entry : Nat × Nat}
    (found : ring.parkedAt (ring.headPtr % 2 ^ 32) = some entry) :
    0 < ring.inFlightPackets ∧
      ((ring.advance entry).cut = true → (ring.advance entry).headPtr < ring.cutPtr) ∧
      ∃ first second, Tiled params (ring.advance entry) given first second := by
  obtain ⟨inQueue, rest, rfl, ahead⟩ := tiled.first_eq_cons found
  have counted : ring.inFlightPackets = rest.length + second.length + 1 := by
    rw [tiled.counted, List.length_cons, Nat.add_right_comm]
  have count : (ring.inFlightPackets + 2 ^ 32 - 1) % 2 ^ 32 = rest.length + second.length := by
    have small := tiled.counted_lt
    omega
  have head : (ring.headPtr + entry.2) % 2 ^ 64 = ring.headPtr + entry.2 := by
    have below := ahead.le
    have inside := tiled.inside
    have width := params.size_lt
    exact Nat.mod_eq_of_lt (by omega)
  have same := perm_cons_erase given inQueue
  have blocks : (given ++ (ring.freeReqQueue.erase entry).map entryRegion).Perm (rest ++ second) :=
    (same.symm.trans tiled.blocks).cons_inv
  have nonempty : ∀ region ∈ given ++ (ring.freeReqQueue.erase entry).map entryRegion,
      0 < region.size := fun region member =>
    tiled.nonempty region (same.mem_iff.mpr (List.mem_cons_of_mem _ member))
  refine ⟨by omega, ?_⟩
  rw [PktRing.advance, head, count]
  dsimp only
  split
  next goesBack =>
    -- the head has reached the cut: the second part is all there is
    obtain ⟨cut, atCut⟩ := Bool.and_eq_true_iff.mp goesBack
    have behind := tiled.behind
    rw [PktRing.endPtr_of_cut cut, beq_iff_eq.mp atCut] at ahead
    rw [PktRing.wrapPtr_of_cut cut] at behind
    have gone : rest = [] := ahead.eq_nil fun region member =>
      tiled.nonempty_first region (List.mem_cons_of_mem _ member)
    rw [gone, List.nil_append] at blocks
    refine ⟨fun stays => absurd stays Bool.false_ne_true, second, [], ?_⟩
    exact {
      blocks := by rwa [List.append_nil]
      nonempty := nonempty
      ahead := behind
      behind := rfl
      inside := tiled.tailPtr_le
      wrapped := fun stays => absurd stays Bool.false_ne_true
      counted := by rw [gone, List.length_nil, Nat.add_comm] }
  next stays =>
    refine ⟨fun (cut : ring.cut = true) => ?_, rest, second, ?_⟩
    · rw [PktRing.endPtr_of_cut cut] at ahead
      exact Nat.lt_of_le_of_ne ahead.le fun atCut =>
        stays (Bool.and_eq_true_iff.mpr ⟨cut, beq_iff_eq.mpr atCut⟩)
    · exact {
        blocks := blocks
        nonempty := nonempty
        ahead := ahead
        behind := tiled.behind
        inside := tiled.inside
        wrapped := fun cut => ⟨(tiled.wrapped cut).1,
          Nat.le_add_right_of_le (tiled.wrapped cut).2⟩
        counted := rfl }

end

/-- The loop keeps the tiling and never takes from a count of zero. -/
theorem reclaim (fuel : Nat) (tiled : Tiled params ring given first second) :
    ring.underflows fuel = false ∧
      ∃ first second, Tiled params (ring.reclaim fuel) given first second := by
  induction fuel generalizing ring first second with
  | zero => exact ⟨rfl, first, second, tiled⟩
  | succ fuel inductionHypothesis =>
    rw [PktRing.underflows, PktRing.reclaim]
    split
    next => exact ⟨rfl, first, second, tiled⟩
    next entry found =>
      obtain ⟨positive, -, first, second, advanced⟩ := tiled.advance found
      obtain ⟨safe, reclaimed⟩ := inductionHypothesis advanced
      rw [safe, Bool.or_false]
      exact ⟨beq_eq_false_iff_ne.mpr (Nat.ne_of_gt positive), reclaimed⟩

end Tiled

namespace PktTrace

variable (params : PktRingParams)

def step (trace : PktTrace) (inp : PktRingIn) : PktTrace :=
  (trace.1.step params inp, PktHistory.record params trace.1 trace.2 inp)

/-- Sizes are positive, and a packet is freed once, as it was allocated. -/
def Permits (trace : PktTrace) : PktRingIn → Prop
  | .allocate pktSize => 0 < pktSize.toNat
  | .free pkt => pkt ∈ trace.2.live

instance (trace : PktTrace) : ∀ inp, Decidable (trace.Permits inp)
  | .allocate _ => inferInstanceAs (Decidable (_ < _))
  | .free _ => inferInstanceAs (Decidable (_ ∈ _))

/-- A size that is granted can be rounded in 32 bits. -/
def Sized (trace : PktTrace) : PktRingIn → Prop
  | .allocate pktSize => pktSize.toNat ≤ 2 ^ 32 - 64 ∨ trace.1.Full
  | .free _ => True

instance (trace : PktTrace) : ∀ inp, Decidable (trace.Sized inp)
  | .allocate _ => inferInstanceAs (Decidable (_ ∨ _))
  | .free _ => inferInstanceAs (Decidable True)

/-- The packets are apart and in the buffer, the packet count is exact and never taken
    from at zero, and no assertion fires. -/
structure Safe (trace : PktTrace) : Prop where
  apart : (trace.2.live.map (Pkt.region params)).Pairwise Region.Apart
  inside : ∀ pkt ∈ trace.2.live, params.l2PktBuffStart ≤ pkt.addr ∧
    (pkt.region params).start + (pkt.region params).size ≤ params.l2PktBuffSize
  counted : trace.1.inFlightPackets = trace.2.live.length + trace.1.freeReqQueue.length
  underflowed : trace.2.underflowed = false
  aborted : trace.2.aborted = false

/-- The invariant. -/
structure Inv (trace : PktTrace) : Prop where
  tiled : ∃ first second, Tiled params trace.1 (trace.2.live.map (Pkt.region params)) first second
  addressed : ∀ pkt ∈ trace.2.live,
    params.l2PktBuffStart ≤ pkt.addr ∧ pkt.addr < 2 ^ 32 ∧ pkt.size.toNat ≤ 2 ^ 32 - 64
  underflowed : trace.2.underflowed = false
  aborted : trace.2.aborted = false

variable {params} {trace : PktTrace} {placed parked : PktRing} {pktSize : BitVec 32} {pkt : Pkt}

theorem step_refused (full : trace.1.place params (PktRing.roundedSize pktSize.toNat) = none) :
    trace.step params (.allocate pktSize) = trace := by
  simp only [step, PktRing.step, PktHistory.record, PktRing.allocatePktSpace, full, Option.map_none]

theorem step_granted
    (found : trace.1.place params (PktRing.roundedSize pktSize.toNat) = some placed) :
    trace.step params (.allocate pktSize) = (placed.grant (PktRing.roundedSize pktSize.toNat),
      { trace.2 with live := ⟨placed.tailAddr params, pktSize⟩ :: trace.2.live }) := by
  simp only [step, PktRing.step, PktHistory.record, PktRing.allocatePktSpace, found,
    Option.map_some]

theorem step_freed (found : trace.1.park params pkt.addr pkt.size.toNat = some parked) :
    trace.step params (.free pkt) = (parked.reclaim parked.freeReqQueue.length,
      { trace.2 with
        live := trace.2.live.erase pkt
        underflowed := trace.2.underflowed || parked.underflows parked.freeReqQueue.length }) := by
  simp only [step, PktRing.step, PktHistory.record, PktRing.freePktSpace, found, Option.map_some]

namespace Inv

theorem reset : Inv params (pktTrace params).reset where
  tiled := ⟨[], [], Tiled.reset⟩
  addressed _ member := by cases member
  underflowed := rfl
  aborted := rfl

/-- A packet that is given a place. -/
theorem allocate (inv : trace.Inv params) (positive : 0 < pktSize.toNat)
    (sized : pktSize.toNat ≤ 2 ^ 32 - 64) : (trace.step params (.allocate pktSize)).Inv params := by
  cases found : trace.1.place params (PktRing.roundedSize pktSize.toNat) with
  | none => rwa [step_refused found]
  | some placed =>
    rw [step_granted found]
    have rounded := PktRing.roundedSize_eq sized
    have segments : 0 < PktRing.roundedSize pktSize.toNat := by
      rw [rounded, roundUp]
      omega
    obtain ⟨first, second, tiled⟩ := inv.tiled
    obtain ⟨first, second, tiled⟩ := tiled.grant segments found
    have inside : placed.tailPtr + PktRing.roundedSize pktSize.toNat ≤ params.l2PktBuffSize :=
      (tiled.inside_buffer List.mem_cons_self).2
    have addressed := params.addressed
    have addr : placed.tailAddr params = params.l2PktBuffStart + placed.tailPtr :=
      Nat.mod_eq_of_lt (by omega)
    have region : Pkt.region params ⟨placed.tailAddr params, pktSize⟩ =
        ⟨placed.tailPtr, PktRing.roundedSize pktSize.toNat⟩ := by
      rw [Pkt.region, addr, Nat.add_sub_cancel_left, rounded]
    refine ⟨⟨first, second, ?_⟩, ?_, inv.underflowed, inv.aborted⟩
    · rw [List.map_cons, region]
      exact tiled
    · rw [List.forall_mem_cons]
      refine ⟨?_, inv.addressed⟩
      change params.l2PktBuffStart ≤ placed.tailAddr params ∧ placed.tailAddr params < 2 ^ 32 ∧ _
      exact ⟨by omega, by omega, sized⟩

/-- The assertions of `free_pkt_space` hold, and the packet is parked. -/
theorem park (inv : trace.Inv params) (member : pkt ∈ trace.2.live) :
    ∃ offset, trace.1.park params pkt.addr pkt.size.toNat =
        some (trace.1.insertParked offset (PktRing.roundedSize pkt.size.toNat)) ∧
      ∃ first second,
        Tiled params (trace.1.insertParked offset (PktRing.roundedSize pkt.size.toNat))
          ((trace.2.live.erase pkt).map (Pkt.region params)) first second := by
  obtain ⟨first, second, tiled⟩ := inv.tiled
  obtain ⟨above, width, sized⟩ := inv.addressed pkt member
  have offset : PktRing.offsetOf params pkt.addr = pkt.addr - params.l2PktBuffStart := by
    rw [PktRing.offsetOf]
    omega
  have erased : ((trace.2.live.map (Pkt.region params)).erase (pkt.region params)).Perm
      ((trace.2.live.erase pkt).map (Pkt.region params)) := by
    refine List.Perm.cons_inv (a := pkt.region params) ?_
    refine (List.perm_cons_erase (List.mem_map_of_mem member)).symm.trans ?_
    exact (List.perm_cons_erase member).map (Pkt.region params)
  obtain ⟨absent, parked⟩ := tiled.park (List.mem_map_of_mem member)
  have parked := parked.perm erased
  rw [← PktRing.roundedSize_eq sized] at parked
  refine ⟨pkt.addr - params.l2PktBuffStart, ?_, first, second, parked⟩
  rw [PktRing.park, offset, absent]
  exact if_pos ⟨above, rfl⟩

/-- A packet that is freed. -/
theorem free (inv : trace.Inv params) (member : pkt ∈ trace.2.live) :
    (trace.step params (.free pkt)).Inv params := by
  obtain ⟨offset, found, first, second, tiled⟩ := inv.park member
  obtain ⟨safe, reclaimed⟩ := tiled.reclaim _
  rw [step_freed found]
  refine ⟨reclaimed, fun other live => ?_, ?_, inv.aborted⟩
  · exact inv.addressed other (List.mem_of_mem_erase live)
  · rw [inv.underflowed, Bool.false_or]
    exact safe

theorem safe (inv : trace.Inv params) : trace.Safe params := by
  obtain ⟨first, second, tiled⟩ := inv.tiled
  refine ⟨(List.pairwise_append.mp tiled.pairwise_apart).1, fun pkt member => ?_, ?_,
    inv.underflowed, inv.aborted⟩
  · have given := List.mem_append_left (trace.1.freeReqQueue.map entryRegion)
      (List.mem_map_of_mem (f := Pkt.region params) member)
    exact ⟨(inv.addressed pkt member).1, (tiled.inside_buffer given).2⟩
  · have same := tiled.blocks.length_eq
    rw [List.length_append, List.length_append, List.length_map, List.length_map] at same
    rw [tiled.counted, same]

end Inv

/-- A full ring grants nothing. -/
theorem place_of_full (full : trace.1.Full) (size : Nat) : trace.1.place params size = none := by
  obtain ⟨same, some⟩ := full
  simp [PktRing.place, same, some]

/-- A ring that is not full has place for nothing. -/
theorem place_zero (params : PktRingParams) (notFull : ¬trace.1.Full) :
    ∃ placed, trace.1.place params 0 = some placed := by
  rw [PktRing.Full, not_and_or, not_not] at notFull
  rw [PktRing.place, if_pos (Nat.zero_le _), if_pos (Nat.zero_le _)]
  split
  next => exact ⟨_, rfl⟩
  next behind =>
    rw [if_pos (by omega)]
    exact ⟨_, rfl⟩

theorem Inv.step {inp : PktRingIn} (inv : trace.Inv params) (permits : trace.Permits inp)
    (sized : trace.Sized inp) : (trace.step params inp).Inv params := by
  cases inp with
  | free pkt => exact inv.free permits
  | allocate pktSize =>
    obtain sized | full := sized
    · exact inv.allocate permits sized
    · rwa [step_refused (place_of_full full _)]

/-- A packet that is granted more than can be rounded is not in the buffer. -/
theorem not_safe_step {inp : PktRingIn} (large : ¬trace.Sized inp) :
    ¬(trace.step params inp).Safe params := by
  cases inp with
  | free pkt => exact absurd trivial large
  | allocate pktSize =>
    obtain ⟨large, notFull⟩ := not_or.mp large
    have width := pktSize.isLt
    have zero := PktRing.roundedSize_eq_zero (Nat.lt_of_not_le large) width
    obtain ⟨placed, found⟩ := place_zero params notFull
    rw [← zero] at found
    rw [step_granted found]
    intro safe
    have inside := (safe.inside _ List.mem_cons_self).2
    have bound := params.size_lt
    change _ + roundUp pktSize.toNat ≤ _ at inside
    rw [roundUp] at inside
    omega

end PktTrace

open PktTrace in
/-- The packets of `NICInbound` are apart and in the buffer as long as no packet is granted
    whose size cannot be rounded up in 32 bits. -/
theorem pktRing_safe (params : PktRingParams) (inputs : List PktRingIn)
    (permitted : (pktTrace params).Admits Permits inputs) :
    (∀ before, before <+: inputs → Safe params ((pktTrace params).run before)) ↔
      (pktTrace params).Admits Sized inputs := by
  constructor
  · intro safe
    refine Machine.admitsFrom_iff.mpr fun before inp after split => ?_
    by_contra large
    have next := safe (before ++ [inp]) ⟨after, by simp [split]⟩
    rw [Machine.run_concat] at next
    exact not_safe_step large next
  · rintro sized before ⟨after, rfl⟩
    have admitted := permitted.of_append.and sized.of_append
    have inv := admitted.invariant (Inv params) Inv.reset
      fun _ _ inv allowed => inv.step allowed.1 allowed.2
    exact inv.safe

/-- In a buffer of four segments the third packet starts again at the beginning; its space
    is reclaimed with that of the second, which is freed after it. -/
theorem pktRing_safe_wrapped :
    let params : PktRingParams := ⟨0x1c400000, 256, by decide, by decide⟩
    let inputs : List PktRingIn := [.allocate 100, .allocate 64, .free ⟨0x1c400000, 100⟩,
      .allocate 128, .free ⟨0x1c400000, 128⟩, .free ⟨0x1c400080, 64⟩, .allocate 65]
    let trace := (pktTrace params).run inputs
    (trace.1 = ⟨128, 256, 192, false, 1, []⟩ ∧ trace.2.live = [⟨0x1c400080, 65⟩]) ∧
      ∀ before, before <+: inputs → PktTrace.Safe params ((pktTrace params).run before) :=
  ⟨by decide +kernel, (pktRing_safe _ _ (by decide +kernel)).mpr (by decide +kernel)⟩

/-- Two packets whose size is rounded to nothing get one place: when the second one is
    freed the offset is found in the map. -/
theorem pktRing_aborts :
    let params : PktRingParams := ⟨0x1c400000, 4194304, by decide, by decide⟩
    let large : PktRingIn := .allocate 0xffffffff
    let freeLarge : PktRingIn := .free ⟨0x1c400040, 0xffffffff⟩
    let inputs := [.allocate 64, large, large, freeLarge, freeLarge]
    (pktTrace params).Admits PktTrace.Permits inputs ∧
      ((pktTrace params).run inputs).2.aborted = true :=
  ⟨by decide +kernel, by decide +kernel⟩

end Pspin
