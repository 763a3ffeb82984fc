import Pspin.Clocked.ByteLanes
import Pspin.VerilatorModel.AxiDriver

/-! # Writes of the AXI master

`AXIMaster::write` queues the bursts of a transfer and their data beats.  What the beats do is
what a memory on the bus makes of them: a strobed lane changes the byte it stands for in the
line of its beat.

A burst of beats of the whole bus strobes the bytes of the transfer and no others.  A single
beat strobes the lanes up to the end of its size, zeros behind the bytes, unless they end there.
-/

namespace Pspin

open Clocked

/-- `axi_w_beat_t`, with the lanes whose bit in `w_strb` is set -/
structure WBeat where
  wData : Nat → BitVec 8
  wStrb : Nat → Bool
  wLast : Bool

/-- What `AXIMaster::write` puts into the queues: the bursts of the entry of `write_queue`, the
    AW beats and the W beats. -/
structure AxiWrite where
  nBursts : Nat
  awPending : List AxBeat
  wPending : List WBeat

/-! ## The beats -/

section Beats

variable (bs : BeatAndSize) (data : Nat → BitVec 8) (start : Nat)

def beatSize (iBeat : Nat) : Nat := min (bs.upper iBeat - bs.lower iBeat) bs.nBytes

/-- A W beat, filled from the data at `start + burst_bytes_written`. -/
def wBeat (iBeat burstBytesWritten : Nat) : WBeat where
  wData lane :=
    if bs.lower iBeat ≤ lane ∧ lane < bs.lower iBeat + beatSize bs iBeat then
      data (start + burstBytesWritten + (lane - bs.lower iBeat))
    else 0
  wStrb lane := decide (bs.lower iBeat ≤ lane ∧ lane < bs.upper iBeat ∧ burstBytesWritten < bs.nBytes)
  wLast := decide (iBeat = bs.beat.axLen)

/-- The loop over the beats of a burst, by the beats that are left, with `burst_bytes_written`. -/
def burstBeats : Nat → Nat → Nat → List WBeat × Nat
  | 0, _, written => ([], written)
  | left + 1, iBeat, written =>
    let (beats, total) := burstBeats left (iBeat + 1) (written + beatSize bs iBeat)
    (wBeat bs data start iBeat written :: beats, total)

end Beats

/-- The loop over the bursts, with `bytes_written`. -/
def writeBursts (data : Nat → BitVec 8) (offset : Nat) :
    List BeatAndSize → Nat → List WBeat × Nat
  | [], written => ([], written)
  | bs :: bursts, written =>
    let (beats, burstBytes) := burstBeats bs data (offset + written) (bs.beat.axLen + 1) 0 0
    let (rest, total) := writeBursts data offset bursts (written + burstBytes)
    (beats ++ rest, total)

/-- `AXIMaster::write`, unless its assertion fails. -/
def axiMasterWrite (addr : Nat) (data : Nat → BitVec 8) (nBytes offset : Nat) : Option AxiWrite := do
  let awBeats ← createAxBeats (nBytes + 1) addr nBytes
  let (wPending, bytesWritten) := writeBursts data offset awBeats 0
  if bytesWritten = nBytes then some ⟨awBeats.length, awBeats.map BeatAndSize.beat, wPending⟩
  else none

/-! ## What a memory makes of them -/

/-- The address of a beat of an incrementing burst. -/
def incrAddr (ax : AxBeat) (i : Nat) : Nat :=
  if i = 0 then ax.axAddr else ax.axAddr / 2 ^ ax.axSize * 2 ^ ax.axSize + i * 2 ^ ax.axSize

def applyBeats (ax : AxBeat) : Nat → List WBeat → ByteMem → ByteMem
  | _, [], mem => mem
  | i, beat :: beats, mem =>
    applyBeats ax (i + 1) beats (mem.writeBeat axiSw (incrAddr ax i) beat.wData beat.wStrb)

/-- Every burst has as many of the beats as its length says. -/
def applyBursts : List AxBeat → List WBeat → ByteMem → ByteMem
  | [], _, mem => mem
  | ax :: bursts, beats, mem =>
    applyBursts bursts (beats.drop (ax.axLen + 1))
      (applyBeats ax 0 (beats.take (ax.axLen + 1)) mem)

/-- The last beat of every burst and no other. -/
def lastBeats (bursts : List AxBeat) : List Bool :=
  bursts.flatMap fun ax => List.replicate ax.axLen false ++ [true]

/-- The write stores its bytes and changes no others, and marks the last beats of its bursts. -/
def WritesExactly (addr nBytes offset : Nat) (data : Nat → BitVec 8) : Prop :=
  ∃ write, axiMasterWrite addr data nBytes offset = some write ∧
    (∀ mem, applyBursts write.awPending write.wPending mem =
      mem.storeRun addr nBytes fun i => data (offset + i)) ∧
    write.wPending.map WBeat.wLast = lastBeats write.awPending

/-- Its bytes in the last page are in more than one line, or end where a beat of a power of two of
    bytes, no less than theirs, ends. -/
def EndsOnBeat (addr nBytes : Nat) : Prop :=
  let last := max addr ((addr + nBytes - 1) / 4096 * 4096)
  last < (addr + nBytes - 1) / axiSw * axiSw ∨
    ∃ size ≤ Nat.log2 axiSw, addr + nBytes - last ≤ 2 ^ size ∧ 2 ^ size ∣ addr + nBytes

section Bursts

variable {bs : BeatAndSize} {data : Nat → BitVec 8} {mem : ByteMem}
  {addr nBytes start written left iBeat axLen size offset : Nat}

/-- A beat stores a run from its address on, zeros behind the bytes of the burst. -/
theorem writeBeat_wBeat (lanes : bs.upper iBeat ≤ axiSw) (more : written < bs.nBytes)
    (within : bs.lower iBeat ≤ bs.upper iBeat) :
    mem.writeBeat axiSw (incrAddr bs.beat iBeat) (wBeat bs data start iBeat written).wData
      (wBeat bs data start iBeat written).wStrb =
    mem.storeRun (incrAddr bs.beat iBeat) (bs.upper iBeat - bs.lower iBeat) fun i =>
      if i < beatSize bs iBeat then data (start + written + i) else 0 := by
  have lane : incrAddr bs.beat iBeat % axiSw = bs.lower iBeat := by
    show incrAddr bs.beat iBeat % axiSw =
      incrAddr bs.beat iBeat - incrAddr bs.beat iBeat / axiSw * axiSw
    have split := Nat.div_add_mod (incrAddr bs.beat iBeat) axiSw
    rw [Nat.mul_comm] at split
    omega
  refine ByteMem.writeBeat_eq_storeRun (by decide) ?_ ?_ ?_
  · rw [lane]
    omega
  · intro lane' _
    rw [lane, wBeat, decide_eq_true_iff]
    omega
  · intro i inside
    rw [lane, wBeat]
    have less : bs.lower iBeat ≤ bs.lower iBeat + i := Nat.le_add_right _ _
    simp only [less, true_and, Nat.add_lt_add_iff_left, Nat.add_sub_cancel_left]

/-! ### The loop over the beats -/

theorem burstBeats_succ : burstBeats bs data start (left + 1) iBeat written =
    (wBeat bs data start iBeat written ::
        (burstBeats bs data start left (iBeat + 1) (written + beatSize bs iBeat)).1,
      (burstBeats bs data start left (iBeat + 1) (written + beatSize bs iBeat)).2) := rfl

theorem length_burstBeats : (burstBeats bs data start left iBeat written).1.length = left := by
  induction left generalizing iBeat written with
  | zero => rfl
  | succ left inductionHypothesis =>
    rw [burstBeats_succ, List.length_cons, inductionHypothesis]

theorem map_wLast_burstBeats (count : left + iBeat = bs.beat.axLen + 1) (some_ : 0 < left) :
    (burstBeats bs data start left iBeat written).1.map WBeat.wLast =
      List.replicate (left - 1) false ++ [true] := by
  induction left generalizing iBeat written with
  | zero => omega
  | succ left inductionHypothesis =>
    rw [burstBeats_succ, List.map_cons]
    cases left with
    | zero =>
      have last : iBeat = bs.beat.axLen := by omega
      simp [burstBeats, wBeat, last]
    | succ left =>
      have notLast : iBeat ≠ bs.beat.axLen := by omega
      rw [inductionHypothesis (by omega) (by omega)]
      simp [wBeat, notLast, List.replicate_succ]

/-- The bytes of a burst before a beat of the whole bus. -/
def bytesBefore (addr nBytes iBeat : Nat) : Nat := min (iBeat * axiSw - addr % axiSw) nBytes

/-- A beat of the whole bus starts where the one before it ended. -/
theorem wide_beat (lines : axiSw < addr % axiSw + nBytes)
    (len : axLen = (addr % axiSw + nBytes - 1) / axiSw) (inside : iBeat ≤ axLen) :
    bytesBefore addr nBytes iBeat < nBytes ∧
      incrAddr ⟨addr, axLen, 6⟩ iBeat = addr + bytesBefore addr nBytes iBeat ∧
      beatUpperByte ⟨addr, axLen, 6⟩ iBeat nBytes ≤ axiSw ∧
      beatUpperByte ⟨addr, axLen, 6⟩ iBeat nBytes = beatLowerByte ⟨addr, axLen, 6⟩ iBeat +
        (bytesBefore addr nBytes (iBeat + 1) - bytesBefore addr nBytes iBeat) := by
  have lane := Nat.mod_lt addr (show 0 < axiSw by decide)
  have line := Nat.div_add_mod addr axiSw
  have address : incrAddr ⟨addr, axLen, 6⟩ iBeat =
      if iBeat = 0 then addr else addr / axiSw * axiSw + iBeat * axiSw := rfl
  rw [wide_lower, wide_upper, address]
  unfold bytesBefore axiSw at *
  refine ⟨?_, ?_, ?_, ?_⟩
  · omega
  · split <;> omega
  · split
    · omega
    · split <;> omega
  · split
    · omega
    · split <;> omega

theorem bytesBefore_mono : bytesBefore addr nBytes iBeat ≤ bytesBefore addr nBytes (iBeat + 1) := by
  unfold bytesBefore axiSw
  omega

theorem bytesBefore_all (len : axLen = (addr % axiSw + nBytes - 1) / axiSw) :
    bytesBefore addr nBytes (axLen + 1) = nBytes := by
  unfold bytesBefore axiSw at *
  omega

/-- The bytes of a beat of the whole bus are those up to the next one. -/
theorem wide_run (lines : axiSw < addr % axiSw + nBytes)
    (len : axLen = (addr % axiSw + nBytes - 1) / axiSw) (inside : iBeat ≤ axLen) :
    BeatAndSize.upper ⟨⟨addr, axLen, 6⟩, nBytes⟩ iBeat -
        BeatAndSize.lower ⟨⟨addr, axLen, 6⟩, nBytes⟩ iBeat =
          bytesBefore addr nBytes (iBeat + 1) - bytesBefore addr nBytes iBeat := by
  obtain ⟨-, -, -, upper⟩ := wide_beat lines len inside
  rw [BeatAndSize.upper, BeatAndSize.lower, upper, Nat.add_sub_cancel_left]

theorem wide_beatSize (lines : axiSw < addr % axiSw + nBytes)
    (len : axLen = (addr % axiSw + nBytes - 1) / axiSw) (inside : iBeat ≤ axLen) :
    beatSize ⟨⟨addr, axLen, 6⟩, nBytes⟩ iBeat =
      bytesBefore addr nBytes (iBeat + 1) - bytesBefore addr nBytes iBeat := by
  have bound : bytesBefore addr nBytes (iBeat + 1) ≤ nBytes := Nat.min_le_right _ _
  rw [beatSize, wide_run lines len inside]
  exact Nat.min_eq_left (Nat.le_trans (Nat.sub_le _ _) bound)

theorem wide_stores (data : Nat → BitVec 8) (start : Nat) (lines : axiSw < addr % axiSw + nBytes)
    (len : axLen = (addr % axiSw + nBytes - 1) / axiSw) (inside : iBeat ≤ axLen) (mem : ByteMem) :
    mem.writeBeat axiSw (incrAddr ⟨addr, axLen, 6⟩ iBeat)
        (wBeat ⟨⟨addr, axLen, 6⟩, nBytes⟩ data start iBeat (bytesBefore addr nBytes iBeat)).wData
        (wBeat ⟨⟨addr, axLen, 6⟩, nBytes⟩ data start iBeat (bytesBefore addr nBytes iBeat)).wStrb =
      mem.storeRun (addr + bytesBefore addr nBytes iBeat)
        (bytesBefore addr nBytes (iBeat + 1) - bytesBefore addr nBytes iBeat)
        fun i => data (start + bytesBefore addr nBytes iBeat + i) := by
  obtain ⟨more, address, lanes, upper⟩ := wide_beat lines len inside
  have within : BeatAndSize.lower ⟨⟨addr, axLen, 6⟩, nBytes⟩ iBeat ≤
      BeatAndSize.upper ⟨⟨addr, axLen, 6⟩, nBytes⟩ iBeat := by
    rw [BeatAndSize.upper, upper]
    exact Nat.le_add_right _ _
  have inBus : BeatAndSize.upper ⟨⟨addr, axLen, 6⟩, nBytes⟩ iBeat ≤ axiSw := lanes
  refine (writeBeat_wBeat inBus more within).trans ?_
  rw [wide_run lines len inside, wide_beatSize lines len inside, address]
  refine ByteMem.storeRun_congr fun i inside => ?_
  rw [if_pos inside]

/-- Beats of the whole bus store the bytes one after another. -/
theorem wide_burstBeats (data : Nat → BitVec 8) (start : Nat) (lines : axiSw < addr % axiSw + nBytes)
    (len : axLen = (addr % axiSw + nBytes - 1) / axiSw) (count : left + iBeat = axLen + 1) :
    (burstBeats ⟨⟨addr, axLen, 6⟩, nBytes⟩ data start left iBeat
        (bytesBefore addr nBytes iBeat)).2 = nBytes ∧
      ∀ mem, applyBeats ⟨addr, axLen, 6⟩ iBeat (burstBeats ⟨⟨addr, axLen, 6⟩, nBytes⟩ data start left
        iBeat (bytesBefore addr nBytes iBeat)).1 mem =
          mem.storeRun (addr + bytesBefore addr nBytes iBeat)
            (nBytes - bytesBefore addr nBytes iBeat)
            fun i => data (start + bytesBefore addr nBytes iBeat + i) := by
  induction left generalizing iBeat with
  | zero =>
    obtain rfl : iBeat = axLen + 1 := by omega
    rw [bytesBefore_all len]
    refine ⟨rfl, fun mem => ?_⟩
    rw [Nat.sub_self, ByteMem.storeRun_zero]
    rfl
  | succ left inductionHypothesis =>
    have inside : iBeat ≤ axLen := by omega
    obtain ⟨total, effect⟩ := inductionHypothesis (show left + (iBeat + 1) = axLen + 1 by omega)
    have grows : bytesBefore addr nBytes iBeat ≤ bytesBefore addr nBytes (iBeat + 1) :=
      bytesBefore_mono
    have bound : bytesBefore addr nBytes (iBeat + 1) ≤ nBytes := Nat.min_le_right _ _
    have next : bytesBefore addr nBytes iBeat + beatSize ⟨⟨addr, axLen, 6⟩, nBytes⟩ iBeat =
        bytesBefore addr nBytes (iBeat + 1) := by
      rw [wide_beatSize lines len inside]
      omega
    have joined : addr + bytesBefore addr nBytes (iBeat + 1) =
        addr + bytesBefore addr nBytes iBeat +
          (bytesBefore addr nBytes (iBeat + 1) - bytesBefore addr nBytes iBeat) := by omega
    have rest : nBytes - bytesBefore addr nBytes iBeat =
        bytesBefore addr nBytes (iBeat + 1) - bytesBefore addr nBytes iBeat +
          (nBytes - bytesBefore addr nBytes (iBeat + 1)) := by omega
    rw [burstBeats_succ, next]
    refine ⟨total, fun mem => ?_⟩
    rw [applyBeats, effect, wide_stores data start lines len inside, joined, rest,
      ← ByteMem.storeRun_append]
    congr 1
    funext i
    congr 1
    omega

/-! ### One burst -/

/-- The bytes behind a burst that its last beat strobes too. -/
def slack (addr nBytes : Nat) : Nat :=
  if addr % axiSw + nBytes ≤ axiSw then
    axiAlignedAddress addr (pageBurst addr nBytes).beat.axSize +
      2 ^ (pageBurst addr nBytes).beat.axSize - (addr + nBytes)
  else 0

/-- A single beat stores the bytes, and zeros up to its end. -/
theorem narrow_writes (data : Nat → BitVec 8) (start : Nat) (positive : 0 < nBytes)
    (narrow : NarrowSize addr nBytes size) :
    beatSize ⟨⟨addr, 0, size⟩, nBytes⟩ 0 = nBytes ∧ ∀ mem : ByteMem,
      mem.writeBeat axiSw (incrAddr ⟨addr, 0, size⟩ 0)
          (wBeat ⟨⟨addr, 0, size⟩, nBytes⟩ data start 0 0).wData
          (wBeat ⟨⟨addr, 0, size⟩, nBytes⟩ data start 0 0).wStrb =
        mem.storeRun addr
          (nBytes + (axiAlignedAddress addr size + 2 ^ size - (addr + nBytes)))
          fun i => if i < nBytes then data (start + i) else 0 := by
  have holds := narrow.holds
  unfold SizeHolds at holds
  have last : axiAlignedAddress addr size + 2 ^ size ≤ addr / axiSw * axiSw + axiSw :=
    aligned_le_line narrow.small
  have run : BeatAndSize.upper ⟨⟨addr, 0, size⟩, nBytes⟩ 0 -
      BeatAndSize.lower ⟨⟨addr, 0, size⟩, nBytes⟩ 0 =
        nBytes + (axiAlignedAddress addr size + 2 ^ size - (addr + nBytes)) := by
    refine (lane_bounds narrow.small).trans ?_
    omega
  have whole : beatSize ⟨⟨addr, 0, size⟩, nBytes⟩ 0 = nBytes := by
    rw [beatSize, run]
    exact Nat.min_eq_right (Nat.le_add_right _ _)
  have lanes : BeatAndSize.upper ⟨⟨addr, 0, size⟩, nBytes⟩ 0 ≤ axiSw := by
    show axiAlignedAddress addr size + 2 ^ size - addr / axiSw * axiSw ≤ axiSw
    omega
  have within : BeatAndSize.lower ⟨⟨addr, 0, size⟩, nBytes⟩ 0 ≤
      BeatAndSize.upper ⟨⟨addr, 0, size⟩, nBytes⟩ 0 := by omega
  refine ⟨whole, fun mem => (writeBeat_wBeat lanes positive within).trans ?_⟩
  rw [run, whole]
  rfl

theorem pageBurst_writes (addr : Nat) (data : Nat → BitVec 8) (start : Nat) (positive : 0 < nBytes) :
    (burstBeats (pageBurst addr nBytes) data start ((pageBurst addr nBytes).beat.axLen + 1) 0 0).2 =
        nBytes ∧
      ∀ mem, applyBeats (pageBurst addr nBytes).beat 0 (burstBeats (pageBurst addr nBytes) data start
        ((pageBurst addr nBytes).beat.axLen + 1) 0 0).1 mem =
          mem.storeRun addr (nBytes + slack addr nBytes)
            fun i => if i < nBytes then data (start + i) else 0 := by
  by_cases line : addr % axiSw + nBytes ≤ axiSw
  · obtain ⟨size, narrow, same⟩ := pageBurst_narrow positive line
    obtain ⟨whole, stored⟩ := narrow_writes data start positive narrow
    rw [slack, if_pos line, same]
    refine ⟨?_, stored⟩
    show 0 + beatSize ⟨⟨addr, 0, size⟩, nBytes⟩ 0 = nBytes
    rw [whole, Nat.zero_add]
  · have lines : axiSw < addr % axiSw + nBytes := Nat.not_le.mp line
    have lane := Nat.mod_lt addr (show 0 < axiSw by decide)
    have none_ : bytesBefore addr nBytes 0 = 0 := by
      unfold bytesBefore
      omega
    have beats := wide_burstBeats data start lines rfl (Nat.add_zero _)
    rw [none_] at beats
    rw [slack, if_neg line, pageBurst_wide lines]
    refine ⟨beats.1, fun mem => (beats.2 mem).trans ?_⟩
    rw [Nat.add_zero, Nat.add_zero, Nat.sub_zero]
    refine ByteMem.storeRun_congr fun i inside => ?_
    rw [if_pos inside]

/-- The first multiple behind an address is at most any other one behind it. -/
theorem aligned_le_of_dvd {bound : Nat} (behind : addr < bound) (multiple : 2 ^ size ∣ bound) :
    axiAlignedAddress addr size + 2 ^ size ≤ bound := by
  obtain ⟨count, rfl⟩ := multiple
  have before : addr / 2 ^ size < count :=
    (Nat.div_lt_iff_lt_mul (Nat.two_pow_pos size)).mpr (by rwa [Nat.mul_comm])
  calc axiAlignedAddress addr size + 2 ^ size = (addr / 2 ^ size + 1) * 2 ^ size := by
        rw [Nat.add_mul, Nat.one_mul]
        rfl
    _ ≤ count * 2 ^ size := Nat.mul_le_mul_right _ before
    _ = 2 ^ size * count := Nat.mul_comm _ _

/-- A size whose multiple ends the bytes holds them if it is no less than their number. -/
theorem sizeHolds_of_dvd (few : nBytes ≤ 2 ^ size) (multiple : 2 ^ size ∣ addr + nBytes) :
    SizeHolds addr nBytes size := by
  obtain ⟨count, ends⟩ := multiple
  have within : count ≤ addr / 2 ^ size + 1 := by
    rw [← Nat.sub_le_iff_le_add, Nat.le_div_iff_mul_le (Nat.two_pow_pos size), Nat.sub_mul,
      Nat.one_mul, Nat.mul_comm count, ← ends]
    omega
  calc addr + nBytes = count * 2 ^ size := by rw [ends, Nat.mul_comm]
    _ ≤ (addr / 2 ^ size + 1) * 2 ^ size := Nat.mul_le_mul_right _ within
    _ = axiAlignedAddress addr size + 2 ^ size := by
        rw [Nat.add_mul, Nat.one_mul]
        rfl

/-- There is no such byte if there are beats of the whole bus, or a power of two of bytes that
    holds the burst ends with it. -/
theorem slack_eq_zero_iff (positive : 0 < nBytes) : slack addr nBytes = 0 ↔
    axiSw < addr % axiSw + nBytes ∨
      ∃ size ≤ Nat.log2 axiSw, nBytes ≤ 2 ^ size ∧ 2 ^ size ∣ addr + nBytes := by
  rw [log2_axiSw]
  by_cases line : addr % axiSw + nBytes ≤ axiSw
  · obtain ⟨size, narrow, same⟩ := pageBurst_narrow positive line
    rw [slack, if_pos line, same]
    have holds := narrow.holds
    unfold SizeHolds at holds
    have below := axiAlignedAddress_le addr size
    constructor
    · intro none_
      have ends : addr + nBytes = axiAlignedAddress addr size + 2 ^ size := by
        simp only at none_
        omega
      refine .inr ⟨size, narrow.small, by omega, ?_⟩
      rw [ends]
      exact Nat.dvd_add (Nat.dvd_mul_left _ _) (Nat.dvd_refl _)
    · rintro (lines | ⟨other, -, few, multiple⟩)
      · omega
      · -- the size is the least that holds the bytes
        have above : Nat.log2 nBytes ≤ other := by
          have := (Nat.log2_self_le positive.ne').trans few
          exact (Nat.pow_le_pow_iff_right (by decide)).mp this
        have least : size ≤ other := by
          by_contra more
          exact narrow.least other above (Nat.not_le.mp more) (sizeHolds_of_dvd few multiple)
        have ends := aligned_le_of_dvd (show addr < addr + nBytes by omega)
          ((Nat.pow_dvd_pow 2 least).trans multiple)
        exact Nat.sub_eq_zero_of_le ends
  · rw [slack, if_neg line]
    exact ⟨fun _ => .inl (Nat.not_le.mp line), fun _ => rfl⟩

/-- A burst up to the end of its page has none. -/
theorem slack_page (positive : 0 < nBytes) (ends : 4096 ∣ addr + nBytes) : slack addr nBytes = 0 := by
  rw [slack_eq_zero_iff positive]
  by_cases line : addr % axiSw + nBytes ≤ axiSw
  · refine .inr ⟨6, by decide, ?_, Nat.dvd_trans (by decide) ends⟩
    show nBytes ≤ axiSw
    omega
  · exact .inl (Nat.not_le.mp line)

/-! ### All bursts -/

/-- The first byte of the last page. -/
def lastPage (addr nBytes : Nat) : Nat := max addr ((addr + nBytes - 1) / 4096 * 4096)

theorem endsOnBeat_iff (positive : 0 < nBytes) : EndsOnBeat addr nBytes ↔
    slack (lastPage addr nBytes) (addr + nBytes - lastPage addr nBytes) = 0 := by
  have inside : lastPage addr nBytes < addr + nBytes := by
    unfold lastPage
    omega
  have ends : lastPage addr nBytes + (addr + nBytes - lastPage addr nBytes) = addr + nBytes := by omega
  rw [slack_eq_zero_iff (by omega), ends]
  have lines : axiSw < lastPage addr nBytes % axiSw + (addr + nBytes - lastPage addr nBytes) ↔
      lastPage addr nBytes < (addr + nBytes - 1) / axiSw * axiSw := by
    generalize lastPage addr nBytes = first at *
    unfold axiSw
    omega
  rw [lines]
  rfl

theorem applyBursts_append {beats rest : List WBeat} {ax : AxBeat} {bursts : List AxBeat}
    (length : beats.length = ax.axLen + 1) : applyBursts (ax :: bursts) (beats ++ rest) mem =
      applyBursts bursts rest (applyBeats ax 0 beats mem) := by
  rw [applyBursts, List.take_left' length, List.drop_left' length]

/-- The slack of the last burst of a transfer. -/
def tailSlack (addr nBytes : Nat) : Nat :=
  if nBytes = 0 then 0 else slack (lastPage addr nBytes) (addr + nBytes - lastPage addr nBytes)

/-- A transfer in one page has the slack of its burst, any other one that of the other pages. -/
theorem tailSlack_page (addr : Nat) (positive : 0 < nBytes) :
    slack addr (bytesInPage addr nBytes) +
        tailSlack (addr + bytesInPage addr nBytes) (nBytes - bytesInPage addr nBytes) =
      tailSlack addr nBytes ∧
    (bytesInPage addr nBytes < nBytes → slack addr (bytesInPage addr nBytes) = 0) := by
  by_cases page : addr % 4096 + nBytes ≤ 4096
  · have whole : bytesInPage addr nBytes = nBytes := by
      unfold bytesInPage
      omega
    have first : lastPage addr nBytes = addr := by
      unfold lastPage
      omega
    rw [whole, Nat.sub_self, tailSlack, if_pos rfl, tailSlack, if_neg positive.ne', first,
      Nat.add_sub_cancel_left]
    exact ⟨rfl, fun less => absurd less (Nat.lt_irrefl _)⟩
  · have part : bytesInPage addr nBytes = 4096 - addr % 4096 := by
      unfold bytesInPage
      omega
    have last : lastPage (addr + bytesInPage addr nBytes) (nBytes - bytesInPage addr nBytes) =
        lastPage addr nBytes := by
      rw [part]
      unfold lastPage
      omega
    have ends : addr + bytesInPage addr nBytes + (nBytes - bytesInPage addr nBytes) =
        addr + nBytes := by omega
    have full : slack addr (bytesInPage addr nBytes) = 0 := slack_page (by omega) (by omega)
    rw [full, Nat.zero_add, tailSlack, if_neg (by omega), tailSlack, if_neg positive.ne', last, ends]
    exact ⟨rfl, fun _ => rfl⟩

/-- The bursts of a transfer store its bytes one after another, and zeros in the slack of the
    last one. -/
theorem axBursts_writes (data : Nat → BitVec 8) (offset addr nBytes : Nat) : ∀ written mem,
    (writeBursts data offset (axBursts addr nBytes) written).2 = written + nBytes ∧
      applyBursts ((axBursts addr nBytes).map BeatAndSize.beat)
        (writeBursts data offset (axBursts addr nBytes) written).1 mem =
          mem.storeRun addr (nBytes + tailSlack addr nBytes)
            fun i => if i < nBytes then data (offset + written + i) else 0 := by
  induction addr, nBytes using axBursts.induct with
  | case1 addr =>
    intro written mem
    rw [axBursts_zero, tailSlack, if_pos rfl, Nat.add_zero, ByteMem.storeRun_zero]
    exact ⟨rfl, rfl⟩
  | case2 addr nBytes some_ inductionHypothesis =>
    intro written mem
    have positive : 0 < nBytes := Nat.pos_of_ne_zero some_
    have inside : bytesInPage addr nBytes ≤ nBytes := Nat.min_le_left _ _
    have some' : 0 < bytesInPage addr nBytes := by
      unfold bytesInPage
      omega
    obtain ⟨tail, full⟩ := tailSlack_page addr positive
    obtain ⟨total, effect⟩ := pageBurst_writes addr data (offset + written) some'
    obtain ⟨total', effect'⟩ := inductionHypothesis (written + bytesInPage addr nBytes)
      (mem.storeRun addr (bytesInPage addr nBytes + slack addr (bytesInPage addr nBytes))
        fun i => if i < bytesInPage addr nBytes then data (offset + written + i) else 0)
    rw [axBursts, if_neg some_]
    simp only [writeBursts, List.map_cons]
    rw [total, applyBursts_append length_burstBeats, effect, effect']
    refine ⟨by rw [total']; omega, ?_⟩
    obtain less | same := Nat.lt_or_eq_of_le inside
    · have behind : tailSlack addr nBytes =
          tailSlack (addr + bytesInPage addr nBytes) (nBytes - bytesInPage addr nBytes) := by
        rw [← tail, full less, Nat.zero_add]
      have start : offset + (written + bytesInPage addr nBytes) =
          offset + written + bytesInPage addr nBytes := (Nat.add_assoc _ _ _).symm
      rw [full less, Nat.add_zero, behind, start]
      exact ByteMem.storeRun_padded inside
    · rw [same, Nat.sub_self, tailSlack, if_pos rfl, Nat.add_zero] at tail
      rw [same, Nat.sub_self, tailSlack, if_pos rfl, Nat.add_zero, ByteMem.storeRun_zero, tail]

theorem axBursts_marks (addr nBytes : Nat) : ∀ written,
    (writeBursts data offset (axBursts addr nBytes) written).1.map WBeat.wLast =
      lastBeats ((axBursts addr nBytes).map BeatAndSize.beat) := by
  induction axBursts addr nBytes with
  | nil => exact fun _ => rfl
  | cons bs bursts inductionHypothesis =>
    intro written
    simp only [writeBursts, List.map_cons, List.map_append, lastBeats, List.flatMap_cons]
    rw [map_wLast_burstBeats (Nat.add_zero _) (Nat.succ_pos _), Nat.add_sub_cancel, inductionHypothesis]
    rfl

/-- The write never fails its assertion. -/
theorem axiMasterWrite_eq (addr nBytes offset : Nat) (data : Nat → BitVec 8) :
    axiMasterWrite addr data nBytes offset =
      some ⟨(axBursts addr nBytes).length, (axBursts addr nBytes).map BeatAndSize.beat,
        (writeBursts data offset (axBursts addr nBytes) 0).1⟩ := by
  obtain ⟨total, -⟩ := axBursts_writes data offset addr nBytes 0 fun _ => 0
  rw [Nat.zero_add] at total
  rw [axiMasterWrite, createAxBeats_eq (Nat.lt_succ_self _), Option.bind_eq_bind, Option.bind_some]
  simp only [total, if_true]

end Bursts

/-- A write stores its bytes, changes no others and marks the last beat of every burst exactly if
    its bytes in the last page are in more than one line or end where a beat ends that is no
    shorter than they are. -/
theorem axiMasterWrite_exact_iff (addr nBytes offset : Nat) (data : Nat → BitVec 8)
    (positive : 0 < nBytes) : WritesExactly addr nBytes offset data ↔ EndsOnBeat addr nBytes := by
  have effect (mem : ByteMem) := (axBursts_writes data offset addr nBytes 0 mem).2
  have tail : tailSlack addr nBytes = 0 ↔ EndsOnBeat addr nBytes := by
    rw [tailSlack, if_neg positive.ne', endsOnBeat_iff positive]
  rw [← tail, WritesExactly, axiMasterWrite_eq]
  simp only [Option.some.injEq, exists_eq_left', effect]
  constructor
  · rintro ⟨exact_, -⟩
    by_contra more
    -- a memory of ones, in which the first strobed byte behind the transfer becomes zero
    have there := congrFun (exact_ fun _ => 1) (addr + nBytes)
    have inside : addr ≤ addr + nBytes ∧ addr + nBytes < addr + (nBytes + tailSlack addr nBytes) := by
      omega
    have outside : ¬(addr ≤ addr + nBytes ∧ addr + nBytes < addr + nBytes) := by omega
    have behind : ¬addr + nBytes - addr < nBytes := by omega
    simp only [ByteMem.storeRun, if_pos inside, if_neg outside, if_neg behind] at there
    exact absurd there (by decide)
  · intro none_
    refine ⟨fun mem => ?_, axBursts_marks addr nBytes 0⟩
    rw [none_, Nat.add_zero]
    refine ByteMem.storeRun_congr fun i inside => ?_
    rw [if_pos inside, Nat.add_zero]

theorem axiMasterWrite_exact_iff_unaligned :
    WritesExactly 4090 80 0 (BitVec.ofNat 8) ↔ EndsOnBeat 4090 80 :=
  axiMasterWrite_exact_iff 4090 80 0 (BitVec.ofNat 8) (by decide)

/-- Three bytes at address 0: the beat of four bytes clears the fourth one. -/
theorem axiMasterWrite_clears : ¬WritesExactly 0 3 0 fun _ => 1 := by
  rintro ⟨write, written, exact_, -⟩
  rw [axiMasterWrite_eq] at written
  obtain rfl := Option.some.inj written
  have bursts : axBursts 0 3 = [⟨⟨0, 0, 2⟩, 3⟩] :=
    (axBursts_page (by decide) (by decide)).trans (by decide)
  have fourth := congrFun (exact_ fun _ => 1) 3
  rw [bursts] at fourth
  revert fourth
  decide

end Pspin
