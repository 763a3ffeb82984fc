import Mathlib.Data.List.Range
import Pspin.Clocked.Fallible
import Pspin.Clocked.Segments
import Pspin.VerilatorModel.AxiMasterWrite

/-! # Writes to the host

`AXISlave` takes the beats of write bursts and gives every beat an address: that of its burst and
the number of bytes that the beats before it strobed.  `PCIeSlave` delays the beats and calls back
with the strobed bytes, at the address of the beat and the index of the first strobed lane.

The bursts are those of a DMA engine: they start at a line of the bus and strobe the bytes of a
range of addresses, so that only the first lanes of the first beat and the last lanes of the last
beat are left out.
-/

namespace Pspin

open Clocked

/-- `__builtin_popcount` of 32 of the lanes. -/
def popcount (lanes : Nat → Bool) : Nat := (List.range 32).countP lanes

/-- `__builtin_ffsl` -/
def ffsl (lanes : Nat → Bool) : Nat :=
  match (List.range axiSw).find? lanes with
  | none => 0
  | some lane => lane + 1

/-- `axi_ax_beat_t` at the slave, with the bytes received so far. -/
structure AwBeat where
  axAddr : Nat
  offset : Nat

/-- `w_beat_request_t` -/
structure WBeatRequest where
  addr : Nat
  dataSize : Nat
  wBeat : WBeat

/-- A call of `slv_write_cb`. -/
structure SlvWrite where
  addr : Nat
  data : Nat → BitVec 8
  size : Nat

/-- What `progress_in_flight_writes` hands over for a beat. -/
def WBeatRequest.slvWrite (req : WBeatRequest) : SlvWrite :=
  let fs := ffsl req.wBeat.wStrb - 1
  ⟨req.addr + fs, fun i => req.wBeat.wData (fs + i), req.dataSize⟩

/-- A burst of a range of bytes: the strobed lanes of its first beat start at `first`, and those of
    its last beat end at `stop`. -/
structure WriteBurst where
  awAddr : Nat
  awLen : Nat
  first : Nat
  stop : Nat
  wData : Nat → Nat → BitVec 8
  len : awLen < 2 ^ 8
  aligned : awAddr % axiSw = 0
  first_lt : first < axiSw
  stop_pos : 0 < stop
  stop_le : stop ≤ axiSw
  single : awLen = 0 → first < stop

namespace WriteBurst

variable (burst : WriteBurst) (iBeat : Nat)

def lower : Nat := if iBeat = 0 then burst.first else 0

def upper : Nat := if iBeat = burst.awLen then burst.stop else axiSw

def beat : WBeat where
  wData := burst.wData iBeat
  wStrb lane := decide (burst.lower iBeat ≤ lane ∧ lane < burst.upper iBeat)
  wLast := decide (iBeat = burst.awLen)

def beats : List WBeat := (List.range (burst.awLen + 1)).map burst.beat

/-- What a memory on the bus makes of the beats of the burst. -/
def applied (mem : ByteMem) : ByteMem :=
  (List.range (burst.awLen + 1)).foldl (fun mem iBeat =>
    mem.writeBeat axiSw (burst.awAddr + iBeat * axiSw) (burst.wData iBeat) (burst.beat iBeat).wStrb) mem

end WriteBurst

/-- The buffers of the slave and the delays of the link. -/
structure PcieSlaveParams where
  awBufferSize : Nat
  wBufferSize : Nat
  bBufferSize : Nat
  pcieL : Nat
  gap : Nat → Nat

/-- The write side of `PCIeSlave` and its `AXISlave`, and of who writes: the bursts that were not
    taken, and the beats of the ones that were.  The calls of `slv_write_cb` are only recorded. -/
structure PcieWrites where
  awBeats : List AwBeat
  wBeatRequests : List WBeatRequest
  awPendingResp : List AwBeat
  bBeats : Nat
  bValid : Bool
  bWait : Bool
  inFlightWriteRequests : List (WBeatRequest × Nat)
  writeWaitCycles : Nat
  awLeft : List WriteBurst
  wLeft : List WBeat
  slvWrites : List SlvWrite

/-- What a cycle depends on: the time, whether an AW and a W beat are offered, and whether a B beat
    is taken. -/
structure PcieSlaveIn where
  simTime : Nat
  awValid : Bool
  wValid : Bool
  bReady : Bool

namespace PcieWrites

def reset (bursts : List WriteBurst) : PcieWrites :=
  ⟨[], [], [], 0, false, false, [], 0, bursts, [], []⟩

variable (params : PcieSlaveParams) (writes : PcieWrites)

def canSendBBeat : Bool := params.bBufferSize = 0 || decide (writes.bBeats < params.bBufferSize)

/-- `progress_in_flight_writes`, unless an assertion fails. -/
def progressInFlightWrites (simTime : Nat) : Option PcieWrites :=
  match writes.inFlightWriteRequests with
  | [] => some writes
  | (req, time) :: inFlight =>
    if time ≤ simTime ∧ writes.canSendBBeat params then
      if ffsl req.wBeat.wStrb = 0 then none
      else
        let writes := { writes with
          inFlightWriteRequests := inFlight, slvWrites := writes.slvWrites ++ [req.slvWrite] }
        if req.wBeat.wLast then
          match writes.awPendingResp with
          | [] => none
          | _ :: awPendingResp =>
            some { writes with awPendingResp := awPendingResp, bBeats := writes.bBeats + 1 }
        else some writes
    else some writes

def awPosedge (awValid : Bool) : PcieWrites :=
  match writes.awLeft with
  | [] => writes
  | burst :: awLeft =>
    if awValid ∧ (params.awBufferSize = 0 ∨ writes.awBeats.length < params.awBufferSize) then
      { writes with
        awBeats := writes.awBeats ++ [⟨burst.awAddr, 0⟩]
        awLeft := awLeft, wLeft := writes.wLeft ++ burst.beats }
    else writes

/-- `w_posedge`, unless its assertion fails. -/
def wPosedge (wValid : Bool) : Option PcieWrites :=
  match writes.wLeft with
  | [] => some writes
  | wBeat :: wLeft =>
    if wValid ∧ (params.wBufferSize = 0 ∨ writes.wBeatRequests.length < params.wBufferSize) then
      match writes.awBeats with
      | [] => none
      | aw :: awBeats =>
        let dataSize := popcount wBeat.wStrb + popcount fun lane => wBeat.wStrb (32 + lane)
        let req : WBeatRequest := ⟨aw.axAddr + aw.offset, dataSize, wBeat⟩
        let aw := { aw with offset := (aw.offset + dataSize) % 2 ^ 32 }
        let writes := { writes with
          wLeft := wLeft, wBeatRequests := writes.wBeatRequests ++ [req] }
        if wBeat.wLast then
          some { writes with awBeats := awBeats, awPendingResp := writes.awPendingResp ++ [aw] }
        else some { writes with awBeats := aw :: awBeats }
    else some writes

def bPosedge : PcieWrites :=
  if writes.bWait then writes
  else if writes.bBeats = 0 then { writes with bValid := false }
  else { writes with bValid := true, bBeats := writes.bBeats - 1 }

def progressNewWrites (simTime : Nat) : PcieWrites :=
  let waiting := writes.writeWaitCycles - 1
  let writes := { writes with writeWaitCycles := waiting }
  if waiting > 0 then writes
  else
    match writes.wBeatRequests with
    | [] => writes
    | req :: wBeatRequests =>
      { writes with
        wBeatRequests := wBeatRequests
        inFlightWriteRequests := writes.inFlightWriteRequests ++ [(req, simTime + params.pcieL)]
        writeWaitCycles := params.gap req.dataSize }

/-- `posedge` and `negedge`, as far as writes are concerned. -/
def cycle (inp : PcieSlaveIn) : Option PcieWrites := do
  let writes ← writes.progressInFlightWrites params inp.simTime
  let writes ← (writes.awPosedge params inp.awValid).wPosedge params inp.wValid
  let writes := writes.bPosedge.progressNewWrites params inp.simTime
  some { writes with bWait := writes.bValid && !inp.bReady }

end PcieWrites

/-- The slave while it is sent the bursts, until an assertion fails. -/
def pcieWrites (params : PcieSlaveParams) (bursts : List WriteBurst) :
    Machine (Option PcieWrites) PcieSlaveIn :=
  Machine.failing (PcieWrites.reset bursts) fun writes inp => writes.cycle params inp

/-! ## The requests of a burst -/

/-- What the slave makes of the beats, from the bursts it has taken. -/
def requestsOf : List AwBeat → List WBeat → List WBeatRequest
  | _, [] => []
  | [], _ => []
  | aw :: awBeats, wBeat :: wBeats =>
    let dataSize := popcount wBeat.wStrb + popcount fun lane => wBeat.wStrb (32 + lane)
    ⟨aw.axAddr + aw.offset, dataSize, wBeat⟩ ::
      requestsOf (if wBeat.wLast then awBeats
        else { aw with offset := (aw.offset + dataSize) % 2 ^ 32 } :: awBeats) wBeats

/-- The calls for a burst. -/
def WriteBurst.slvWrites (burst : WriteBurst) : List SlvWrite :=
  (requestsOf [⟨burst.awAddr, 0⟩] burst.beats).map WBeatRequest.slvWrite

/-- What the host makes of the calls. -/
def applySlvWrites (calls : List SlvWrite) (mem : ByteMem) : ByteMem :=
  calls.foldl (fun mem call => mem.storeRun call.addr call.size call.data) mem

section Lanes

variable {lo hi : Nat}

/-- The lanes of a range that are below a bound. -/
theorem countP_range_between (lo hi count : Nat) :
    (List.range count).countP (fun lane => decide (lo ≤ lane ∧ lane < hi)) =
      min hi count - min lo count := by
  induction count with
  | zero => simp
  | succ count inductionHypothesis =>
    rw [List.range_succ, List.countP_append, inductionHypothesis, List.countP_singleton]
    by_cases inside : lo ≤ count ∧ count < hi
    · rw [if_pos (decide_eq_true inside)]
      omega
    · rw [if_neg (by simpa using inside)]
      omega

theorem popcount_between (within : hi ≤ axiSw) :
    popcount (fun lane => decide (lo ≤ lane ∧ lane < hi)) +
      popcount (fun lane => decide (lo ≤ 32 + lane ∧ 32 + lane < hi)) = hi - lo := by
  have high : (fun lane => decide (lo ≤ 32 + lane ∧ 32 + lane < hi)) =
      fun lane => decide (lo - 32 ≤ lane ∧ lane < hi - 32) := by
    funext lane
    exact decide_eq_decide.mpr (by omega)
  rw [high, popcount, popcount, countP_range_between, countP_range_between]
  unfold axiSw at within
  omega

theorem ffsl_between (some_ : lo < hi) (within : hi ≤ axiSw) :
    ffsl (fun lane => decide (lo ≤ lane ∧ lane < hi)) = lo + 1 := by
  have found : (List.range axiSw).find? (fun lane => decide (lo ≤ lane ∧ lane < hi)) = some lo := by
    refine List.find?_range_eq_some.mpr ⟨decide_eq_true ⟨le_rfl, some_⟩,
      List.mem_range.mpr (by omega), fun lane below => ?_⟩
    have outside : ¬(lo ≤ lane ∧ lane < hi) := by omega
    simp [outside]
  rw [ffsl, found]

end Lanes

namespace WriteBurst

variable {burst : WriteBurst} {iBeat : Nat}

theorem lower_lt_upper : burst.lower iBeat < burst.upper iBeat := by
  rw [lower, upper]
  have first := burst.first_lt
  have stop := burst.stop_pos
  split
  next start =>
    split
    next last => exact burst.single (by omega)
    next => exact first
  next =>
    split
    · exact stop
    · decide

theorem upper_le : burst.upper iBeat ≤ axiSw := by
  rw [upper]
  split
  · exact burst.stop_le
  · exact le_rfl

/-- The bytes strobed before a beat. -/
def before (burst : WriteBurst) (iBeat : Nat) : Nat :=
  if iBeat = 0 then 0 else iBeat * axiSw - burst.first

theorem before_succ (inside : iBeat < burst.awLen) : burst.before (iBeat + 1) =
    burst.before iBeat + (burst.upper iBeat - burst.lower iBeat) := by
  have first := burst.first_lt
  have middle : burst.upper iBeat = axiSw := if_neg (Nat.ne_of_lt inside)
  rw [middle, before, before, lower, if_neg (Nat.succ_ne_zero iBeat), Nat.succ_mul]
  split
  next start => rw [start]; omega
  next later =>
    have some_ : axiSw ≤ iBeat * axiSw := Nat.le_mul_of_pos_left _ (Nat.pos_of_ne_zero later)
    omega

/-- The request of a beat. -/
def request (burst : WriteBurst) (iBeat : Nat) : WBeatRequest :=
  ⟨burst.awAddr + burst.before iBeat, burst.upper iBeat - burst.lower iBeat, burst.beat iBeat⟩

theorem dataSize_beat : popcount (burst.beat iBeat).wStrb +
    popcount (fun lane => (burst.beat iBeat).wStrb (32 + lane)) =
      burst.upper iBeat - burst.lower iBeat :=
  popcount_between upper_le

/-- From any beat on, the slave makes the requests of the burst. -/
theorem requestsOf_from {left : Nat} (all : iBeat + left = burst.awLen + 1) :
    requestsOf [⟨burst.awAddr, burst.before iBeat⟩] ((List.range' iBeat left).map burst.beat) =
      (List.range' iBeat left).map burst.request := by
  induction left generalizing iBeat with
  | zero => rfl
  | succ left inductionHypothesis =>
    rw [List.range'_succ, List.map_cons, List.map_cons, requestsOf]
    simp only [dataSize_beat]
    by_cases last : iBeat = burst.awLen
    · obtain rfl : left = 0 := by omega
      rfl
    · have inside : iBeat < burst.awLen := by omega
      have next := before_succ inside
      have small : burst.before (iBeat + 1) < 2 ^ 32 := by
        have len := burst.len
        rw [before, if_neg (Nat.succ_ne_zero iBeat)]
        unfold axiSw
        omega
      have more : (burst.beat iBeat).wLast = false := decide_eq_false last
      rw [more, if_neg Bool.false_ne_true, ← next, Nat.mod_eq_of_lt small,
        inductionHypothesis (by omega)]
      rfl

theorem requestsOf_beats (burst : WriteBurst) : requestsOf [⟨burst.awAddr, 0⟩] burst.beats =
    (List.range (burst.awLen + 1)).map burst.request := by
  rw [beats, List.range_eq_range']
  exact requestsOf_from (Nat.zero_add _)

/-- The call for a beat: its bytes are stored where the bytes before it end. -/
theorem slvWrite_request : (burst.request iBeat).slvWrite =
    ⟨burst.awAddr + burst.before iBeat + burst.lower iBeat,
      fun i => burst.wData iBeat (burst.lower iBeat + i),
      burst.upper iBeat - burst.lower iBeat⟩ := by
  have fs : ffsl (burst.request iBeat).wBeat.wStrb = burst.lower iBeat + 1 :=
    ffsl_between lower_lt_upper upper_le
  rw [WBeatRequest.slvWrite]
  simp only [fs, Nat.add_sub_cancel]
  rfl

theorem slvWrites_eq (burst : WriteBurst) : burst.slvWrites =
    (List.range (burst.awLen + 1)).map fun iBeat => (burst.request iBeat).slvWrite := by
  rw [slvWrites, requestsOf_beats, List.map_map]
  rfl

/-! ## The bytes of a burst -/

/-- The bytes of the beats from the addresses that a function gives them. -/
def placed (burst : WriteBurst) (start : Nat → Nat) (iBeats : List Nat) (mem : ByteMem) : ByteMem :=
  iBeats.foldl (fun mem iBeat => mem.storeRun (start iBeat + burst.lower iBeat)
    (burst.upper iBeat - burst.lower iBeat) fun i => burst.wData iBeat (burst.lower iBeat + i)) mem

theorem placed_congr {start start' : Nat → Nat} {iBeats : List Nat}
    (same : ∀ iBeat ∈ iBeats, start iBeat = start' iBeat) (mem : ByteMem) :
    burst.placed start iBeats mem = burst.placed start' iBeats mem := by
  induction iBeats generalizing mem with
  | nil => rfl
  | cons iBeat iBeats inductionHypothesis =>
    rw [List.forall_mem_cons] at same
    rw [placed, placed, List.foldl_cons, List.foldl_cons, same.1]
    exact inductionHypothesis same.2 _

/-- An address behind all of them keeps its byte. -/
theorem placed_of_behind {start : Nat → Nat} {iBeats : List Nat} {addr : Nat}
    (behind : ∀ iBeat ∈ iBeats, start iBeat + burst.upper iBeat ≤ addr) (mem : ByteMem) :
    burst.placed start iBeats mem addr = mem addr := by
  induction iBeats generalizing mem with
  | nil => rfl
  | cons iBeat iBeats inductionHypothesis =>
    rw [List.forall_mem_cons] at behind
    rw [placed, List.foldl_cons]
    refine (inductionHypothesis behind.2 _).trans ?_
    rw [ByteMem.storeRun, if_neg (by omega)]

/-- A beat on its lanes is a run from its first strobed byte on. -/
theorem writeBeat_beat (mem : ByteMem) :
    mem.writeBeat axiSw (burst.awAddr + iBeat * axiSw) (burst.wData iBeat) (burst.beat iBeat).wStrb =
      mem.storeRun (burst.awAddr + iBeat * axiSw + burst.lower iBeat)
        (burst.upper iBeat - burst.lower iBeat) fun i => burst.wData iBeat (burst.lower iBeat + i) := by
  have lanes : burst.lower iBeat < burst.upper iBeat := lower_lt_upper
  have within : burst.upper iBeat ≤ axiSw := upper_le
  have start : (burst.awAddr + iBeat * axiSw) % axiSw = 0 := by
    rw [Nat.add_mul_mod_self_right, burst.aligned]
  have lane : (burst.awAddr + iBeat * axiSw + burst.lower iBeat) % axiSw = burst.lower iBeat := by
    rw [Nat.add_mod, start, Nat.zero_add, Nat.mod_mod, Nat.mod_eq_of_lt (by omega)]
  have line : (burst.awAddr + iBeat * axiSw) / axiSw =
      (burst.awAddr + iBeat * axiSw + burst.lower iBeat) / axiSw := by
    unfold axiSw at *
    omega
  have strobed : ∀ lane' < axiSw, (burst.beat iBeat).wStrb lane' = true ↔
      (burst.awAddr + iBeat * axiSw + burst.lower iBeat) % axiSw ≤ lane' ∧
        lane' < (burst.awAddr + iBeat * axiSw + burst.lower iBeat) % axiSw +
          (burst.upper iBeat - burst.lower iBeat) := by
    intro lane' _
    rw [lane]
    show decide (burst.lower iBeat ≤ lane' ∧ lane' < burst.upper iBeat) = true ↔ _
    rw [decide_eq_true_iff]
    omega
  calc mem.writeBeat axiSw (burst.awAddr + iBeat * axiSw) (burst.wData iBeat) (burst.beat iBeat).wStrb
      = mem.writeBeat axiSw (burst.awAddr + iBeat * axiSw + burst.lower iBeat) (burst.wData iBeat)
          (burst.beat iBeat).wStrb := by
        funext i
        rw [ByteMem.writeBeat, ByteMem.writeBeat, line]
    _ = mem.storeRun (burst.awAddr + iBeat * axiSw + burst.lower iBeat)
          (burst.upper iBeat - burst.lower iBeat)
          fun i => burst.wData iBeat (burst.lower iBeat + i) :=
        ByteMem.writeBeat_eq_storeRun (by decide) (by omega) strobed fun i _ => by rw [lane]

theorem applied_eq (burst : WriteBurst) (mem : ByteMem) : burst.applied mem =
    burst.placed (fun iBeat => burst.awAddr + iBeat * axiSw) (List.range (burst.awLen + 1)) mem := by
  rw [applied, placed]
  exact List.foldl_ext _ _ _ fun mem iBeat _ => writeBeat_beat mem

theorem applySlvWrites_eq (burst : WriteBurst) (mem : ByteMem) :
    applySlvWrites burst.slvWrites mem = burst.placed (fun iBeat => burst.awAddr + burst.before iBeat)
      (List.range (burst.awLen + 1)) mem := by
  rw [applySlvWrites, slvWrites_eq, List.foldl_map, placed]
  exact List.foldl_ext _ _ _ fun mem iBeat _ => by rw [slvWrite_request]

/-- If the first lane of several beats is left out, every beat is stored before the last byte. -/
theorem ends_before (burst : WriteBurst) (several : burst.awLen ≠ 0) (unaligned : burst.first ≠ 0)
    (inside : iBeat ≤ burst.awLen) : burst.awAddr + burst.before iBeat + burst.upper iBeat ≤
      burst.awAddr + burst.awLen * axiSw + (burst.stop - 1) := by
  have positive := burst.stop_pos
  have lane := burst.first_lt
  have line : axiSw ≤ burst.awLen * axiSw := Nat.le_mul_of_pos_left _ (Nat.pos_of_ne_zero several)
  rw [before, upper]
  by_cases last : iBeat = burst.awLen
  · rw [if_pos last, last, if_neg several]
    omega
  · rw [if_neg last]
    have next : (iBeat + 1) * axiSw ≤ burst.awLen * axiSw := Nat.mul_le_mul_right _ (by omega)
    rw [Nat.succ_mul] at next
    split
    · omega
    · omega

/-- The calls for a burst store its bytes where their lanes say, and no others, exactly if it has
    one beat or its first byte is strobed. -/
theorem exact_iff (burst : WriteBurst) :
    (∀ mem, applySlvWrites burst.slvWrites mem = burst.applied mem) ↔
      burst.awLen = 0 ∨ burst.first = 0 := by
  constructor
  · intro same
    by_contra shifted
    rw [not_or] at shifted
    obtain ⟨some_, unaligned⟩ := shifted
    have positive := burst.stop_pos
    have fits := burst.stop_le
    have lane := burst.first_lt
    -- the last byte of the burst, which no call reaches
    have last : burst.upper burst.awLen = burst.stop := if_pos rfl
    have zero : burst.lower burst.awLen = 0 := if_neg some_
    have there := congrFun (same fun _ => burst.wData burst.awLen (burst.stop - 1) + 1)
      (burst.awAddr + burst.awLen * axiSw + (burst.stop - 1))
    have stored : burst.applied (fun _ => burst.wData burst.awLen (burst.stop - 1) + 1)
        (burst.awAddr + burst.awLen * axiSw + (burst.stop - 1)) =
          burst.wData burst.awLen (burst.stop - 1) := by
      rw [applied_eq, List.range_succ, placed, List.foldl_append, List.foldl_cons, List.foldl_nil, zero,
        last, ByteMem.storeRun, if_pos (by omega), Nat.add_zero, Nat.add_sub_cancel_left, Nat.zero_add]
    have kept : applySlvWrites burst.slvWrites
        (fun _ => burst.wData burst.awLen (burst.stop - 1) + 1)
          (burst.awAddr + burst.awLen * axiSw + (burst.stop - 1)) =
            burst.wData burst.awLen (burst.stop - 1) + 1 := by
      rw [applySlvWrites_eq]
      refine placed_of_behind (fun iBeat member => ?_) _
      have inside := Nat.lt_succ_iff.mp (List.mem_range.mp member)
      exact burst.ends_before some_ unaligned inside
    rw [stored, kept] at there
    bv_omega
  · intro together mem
    rw [applySlvWrites_eq, applied_eq]
    refine placed_congr (fun iBeat member => ?_) mem
    have inside := Nat.lt_succ_iff.mp (List.mem_range.mp member)
    rw [before]
    split
    next start => rw [start, Nat.zero_mul]
    next later =>
      rcases together with single | full
      · omega
      · rw [full, Nat.sub_zero]

end WriteBurst

/-! ## Any bursts, with any delays -/

section Requests

variable {awBeats awBeats' : List AwBeat} {wBeats wBeats' : List WBeat}

/-- Beats of the bursts that were taken make requests of their own. -/
theorem requestsOf_append (closed : Closed WBeat.wLast wBeats)
    (taken : wBeats.countP WBeat.wLast = awBeats.length) :
    requestsOf (awBeats ++ awBeats') (wBeats ++ wBeats') =
      requestsOf awBeats wBeats ++ requestsOf awBeats' wBeats' := by
  induction wBeats generalizing awBeats with
  | nil =>
    obtain rfl : awBeats = [] := List.length_eq_zero_iff.mp taken.symm
    rfl
  | cons wBeat wBeats inductionHypothesis =>
    cases awBeats with
    | nil =>
      have ends := closed.countP_pos (List.cons_ne_nil wBeat wBeats)
      rw [taken] at ends
      exact absurd ends (Nat.lt_irrefl 0)
    | cons aw awBeats =>
      rw [List.countP_cons, List.length_cons] at taken
      rw [List.cons_append, List.cons_append, requestsOf, requestsOf, List.cons_append]
      refine congrArg (_ :: ·) ?_
      cases last : wBeat.wLast with
      | true =>
        rw [last, if_pos rfl] at taken
        exact inductionHypothesis closed.tail (Nat.succ.inj taken)
      | false =>
        rw [last, if_neg Bool.false_ne_true, Nat.add_zero, ← List.length_cons (a := aw)] at taken
        simp only [Bool.false_eq_true, if_false]
        rw [← List.cons_append]
        exact inductionHypothesis closed.tail taken

end Requests

namespace WriteBurst

variable {burst : WriteBurst}

theorem beats_eq (burst : WriteBurst) :
    burst.beats = (List.range burst.awLen).map burst.beat ++ [burst.beat burst.awLen] := by
  rw [beats, List.range_succ, List.map_append]
  rfl

theorem closed_beats (burst : WriteBurst) : Closed WBeat.wLast burst.beats := by
  rw [beats_eq]
  exact Closed.concat (decide_eq_true rfl)

theorem countP_beats (burst : WriteBurst) : burst.beats.countP WBeat.wLast = 1 := by
  have before : ((List.range burst.awLen).map burst.beat).countP WBeat.wLast = 0 := by
    refine List.countP_eq_zero.mpr fun wBeat member => ?_
    obtain ⟨iBeat, inside, rfl⟩ := List.mem_map.mp member
    have other := (List.mem_range.mp inside).ne
    simp [beat, other]
  have last : (burst.beat burst.awLen).wLast = true := decide_eq_true rfl
  rw [beats_eq, List.countP_append, before, List.countP_singleton, if_pos last]

theorem beats_strobed : ∀ wBeat ∈ burst.beats, ffsl wBeat.wStrb ≠ 0 := by
  intro wBeat member
  obtain ⟨iBeat, -, rfl⟩ := List.mem_map.mp member
  have fs : ffsl (burst.beat iBeat).wStrb = burst.lower iBeat + 1 :=
    ffsl_between lower_lt_upper upper_le
  rw [fs]
  exact Nat.succ_ne_zero _

end WriteBurst

namespace PcieWrites

/-- The requests on their way to the host. -/
def queued (writes : PcieWrites) : List WBeatRequest :=
  writes.inFlightWriteRequests.map Prod.fst ++ writes.wBeatRequests

/-- Nothing is on its way any more. -/
structure Drained (writes : PcieWrites) : Prop where
  awLeft : writes.awLeft = []
  wLeft : writes.wLeft = []
  queued : writes.queued = []

/-- The calls that were made, that are on their way and that are to come are those of the bursts, and
    every beat that ends a burst finds the burst it ends. -/
structure Sends (bursts : List WriteBurst) (writes : PcieWrites) : Prop where
  calls : writes.slvWrites ++ (writes.queued ++ requestsOf writes.awBeats writes.wLeft).map
    WBeatRequest.slvWrite ++ writes.awLeft.flatMap WriteBurst.slvWrites =
      bursts.flatMap WriteBurst.slvWrites
  closed : Closed WBeat.wLast writes.wLeft
  taken : writes.wLeft.countP WBeat.wLast = writes.awBeats.length
  pending : writes.queued.countP (fun req => req.wBeat.wLast) = writes.awPendingResp.length
  queuedStrobed : ∀ req ∈ writes.queued, ffsl req.wBeat.wStrb ≠ 0
  leftStrobed : ∀ wBeat ∈ writes.wLeft, ffsl wBeat.wStrb ≠ 0

section Steps

variable {bursts : List WriteBurst} {writes writes' : PcieWrites}

theorem reset_sends (bursts : List WriteBurst) : Sends bursts (reset bursts) where
  calls := rfl
  closed := trivial
  taken := rfl
  pending := rfl
  queuedStrobed := fun _ member => absurd member List.not_mem_nil
  leftStrobed := fun _ member => absurd member List.not_mem_nil

/-- What only moves requests between the queues. -/
theorem Sends.moved (sends : writes.Sends bursts) (queue : writes'.queued = writes.queued)
    (rest : writes'.awBeats = writes.awBeats ∧ writes'.wLeft = writes.wLeft ∧
      writes'.awLeft = writes.awLeft ∧ writes'.awPendingResp = writes.awPendingResp ∧
        writes'.slvWrites = writes.slvWrites) : writes'.Sends bursts := by
  obtain ⟨calls, closed, taken, pending, queuedStrobed, leftStrobed⟩ := sends
  obtain ⟨awBeats, wLeft, awLeft, awPendingResp, slvWrites⟩ := rest
  rw [← queue] at calls pending queuedStrobed
  rw [← awBeats, ← wLeft, ← awLeft, ← slvWrites] at calls
  rw [← wLeft] at closed taken leftStrobed
  rw [← awBeats] at taken
  rw [← awPendingResp] at pending
  exact ⟨calls, closed, taken, pending, queuedStrobed, leftStrobed⟩

/-- A beat that is handed over is the oldest one on its way. -/
theorem Sends.progressInFlightWrites (sends : writes.Sends bursts) (params : PcieSlaveParams)
    (simTime : Nat) :
    ∃ writes', writes.progressInFlightWrites params simTime = some writes' ∧
      writes'.Sends bursts := by
  rw [PcieWrites.progressInFlightWrites]
  cases inFlight : writes.inFlightWriteRequests with
  | nil => exact ⟨writes, rfl, sends⟩
  | cons entry inFlight' =>
    obtain ⟨req, time⟩ := entry
    by_cases due : time ≤ simTime ∧ writes.canSendBBeat params = true
    · have queue : writes.queued = req :: (inFlight'.map Prod.fst ++ writes.wBeatRequests) := by
        rw [queued, inFlight]
        rfl
      obtain ⟨calls, closed, taken, pending, queuedStrobed, leftStrobed⟩ := sends
      rw [queue] at calls pending queuedStrobed
      rw [List.countP_cons] at pending
      rw [List.forall_mem_cons] at queuedStrobed
      have handedOver : writes.slvWrites ++ [req.slvWrite] ++
          (inFlight'.map Prod.fst ++ writes.wBeatRequests ++
            requestsOf writes.awBeats writes.wLeft).map WBeatRequest.slvWrite ++
              writes.awLeft.flatMap WriteBurst.slvWrites = bursts.flatMap WriteBurst.slvWrites := by
        rw [← calls, List.cons_append, List.map_cons]
        simp only [List.append_assoc, List.cons_append, List.nil_append]
      simp only [if_pos due, if_neg queuedStrobed.1]
      -- the last beat of a burst brings its response
      cases last : req.wBeat.wLast with
      | true =>
        rw [last, if_pos rfl] at pending
        obtain ⟨aw, awPendingResp, waits⟩ := List.exists_cons_of_length_eq_add_one pending.symm
        rw [waits, List.length_cons] at pending
        refine ⟨{ writes with
            inFlightWriteRequests := inFlight', slvWrites := writes.slvWrites ++ [req.slvWrite]
            awPendingResp := awPendingResp, bBeats := writes.bBeats + 1 }, ?_,
          handedOver, closed, taken, Nat.succ.inj pending, queuedStrobed.2, leftStrobed⟩
        simp only [waits]
        rfl
      | false =>
        rw [last, if_neg Bool.false_ne_true] at pending
        exact ⟨{ writes with
            inFlightWriteRequests := inFlight', slvWrites := writes.slvWrites ++ [req.slvWrite] }, rfl,
          handedOver, closed, taken, pending, queuedStrobed.2, leftStrobed⟩
    · exact ⟨writes, if_neg due, sends⟩

theorem Sends.awPosedge (sends : writes.Sends bursts) (params : PcieSlaveParams) (awValid : Bool) :
    (writes.awPosedge params awValid).Sends bursts := by
  rw [PcieWrites.awPosedge]
  cases awLeft : writes.awLeft with
  | nil => exact sends
  | cons burst awLeft' =>
    show Sends bursts (if _ then _ else _)
    split
    next accepted =>
      obtain ⟨calls, closed, taken, pending, queuedStrobed, leftStrobed⟩ := sends
      refine ⟨?_, closed.append burst.closed_beats, ?_, pending, queuedStrobed,
        List.forall_mem_append.mpr ⟨leftStrobed, burst.beats_strobed⟩⟩
      · show writes.slvWrites ++ (writes.queued ++ requestsOf (writes.awBeats ++ [⟨burst.awAddr, 0⟩])
          (writes.wLeft ++ burst.beats)).map WBeatRequest.slvWrite ++
            awLeft'.flatMap WriteBurst.slvWrites = _
        rw [← calls, awLeft, requestsOf_append closed taken, List.flatMap_cons, WriteBurst.slvWrites]
        simp only [List.map_append, List.append_assoc]
      · show (writes.wLeft ++ burst.beats).countP _ = (writes.awBeats ++ [_]).length
        rw [List.countP_append, taken, burst.countP_beats, List.length_append, List.length_singleton]
    next => exact sends

/-- A W beat finds its burst. -/
theorem Sends.wPosedge (sends : writes.Sends bursts) (params : PcieSlaveParams) (wValid : Bool) :
    ∃ writes', writes.wPosedge params wValid = some writes' ∧ writes'.Sends bursts := by
  rw [PcieWrites.wPosedge]
  cases wLeft : writes.wLeft with
  | nil => exact ⟨writes, rfl, sends⟩
  | cons wBeat wLeft' =>
    by_cases accepted : wValid = true ∧
        (params.wBufferSize = 0 ∨ writes.wBeatRequests.length < params.wBufferSize)
    · obtain ⟨calls, closed, taken, pending, queuedStrobed, leftStrobed⟩ := sends
      rw [wLeft] at calls closed taken leftStrobed
      rw [List.forall_mem_cons] at leftStrobed
      cases awBeats : writes.awBeats with
      | nil =>
        -- a burst that waits for W beats has its AW beat still
        have ends := closed.countP_pos (List.cons_ne_nil wBeat wLeft')
        rw [taken, awBeats] at ends
        exact absurd ends (Nat.lt_irrefl 0)
      | cons aw awBeats' =>
        rw [awBeats, requestsOf] at calls
        rw [awBeats, List.countP_cons, List.length_cons] at taken
        simp only [if_pos accepted]
        generalize popcount wBeat.wStrb + popcount (fun lane => wBeat.wStrb (32 + lane)) = dataSize
          at calls ⊢
        obtain ⟨req, isReq⟩ : ∃ req : WBeatRequest, req = ⟨aw.axAddr + aw.offset, dataSize, wBeat⟩ :=
          ⟨_, rfl⟩
        have ofBeat : req.wBeat = wBeat := by rw [isReq]
        rw [← isReq] at calls ⊢
        have queue : writes.inFlightWriteRequests.map Prod.fst ++ (writes.wBeatRequests ++ [req]) =
            writes.queued ++ [req] := by
          rw [queued, List.append_assoc]
        have strobed : ∀ other ∈ writes.queued ++ [req], ffsl other.wBeat.wStrb ≠ 0 := by
          refine List.forall_mem_append.mpr ⟨queuedStrobed, List.forall_mem_singleton.mpr ?_⟩
          rw [ofBeat]
          exact leftStrobed.1
        have counts : (writes.queued ++ [req]).countP (fun req => req.wBeat.wLast) =
            writes.awPendingResp.length + if wBeat.wLast = true then 1 else 0 := by
          rw [List.countP_append, pending, List.countP_singleton, ofBeat]
        have joined (rest : List WBeatRequest) : writes.queued ++ [req] ++ rest =
            writes.queued ++ req :: rest := by
          rw [List.append_assoc]
          rfl
        rw [← queue] at strobed counts joined
        -- the AW beat of a burst leaves with its last W beat
        cases last : wBeat.wLast with
        | true =>
          rw [last, if_pos rfl] at taken counts calls
          refine ⟨_, rfl, ?_, closed.tail, Nat.succ.inj taken, ?_, strobed, leftStrobed.2⟩
          · rw [← calls, ← joined]
            rfl
          · rw [List.length_append]
            exact counts
        | false =>
          rw [last, if_neg Bool.false_ne_true] at taken counts calls
          refine ⟨_, rfl, ?_, closed.tail, taken, counts, strobed, leftStrobed.2⟩
          rw [← calls, ← joined]
          rfl
    · exact ⟨writes, if_neg accepted, sends⟩

theorem Sends.progressNewWrites (sends : writes.Sends bursts) (params : PcieSlaveParams)
    (simTime : Nat) : (writes.progressNewWrites params simTime).Sends bursts := by
  rw [PcieWrites.progressNewWrites]
  by_cases waits : writes.writeWaitCycles - 1 > 0
  · simp only [if_pos waits]
    exact sends.moved rfl ⟨rfl, rfl, rfl, rfl, rfl⟩
  · simp only [if_neg waits]
    cases requests : writes.wBeatRequests with
    | nil => exact sends.moved (by rw [queued, queued, requests]) ⟨rfl, rfl, rfl, rfl, rfl⟩
    | cons req wBeatRequests =>
      refine sends.moved ?_ ⟨rfl, rfl, rfl, rfl, rfl⟩
      rw [queued, queued, requests, List.map_append, List.append_assoc]
      rfl

theorem Sends.bPosedge (sends : writes.Sends bursts) : writes.bPosedge.Sends bursts := by
  rw [PcieWrites.bPosedge]
  split
  · exact sends
  · split <;> exact sends.moved rfl ⟨rfl, rfl, rfl, rfl, rfl⟩

theorem Sends.cycle (sends : writes.Sends bursts) (params : PcieSlaveParams) (inp : PcieSlaveIn) :
    ∃ writes', writes.cycle params inp = some writes' ∧ writes'.Sends bursts := by
  obtain ⟨handed, isHanded, handedSends⟩ :=
    sends.progressInFlightWrites params inp.simTime
  obtain ⟨taken, isTaken, takenSends⟩ :=
    (handedSends.awPosedge params inp.awValid).wPosedge params inp.wValid
  have new := takenSends.bPosedge.progressNewWrites params inp.simTime
  refine ⟨{ taken.bPosedge.progressNewWrites params inp.simTime with
    bWait := (taken.bPosedge.progressNewWrites params inp.simTime).bValid && !inp.bReady }, ?_,
    new.moved rfl ⟨rfl, rfl, rfl, rfl, rfl⟩⟩
  simp only [PcieWrites.cycle, isHanded, isTaken, Option.bind_eq_bind, Option.bind_some]

theorem Sends.slvWrites_prefix (sends : writes.Sends bursts) :
    writes.slvWrites <+: bursts.flatMap WriteBurst.slvWrites := by
  rw [← sends.calls, List.append_assoc]
  exact List.prefix_append _ _

theorem Sends.slvWrites_drained (sends : writes.Sends bursts) (drained : writes.Drained) :
    writes.slvWrites = bursts.flatMap WriteBurst.slvWrites := by
  rw [← sends.calls, drained.queued, drained.wLeft, drained.awLeft]
  simp [requestsOf]

end Steps

end PcieWrites

end Pspin
