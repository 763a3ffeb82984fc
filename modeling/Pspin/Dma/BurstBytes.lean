import Pspin.Clocked.Bursts
import Pspin.Dma.BurstReshaper

/-! # The bytes of a burst

A transfer is a list of bytes to move, each from one address to another.  This module says which bytes
a channel has left and which bytes a burst moves, beat by beat, and that a channel loses exactly the
bytes of the burst it sends.  The bursts themselves keep to the rules of the bus.
-/

namespace Pspin

open Clocked

/-- A byte of a transfer; `last` is set for the last one. -/
structure Move where
  src : Nat
  dst : Nat
  last : Bool
deriving DecidableEq, Repr

/-- What a move asks of the read side: an address, and the lane the byte goes to. -/
def Move.toRead (params : AxiDmaParams) (move : Move) : Nat × Nat :=
  (move.src, move.dst % params.strbWidth)

/-- What a move asks of the write side: an address, and whether the transfer ends there. -/
def Move.toWrite (move : Move) : Nat × Bool := (move.dst, move.last)

/-- The bytes that a request asks to move. -/
def BurstReq.moves (params : AxiDmaParams) (req : BurstReq) : List Move :=
  (List.range req.numBytes).map fun i =>
    { src := (req.src + i) % 2 ^ params.addrWidth
      dst := (req.dst + i) % 2 ^ params.addrWidth
      last := decide (i + 1 = req.numBytes) }

@[simp] theorem BurstReq.length_moves (params : AxiDmaParams) (req : BurstReq) :
    (req.moves params).length = req.numBytes := by
  rw [moves, List.length_map, List.length_range]

/-- What the unit supports: bursts of incrementing addresses that fit their registers. -/
structure BurstReq.Fits (params : AxiDmaParams) (req : BurstReq) : Prop where
  src : req.src < 2 ^ params.addrWidth
  dst : req.dst < 2 ^ params.addrWidth
  burstSrc : req.burstSrc = burstIncr
  burstDst : req.burstDst = burstIncr

instance (params : AxiDmaParams) (req : BurstReq) : Decidable (req.Fits params) :=
  decidable_of_iff (req.src < 2 ^ params.addrWidth ∧ req.dst < 2 ^ params.addrWidth ∧
    req.burstSrc = burstIncr ∧ req.burstDst = burstIncr)
    ⟨fun h => ⟨h.1, h.2.1, h.2.2.1, h.2.2.2⟩, fun h => ⟨h.src, h.dst, h.burstSrc, h.burstDst⟩⟩

section

variable {γ : Type*} (params : AxiDmaParams) (g : Nat → Bool → γ)

/-- What a channel has left to move, as `g` tells of an address and whether it is the last one. -/
def BurstChan.rest (chan : BurstChan) : List γ :=
  (List.range chan.numBytes).map fun i =>
    g ((chan.addr + i) % 2 ^ params.addrWidth) (decide (i + 1 = chan.numBytes))

/-- The lane behind the last byte of a burst, counted from the first lane of the burst. -/
def DescAx.stop (ax : DescAx) (tailer : Nat) : Nat :=
  if tailer = 0 then (ax.len + 1) * params.strbWidth else ax.len * params.strbWidth + tailer

/-- What a beat of a burst moves. -/
def DescAx.beat (ax : DescAx) (offset tailer beat : Nat) : List γ :=
  (beatBytes params.strbWidth offset tailer ax.len beat).map fun byte =>
    g (ax.addr + byte) (ax.last && decide (byte + 1 = ax.stop params tailer))

end

/-- Where the byte that is read from an address goes: its own lane, realigned. -/
def shiftedLane (params : AxiDmaParams) (shift addr : Nat) : Nat :=
  (addr + (params.strbWidth - shift)) % params.strbWidth

/-- The bytes of a read beat: the address of each, and the lane it is moved to. -/
def ReadReq.beat (params : AxiDmaParams) (req : ReadReq) (beat : Nat) : List (Nat × Nat) :=
  req.ar.beat params (fun addr _ => (addr, shiftedLane params req.r.shift addr)) req.r.offset
    req.r.tailer beat

theorem ReadReq.beat_eq (params : AxiDmaParams) (req : ReadReq) : req.beat params =
    req.ar.beat params (fun addr _ => (addr, shiftedLane params req.r.shift addr)) req.r.offset
      req.r.tailer := rfl

def ReadReq.len (req : ReadReq) : Nat := req.ar.len

/-- The bytes of a write beat: the address of each, and whether its transfer ends with it. -/
def WriteReq.beat (params : AxiDmaParams) (req : WriteReq) (beat : Nat) : List (Nat × Bool) :=
  req.aw.beat params Prod.mk req.w.offset req.w.tailer beat

theorem WriteReq.beat_eq (params : AxiDmaParams) (req : WriteReq) :
    req.beat params = req.aw.beat params Prod.mk req.w.offset req.w.tailer := rfl

def WriteReq.len (req : WriteReq) : Nat := req.aw.len

/-! ## What the bus asks of a burst -/

/-- A burst that the bus allows: full words of incrementing addresses, at most 256 of them, none of
    them in another page of 4 KiB than the first one. -/
structure DescAx.Legal (params : AxiDmaParams) (ax : DescAx) : Prop where
  aligned : params.strbWidth ∣ ax.addr
  len : ax.len < 256
  page : ax.addr % 4096 + (ax.len + 1) * params.strbWidth ≤ 4096
  burst : ax.burst = burstIncr
  size : 2 ^ ax.size = params.strbWidth

/-- A burst carries some bytes, and its masks say which. -/
structure DescAx.Spans (params : AxiDmaParams) (ax : DescAx) (offset tailer count : Nat) : Prop where
  some : 0 < count
  inside : offset < params.strbWidth
  len : ax.len = lastBeat params.strbWidth offset count
  tailer : tailer = (offset + count) % params.strbWidth

namespace DescAx.Spans

variable {params : AxiDmaParams} {ax : DescAx} {offset tailer count : Nat}
  (spans : ax.Spans params offset tailer count)

include spans

/-- The last lane of a burst is that of its last byte. -/
theorem stop_eq : ax.stop params tailer = offset + count := by
  have bounds := lastBeat_spec offset params.strbWidth_pos spans.some
  rw [stop, spans.len, spans.tailer]
  rcases tailer_cases offset params.strbWidth_pos spans.some with ⟨zero, full⟩ | part
  · rw [if_pos zero, full]
  · have positive : offset + count - lastBeat params.strbWidth offset count * params.strbWidth ≠ 0 := by
      omega
    rw [part, if_neg positive]
    omega

/-- Every beat carries something. -/
theorem beat_eq {γ : Type*} (g : Nat → Bool → γ) {beat : Nat} (before : beat ≤ ax.len) :
    ax.beat params g offset tailer beat =
      (List.Ico (max offset (beat * params.strbWidth))
        (min (offset + count) ((beat + 1) * params.strbWidth))).map fun byte =>
          g (ax.addr + byte) (ax.last && decide (byte + 1 = offset + count)) := by
  have bytes := beatBytes_eq params.strbWidth_pos spans.inside spans.some (spans.len ▸ before)
  rw [← spans.tailer, ← spans.len] at bytes
  rw [DescAx.beat, bytes, spans.stop_eq]

theorem length_beat_pos {γ : Type*} (g : Nat → Bool → γ) {beat : Nat} (before : beat ≤ ax.len) :
    0 < (ax.beat params g offset tailer beat).length := by
  have bounds := lastBeat_spec offset params.strbWidth_pos spans.some
  have inside := spans.inside
  have some := spans.some
  rw [← spans.len] at bounds
  have word : beat * params.strbWidth ≤ ax.len * params.strbWidth := Nat.mul_le_mul_right _ before
  rw [spans.beat_eq g before, List.length_map, List.Ico.length, Nat.succ_mul]
  omega

/-- A transfer ends with the last byte of its last burst. -/
theorem countP_beat {beat : Nat} (before : beat ≤ ax.len) :
    (ax.beat params Prod.mk offset tailer beat).countP Prod.snd =
      (ax.last && beat == ax.len).toNat := by
  have bounds := lastBeat_spec offset params.strbWidth_pos spans.some
  have inside := spans.inside
  rw [← spans.len] at bounds
  rw [spans.beat_eq _ before, List.countP_map]
  cases last : ax.last with
  | false => simp
  | true =>
    -- the last byte is one of the beat, or comes later
    have single : ((List.Ico (max offset (beat * params.strbWidth))
        (min (offset + count) ((beat + 1) * params.strbWidth))).countP
          (Prod.snd ∘ fun byte => (ax.addr + byte, true && decide (byte + 1 = offset + count)))) =
        (List.Ico (max offset (beat * params.strbWidth))
          (min (offset + count) ((beat + 1) * params.strbWidth))).count (offset + count - 1) := by
      have some := spans.some
      refine List.countP_congr fun byte _ => ?_
      simp only [Function.comp_apply, Bool.true_and, decide_eq_true_eq, beq_iff_eq]
      omega
    rw [single, (List.Ico.nodup _ _).count, Bool.true_and]
    by_cases ends : beat = ax.len
    · have member : offset + count - 1 ∈ List.Ico (max offset (beat * params.strbWidth))
          (min (offset + count) ((beat + 1) * params.strbWidth)) := by
        have some := spans.some
        rw [List.Ico.mem, ends]
        omega
      rw [if_pos member, ends, beq_self_eq_true, Bool.toNat_true]
    · have later : (beat + 1) * params.strbWidth ≤ ax.len * params.strbWidth :=
        Nat.mul_le_mul_right _ (by omega)
      have absent : offset + count - 1 ∉ List.Ico (max offset (beat * params.strbWidth))
          (min (offset + count) ((beat + 1) * params.strbWidth)) := by
        rw [List.Ico.mem]
        omega
      rw [if_neg absent, beq_eq_false_iff_ne.mpr ends, Bool.toNat_false]

end DescAx.Spans

/-- What the emitters get for a read burst. -/
structure ReadReq.Sound (params : AxiDmaParams) (req : ReadReq) : Prop where
  legal : req.ar.Legal params
  spans : ∃ count, req.ar.Spans params req.r.offset req.r.tailer count
  shift : req.r.shift < params.strbWidth

/-- What the emitters get for a write burst. -/
structure WriteReq.Sound (params : AxiDmaParams) (req : WriteReq) : Prop where
  legal : req.aw.Legal params
  spans : ∃ count, req.aw.Spans params req.w.offset req.w.tailer count
  numBeats : req.w.numBeats = req.aw.len
  isSingle : req.w.isSingle = (req.aw.len == 0)

/-- What fits a page fits the pages made of such pages. -/
theorem mod_add_le_of_dvd {page pages addr count : Nat} (dvd : page ∣ pages) (positive : 0 < pages)
    (inside : addr % page + count ≤ page) : addr % pages + count ≤ pages := by
  obtain ⟨many, rfl⟩ := dvd
  have pagePositive : 0 < page := Nat.pos_of_mul_pos_right positive
  have split := Nat.div_add_mod (addr % (page * many)) page
  rw [Nat.mod_mul_right_mod] at split
  have before : addr % (page * many) / page < many := by
    rw [Nat.div_lt_iff_lt_mul pagePositive, Nat.mul_comm]
    exact Nat.mod_lt _ (Nat.mul_comm page many ▸ positive)
  have next := Nat.mul_le_mul_left page (Nat.succ_le_of_lt before)
  rw [Nat.mul_succ] at next
  omega

/-! ## Cutting a burst off a channel -/

namespace BurstChan

/-- What a channel holds: an address that fits, and no transfer or one it supports. -/
structure Fits (params : AxiDmaParams) (chan : BurstChan) : Prop where
  addr : chan.addr < 2 ^ params.addrWidth
  valid : chan.valid = decide (chan.numBytes ≠ 0)
  burst : chan.numBytes ≠ 0 → chan.burst = burstIncr

theorem Fits.zero (params : AxiDmaParams) : BurstChan.zero.Fits params where
  addr := Nat.two_pow_pos _
  valid := rfl
  burst := absurd rfl

/-- A number of bytes that does not leave the page of the channel. -/
structure Possible (params : AxiDmaParams) (chan : BurstChan) (possible : Nat) : Prop where
  positive : 0 < possible
  inPage : possible + chan.addr % params.pageSize ≤ params.pageSize

variable {γ : Type*} {params : AxiDmaParams} {chan : BurstChan} {possible : Nat} {g : Nat → Bool → γ}

theorem addrOffset_eq (params : AxiDmaParams) (chan : BurstChan) :
    chan.addrOffset params = chan.addr % params.pageSize % params.strbWidth :=
  (Nat.mod_mod_of_dvd _ params.strbWidth_dvd_pageSize).symm

theorem addrOffset_lt (params : AxiDmaParams) (chan : BurstChan) :
    chan.addrOffset params < params.strbWidth := Nat.mod_lt _ params.strbWidth_pos

theorem pageOffset_lt (params : AxiDmaParams) (chan : BurstChan) :
    chan.addr % params.pageSize < params.pageSize := Nat.mod_lt _ params.pageSize_pos

/-- The bytes up to the boundary stay in the page, and with `deburst` in the word. -/
theorem possible_numBytesToPb (params : AxiDmaParams) (chan : BurstChan) (deburst : Bool) :
    chan.Possible params (chan.numBytesToPb params deburst) := by
  have inside := chan.pageOffset_lt params
  cases deburst with
  | false =>
    refine ⟨?_, ?_⟩ <;> simp only [numBytesToPb, pageOffset, Bool.false_eq_true, if_false] <;> omega
  | true =>
    have offset := chan.addrOffset_lt params
    have small : (params.strbWidth - chan.addrOffset params) % (2 * params.strbWidth) =
        params.strbWidth - chan.addrOffset params := Nat.mod_eq_of_lt (by omega)
    -- the end of the word is not behind the end of the page
    have word : params.strbWidth - chan.addrOffset params + chan.addr % params.pageSize ≤
        params.pageSize := by
      obtain ⟨words, page⟩ := params.strbWidth_dvd_pageSize
      have split := Nat.div_add_mod (chan.addr % params.pageSize) params.strbWidth
      rw [← chan.addrOffset_eq] at split
      have before : chan.addr % params.pageSize / params.strbWidth < words := by
        rw [Nat.div_lt_iff_lt_mul params.strbWidth_pos, Nat.mul_comm, ← page]
        exact inside
      have next := Nat.mul_le_mul_left params.strbWidth (Nat.succ_le_of_lt before)
      rw [Nat.mul_succ, ← page] at next
      omega
    have same : chan.numBytesToPb params true = params.strbWidth - chan.addrOffset params := by
      rw [numBytesToPb, if_pos rfl, pageOffset, if_pos rfl]
      exact small
    rw [same]
    exact ⟨by omega, word⟩

theorem Possible.mono {less : Nat} (enough : chan.Possible params possible) (some : 0 < less)
    (le : less ≤ possible) : chan.Possible params less where
  positive := some
  inPage := Nat.le_trans (Nat.add_le_add_right le _) enough.inPage

theorem tailer_eq (params : AxiDmaParams) (chan : BurstChan) (possible : Nat) : 
    chan.tailer params possible =
    (chan.addrOffset params + chan.burstBytes params possible) % params.strbWidth := by
  rw [tailer, Nat.add_comm]

theorem ax_addr (params : AxiDmaParams) (chan : BurstChan) (possible : Nat) :
    (chan.ax params possible).addr + chan.addrOffset params = chan.addr := by
  rw [ax, Nat.mul_comm, addrOffset, Nat.div_add_mod]

namespace Possible

variable (ok : chan.Possible params possible)

include ok

/-- A burst is what is possible, or all that is left. -/
theorem burstBytes_eq : chan.burstBytes params possible = min possible chan.numBytes := by
  have page := ok.inPage
  unfold burstBytes
  split
  next more => rw [Nat.min_eq_left (Nat.le_of_lt more)]
  next all =>
    have positive := params.pageSize_pos
    rw [Nat.min_eq_right (Nat.not_lt.mp all), Nat.mod_eq_of_lt (by omega)]

theorem burstBytes_pos (some : chan.numBytes ≠ 0) : 0 < chan.burstBytes params possible := by
  have positive := ok.positive
  rw [ok.burstBytes_eq]
  omega

/-- The burst ends in the page. -/
theorem burstBytes_le : chan.burstBytes params possible + chan.addr % params.pageSize ≤
    params.pageSize := by
  have page := ok.inPage
  rw [ok.burstBytes_eq]
  omega

theorem lastBeat_le (some : chan.numBytes ≠ 0) :
    (lastBeat params.strbWidth (chan.addrOffset params) (chan.burstBytes params possible) + 1) *
      params.strbWidth + (chan.addr % params.pageSize - chan.addrOffset params) ≤ params.pageSize := by
  have page := ok.burstBytes_le
  obtain ⟨words, pageWords⟩ := params.strbWidth_dvd_pageSize
  have split := Nat.div_add_mod (chan.addr % params.pageSize) params.strbWidth
  have last := lastBeat_spec (chan.addrOffset params) params.strbWidth_pos
    (ok.burstBytes_pos some)
  rw [← chan.addrOffset_eq] at split
  -- whole words on both sides: the last beat starts below the end of the page
  have below : (chan.addr % params.pageSize / params.strbWidth + lastBeat params.strbWidth
      (chan.addrOffset params) (chan.burstBytes params possible)) * params.strbWidth <
      words * params.strbWidth := by
    rw [Nat.add_mul, Nat.mul_comm _ params.strbWidth, Nat.mul_comm words, ← pageWords]
    omega
  have next := Nat.mul_le_mul_right params.strbWidth
    (Nat.succ_le_of_lt (Nat.lt_of_mul_lt_mul_right below))
  rw [Nat.succ_mul, Nat.add_mul, Nat.mul_comm _ params.strbWidth, Nat.mul_comm words, ← pageWords] at next
  rw [Nat.succ_mul]
  omega

/-- The number of beats fits its field. -/
theorem len_eq (some : chan.numBytes ≠ 0) : (chan.ax params possible).len =
    lastBeat params.strbWidth (chan.addrOffset params) (chan.burstBytes params possible) := by
  have page := ok.burstBytes_le
  have offset := chan.addrOffset_lt params
  have positive := ok.burstBytes_pos some
  have small := params.strbWidth_le
  have pages := params.pageSize_le
  have beats := params.pageSize_le_beats
  have within := ok.lastBeat_le some
  have sum : truncate 32 (chan.burstBytes params possible + chan.addrOffset params + (2 ^ 32 - 1)) =
      chan.addrOffset params + chan.burstBytes params possible - 1 := by
    have wraps : chan.burstBytes params possible + chan.addrOffset params + (2 ^ 32 - 1) =
        chan.addrOffset params + chan.burstBytes params possible - 1 + 2 ^ 32 := by omega
    rw [truncate, wraps, Nat.add_mod_right, Nat.mod_eq_of_lt (by omega)]
  have fits : lastBeat params.strbWidth (chan.addrOffset params)
      (chan.burstBytes params possible) < 2 ^ 8 := by
    have whole : (lastBeat params.strbWidth (chan.addrOffset params)
        (chan.burstBytes params possible) + 1) * params.strbWidth ≤ 256 * params.strbWidth := by omega
    exact Nat.le_of_mul_le_mul_right whole params.strbWidth_pos
  rw [ax, sum]
  exact truncate_of_lt fits

theorem spans (some : chan.numBytes ≠ 0) : (chan.ax params possible).Spans params
    (chan.addrOffset params) (chan.tailer params possible) (chan.burstBytes params possible) where
  some := ok.burstBytes_pos some
  inside := chan.addrOffset_lt params
  len := ok.len_eq some
  tailer := chan.tailer_eq params possible

/-- The burst is one that the bus allows. -/
theorem legal (fits : chan.Fits params) (some : chan.numBytes ≠ 0) :
    (chan.ax params possible).Legal params where
  aligned := Nat.dvd_mul_left _ _
  len := truncate_lt 8 _
  page := by
    have words := ok.lastBeat_le some
    have address := chan.ax_addr params possible
    have offset := chan.addrOffset_lt params
    have start : (chan.ax params possible).addr % params.pageSize =
        chan.addr % params.pageSize - chan.addrOffset params := by
      have split := Nat.div_add_mod chan.addr params.pageSize
      have below := chan.pageOffset_lt params
      have before : chan.addrOffset params ≤ chan.addr % params.pageSize := by
        rw [chan.addrOffset_eq]
        exact Nat.mod_le _ _
      have same : (chan.ax params possible).addr = params.pageSize * (chan.addr / params.pageSize) +
          (chan.addr % params.pageSize - chan.addrOffset params) := by omega
      rw [same, Nat.mul_add_mod, Nat.mod_eq_of_lt (by omega)]
    refine mod_add_le_of_dvd params.pageSize_dvd_4096 (by omega) ?_
    rw [ok.len_eq some, start]
    omega
  burst := fits.burst some
  size := by
    have small := params.offsetWidth_le
    show 2 ^ truncate 3 params.offsetWidth = 2 ^ params.offsetWidth
    rw [truncate_of_lt (by omega)]

/-- No byte of the page is beyond the last address. -/
theorem addr_lt (fits : chan.Fits params) {i : Nat} (below : i < chan.burstBytes params possible) :
    chan.addr + i < 2 ^ params.addrWidth := by
  have page := ok.burstBytes_le
  obtain ⟨pages, whole⟩ := params.pageSize_dvd
  have address := Nat.div_add_mod chan.addr params.pageSize
  have before : chan.addr / params.pageSize < pages := by
    rw [Nat.div_lt_iff_lt_mul params.pageSize_pos, Nat.mul_comm, ← whole]
    exact fits.addr
  have next := Nat.mul_le_mul_left params.pageSize (Nat.succ_le_of_lt before)
  rw [Nat.mul_succ, ← whole] at next
  omega

/-- The last byte of a burst ends the transfer if nothing is left behind it. -/
theorem last_iff {i : Nat} (below : i < chan.burstBytes params possible) :
    ((chan.ax params possible).last && decide (chan.addrOffset params + i + 1 =
        chan.addrOffset params + chan.burstBytes params possible)) =
      decide (i + 1 = chan.numBytes) := by
  have bytes := ok.burstBytes_eq
  have here : chan.addrOffset params + i + 1 =
      chan.addrOffset params + chan.burstBytes params possible ↔
      i + 1 = chan.burstBytes params possible := by omega
  have last : (chan.ax params possible).last = !decide (possible < chan.numBytes) := rfl
  simp only [here, last]
  by_cases more : possible < chan.numBytes
  · have early : ¬i + 1 = chan.numBytes := by omega
    simp [more, early]
  · have same : chan.burstBytes params possible = chan.numBytes := by omega
    simp [more, same]

/-- The beats of a burst move the next bytes of its channel. -/
theorem flatMap_beat (fits : chan.Fits params) (some : chan.numBytes ≠ 0) :
    (List.Ico 0 ((chan.ax params possible).len + 1)).flatMap
      ((chan.ax params possible).beat params g (chan.addrOffset params) (chan.tailer params possible)) =
      (List.range (chan.burstBytes params possible)).map fun i =>
        g ((chan.addr + i) % 2 ^ params.addrWidth) (decide (i + 1 = chan.numBytes)) := by
  have split : (chan.ax params possible).beat params g (chan.addrOffset params)
      (chan.tailer params possible) = fun beat =>
        (beatBytes params.strbWidth (chan.addrOffset params)
          ((chan.addrOffset params + chan.burstBytes params possible) % params.strbWidth)
          (lastBeat params.strbWidth (chan.addrOffset params) (chan.burstBytes params possible))
          beat).map fun byte => g ((chan.ax params possible).addr + byte)
            ((chan.ax params possible).last &&
              decide (byte + 1 = chan.addrOffset params + chan.burstBytes params possible)) := by
    funext beat
    rw [DescAx.beat, ok.len_eq some, (ok.spans some).stop_eq, chan.tailer_eq params possible]
  have bytes := flatMap_beatBytes params.strbWidth_pos (chan.addrOffset_lt params)
    (ok.burstBytes_pos some) (Nat.zero_le (lastBeat params.strbWidth (chan.addrOffset params)
      (chan.burstBytes params possible) + 1))
  have start : List.Ico (chan.addrOffset params)
      (chan.addrOffset params + chan.burstBytes params possible) =
      (List.range (chan.burstBytes params possible)).map (chan.addrOffset params + ·) := by
    rw [← List.Ico.zero_bot, List.Ico.map_add, Nat.zero_add, Nat.add_comm (chan.burstBytes _ _)]
  rw [Nat.zero_mul, Nat.max_eq_left (Nat.zero_le _), start] at bytes
  rw [split, ok.len_eq some, ← List.map_flatMap, bytes, List.map_map]
  apply List.map_congr_left
  intro i member
  have below := List.mem_range.mp member
  rw [Function.comp_apply, ← Nat.add_assoc, chan.ax_addr params possible, ok.last_iff below,
    Nat.mod_eq_of_lt (ok.addr_lt fits below)]

/-- What a channel has left is the burst it sends and what it has left then. -/
theorem rest_eq (fits : chan.Fits params) (some : chan.numBytes ≠ 0) : chan.rest params g =
    (List.Ico 0 ((chan.ax params possible).len + 1)).flatMap
      ((chan.ax params possible).beat params g (chan.addrOffset params) (chan.tailer params possible)) ++
        (chan.next params possible).rest params g := by
  have bytes := ok.burstBytes_eq
  have split : chan.numBytes = chan.burstBytes params possible +
      (chan.next params possible).numBytes := by
    unfold next
    split
    next more =>
      show chan.numBytes = _ + (chan.numBytes - possible)
      omega
    next => show chan.numBytes = _ + 0; omega
  rw [ok.flatMap_beat fits some, rest, split, List.range_add, List.map_append, List.map_map, ← split]
  congr 1
  unfold next
  split
  next more =>
    have burst : chan.burstBytes params possible = possible := by omega
    rw [if_pos (fits.burst some), rest, burst]
    apply List.map_congr_left
    intro i _
    have ends : possible + (i + 1) = chan.numBytes ↔ i + 1 = chan.numBytes - possible := by omega
    simp only [Function.comp_apply, truncate, Nat.mod_add_mod, Nat.add_assoc, ends]
  next => rfl

end Possible

/-- What a channel holds after a burst. -/
theorem Fits.next (fits : chan.Fits params) (possible : Nat) : (chan.next params possible).Fits params := by
  unfold BurstChan.next
  split
  next more =>
    have some : chan.numBytes ≠ 0 := by omega
    refine ⟨?_, ?_, fun _ => fits.burst some⟩
    · rw [if_pos (fits.burst some)]
      exact truncate_lt _ _
    · have left : chan.numBytes - possible ≠ 0 := by omega
      rw [fits.valid, decide_eq_true some, decide_eq_true left]
  next => exact .zero params

end BurstChan

/-! ## Cutting bursts off a transfer -/

namespace BurstDecoupled

variable (params : AxiDmaParams) (burst : BurstDecoupled) (inp : In)

/-- What is left to read: addresses, and the lanes the bytes go to. -/
def srcRest : List (Nat × Nat) :=
  burst.src.rest params fun addr _ => (addr, shiftedLane params burst.shift addr)

/-- What is left to write: addresses, and whether the transfer ends there. -/
def dstRest : List (Nat × Bool) := burst.dst.rest params Prod.mk

/-- A read burst goes to the data mover. -/
def rPush : Bool := burst.rValidO inp && inp.rReadyI

def wPush : Bool := burst.wValidO inp && inp.wReadyI

/-- The invariant: the channels hold what they support, and coupled ones are equally far. -/
structure Inv : Prop where
  src : burst.src.Fits params
  dst : burst.dst.Fits params
  shift : burst.shift < params.strbWidth
  coupled : burst.decoupleRw = false → burst.src.numBytes = burst.dst.numBytes

theorem Inv.reset : Inv params reset where
  src := .zero params
  dst := .zero params
  shift := params.strbWidth_pos
  coupled _ := rfl

variable {params burst inp}

theorem cNumBytesToPb_eq : burst.cNumBytesToPb params =
    min (burst.rNumBytesToPb params) (burst.wNumBytesToPb params) := by
  unfold cNumBytesToPb
  split
  next more => exact (Nat.min_eq_right (Nat.le_of_lt more)).symm
  next less => exact (Nat.min_eq_left (Nat.not_lt.mp less)).symm

theorem possible_src (params : AxiDmaParams) (burst : BurstDecoupled) :
    burst.src.Possible params (burst.rNumBytesPossible params) := by
  have own := burst.src.possible_numBytesToPb params burst.deburst
  have other := burst.dst.possible_numBytesToPb params burst.deburst
  unfold rNumBytesPossible
  split
  · exact own
  · rw [cNumBytesToPb_eq]
    exact own.mono (Nat.lt_min.mpr ⟨own.positive, other.positive⟩) (Nat.min_le_left _ _)

theorem possible_dst (params : AxiDmaParams) (burst : BurstDecoupled) :
    burst.dst.Possible params (burst.wNumBytesPossible params) := by
  have own := burst.dst.possible_numBytesToPb params burst.deburst
  have other := burst.src.possible_numBytesToPb params burst.deburst
  unfold wNumBytesPossible
  split
  · exact own
  · rw [cNumBytesToPb_eq]
    exact own.mono (Nat.lt_min.mpr ⟨other.positive, own.positive⟩) (Nat.min_le_right _ _)

theorem readyO_eq_true : burst.readyO params inp = true ↔ burst.rFinish params = true ∧
    burst.wFinish params = true ∧ inp.validI = true ∧ inp.rReadyI = true ∧ inp.wReadyI = true := by
  simp only [readyO, Bool.and_eq_true, and_assoc]

/-! ### What a cycle does to a channel -/

theorem step_of_ready (ready : burst.readyO params inp = true) :
    burst.step params inp = refill params inp.burstReqI inp.validI := by
  obtain ⟨-, -, -, rReady, wReady⟩ := readyO_eq_true.mp ready
  simp [step, burstD, ready, rReady, wReady]

theorem next_of_finish {chan : BurstChan} {possible : Nat} (finish : chan.finish possible = true) :
    chan.next params possible = BurstChan.zero := by
  have all : ¬possible < chan.numBytes := by simpa [BurstChan.finish] using finish
  rw [BurstChan.next, if_neg all]

/-- A channel that sends a burst and takes no new transfer is behind the burst. -/
theorem src_step_of_push (inv : burst.Inv params) (busy : burst.readyO params inp = false)
    (push : burst.rPush inp = true) :
    (burst.step params inp).src = burst.src.next params (burst.rNumBytesPossible params) := by
  have valid := inv.src.valid
  by_cases none : burst.src.numBytes = 0 <;> cases decoupled : burst.decoupleRw <;>
    simp_all [step, burstD, rPush, rValidO]

/-- One that sends none has none to send, or waits. -/
theorem src_step_of_idle (inv : burst.Inv params) (busy : burst.readyO params inp = false)
    (idle : burst.rPush inp = false) : (burst.step params inp).src = burst.src ∨
      (burst.src.numBytes = 0 ∧ (burst.step params inp).src = BurstChan.zero) := by
  have valid := inv.src.valid
  have zero : burst.src.numBytes = 0 →
      burst.src.next params (burst.rNumBytesPossible params) = BurstChan.zero := fun none =>
    next_of_finish (by simp [BurstChan.finish, none])
  by_cases none : burst.src.numBytes = 0 <;> cases decoupled : burst.decoupleRw <;>
    cases rReady : inp.rReadyI <;> cases wReady : inp.wReadyI <;>
    simp_all [step, burstD, rPush, rValidO]

theorem dst_step_of_push (inv : burst.Inv params) (busy : burst.readyO params inp = false)
    (push : burst.wPush inp = true) :
    (burst.step params inp).dst = burst.dst.next params (burst.wNumBytesPossible params) := by
  have valid := inv.dst.valid
  by_cases none : burst.dst.numBytes = 0 <;> cases decoupled : burst.decoupleRw <;>
    simp_all [step, burstD, wPush, wValidO]

theorem dst_step_of_idle (inv : burst.Inv params) (busy : burst.readyO params inp = false)
    (idle : burst.wPush inp = false) : (burst.step params inp).dst = burst.dst ∨
      (burst.dst.numBytes = 0 ∧ (burst.step params inp).dst = BurstChan.zero) := by
  have valid := inv.dst.valid
  have zero : burst.dst.numBytes = 0 →
      burst.dst.next params (burst.wNumBytesPossible params) = BurstChan.zero := fun none =>
    next_of_finish (by simp [BurstChan.finish, none])
  by_cases none : burst.dst.numBytes = 0 <;> cases decoupled : burst.decoupleRw <;>
    cases rReady : inp.rReadyI <;> cases wReady : inp.wReadyI <;>
    simp_all [step, burstD, wPush, wValidO]

/-! ### What a cycle does to the bytes that are left -/

theorem rest_of_none {γ : Type*} {chan : BurstChan} {g : Nat → Bool → γ} (none : chan.numBytes = 0) :
    chan.rest params g = [] := by
  rw [BurstChan.rest, none, List.range_zero, List.map_nil]

/-- The shift of a transfer moves each byte to the lane of its target. -/
theorem shiftedLane_refill (req : BurstReq) (validI : Bool) (i : Nat) :
    shiftedLane params (refill params req validI).shift ((req.src + i) % 2 ^ params.addrWidth) =
      (req.dst + i) % 2 ^ params.addrWidth % params.strbWidth := by
  have positive := params.strbWidth_pos
  have whole : params.strbWidth ∣ 2 ^ params.addrWidth :=
    params.strbWidth_dvd_pageSize.trans params.pageSize_dvd
  have shiftBelow : (refill params req validI).shift < params.strbWidth := Nat.mod_lt _ positive
  have srcSplit := Nat.mod_add_div req.src params.strbWidth
  have dstSplit := Nat.mod_add_div req.dst params.strbWidth
  have dstBelow := Nat.mod_lt req.dst positive
  -- the shift is the distance of the two lanes
  have distance : (refill params req validI).shift + req.dst ≡ req.src [MOD params.strbWidth] := by
    have lanes : (refill params req validI).shift + req.dst ≡ req.src % params.strbWidth +
        params.strbWidth - req.dst % params.strbWidth + req.dst % params.strbWidth
        [MOD params.strbWidth] := (Nat.mod_modEq _ _).add (Nat.mod_modEq _ _).symm
    rw [Nat.sub_add_cancel (by omega)] at lanes
    exact lanes.trans (Nat.ModEq.trans (Nat.add_mod_right _ _) (Nat.mod_modEq _ _))
  have moved : req.src + i + (params.strbWidth - (refill params req validI).shift) ≡ req.dst + i
      [MOD params.strbWidth] := by
    refine Nat.ModEq.add_right_cancel' (refill params req validI).shift ?_
    rw [Nat.add_assoc, Nat.sub_add_cancel (Nat.le_of_lt shiftBelow)]
    have commute : req.dst + i + (refill params req validI).shift =
        (refill params req validI).shift + req.dst + i := by omega
    rw [commute]
    exact Nat.ModEq.trans (Nat.add_mod_right _ _) (distance.add_right i).symm
  rw [Nat.mod_mod_of_dvd _ whole, shiftedLane, Nat.add_mod, Nat.mod_mod_of_dvd _ whole, ← Nat.add_mod]
  exact moved

theorem srcRest_refill (req : BurstReq) (validI : Bool) : (refill params req validI).srcRest params =
    (req.moves params).map (Move.toRead params) := by
  rw [srcRest, BurstChan.rest, BurstReq.moves, List.map_map]
  refine List.map_congr_left fun i _ => ?_
  exact Prod.ext rfl (shiftedLane_refill req validI i)

theorem dstRest_refill (req : BurstReq) (validI : Bool) : (refill params req validI).dstRest params =
    (req.moves params).map Move.toWrite := by
  rw [dstRest, BurstChan.rest, BurstReq.moves, List.map_map]
  rfl

section

variable (inv : burst.Inv params)

include inv

/-- A burst that is sent has bytes. -/
theorem some_of_rPush (push : burst.rPush inp = true) : burst.src.numBytes ≠ 0 := by
  have valid := inv.src.valid
  intro none
  cases decoupled : burst.decoupleRw <;> simp [rPush, rValidO, valid, none, decoupled] at push

theorem some_of_wPush (push : burst.wPush inp = true) : burst.dst.numBytes ≠ 0 := by
  have valid := inv.dst.valid
  intro none
  cases decoupled : burst.decoupleRw <;> simp [wPush, wValidO, valid, none, decoupled] at push

theorem sound_of_rPush (push : burst.rPush inp = true) : (burst.readReqO params).Sound params where
  legal := (possible_src params burst).legal inv.src (some_of_rPush inv push)
  spans := ⟨_, (possible_src params burst).spans (some_of_rPush inv push)⟩
  shift := inv.shift

theorem sound_of_wPush (push : burst.wPush inp = true) : (burst.writeReqO params).Sound params where
  legal := (possible_dst params burst).legal inv.dst (some_of_wPush inv push)
  spans := ⟨_, (possible_dst params burst).spans (some_of_wPush inv push)⟩
  numBeats := rfl
  isSingle := rfl

theorem srcRest_of_rPush (push : burst.rPush inp = true) : burst.srcRest params =
    fromBeat (ReadReq.beat params) ReadReq.len (burst.readReqO params) 0 ++
      (burst.src.next params (burst.rNumBytesPossible params)).rest params
        fun addr _ => (addr, shiftedLane params burst.shift addr) := by
  rw [fromBeat, ReadReq.len, ReadReq.beat_eq]
  exact (possible_src params burst).rest_eq inv.src (some_of_rPush inv push)

theorem dstRest_of_wPush (push : burst.wPush inp = true) : burst.dstRest params =
    fromBeat (WriteReq.beat params) WriteReq.len (burst.writeReqO params) 0 ++
      (burst.dst.next params (burst.wNumBytesPossible params)).rest params Prod.mk := by
  rw [fromBeat, WriteReq.len, WriteReq.beat_eq]
  exact (possible_dst params burst).rest_eq inv.dst (some_of_wPush inv push)

/-- A transfer that is taken joins what is left to read, and a burst that is sent leaves it. -/
theorem srcRest_step (inp : In) : burst.srcRest params ++ (if burst.readyO params inp then
      (inp.burstReqI.moves params).map (Move.toRead params) else []) =
    (if burst.rPush inp then fromBeat (ReadReq.beat params) ReadReq.len (burst.readReqO params) 0
      else []) ++ (burst.step params inp).srcRest params := by
  have none : burst.rPush inp = false → burst.readyO params inp = true → burst.srcRest params = [] := by
    intro idle ready
    obtain ⟨-, -, -, rReady, wReady⟩ := readyO_eq_true.mp ready
    rw [rPush, rReady, Bool.and_true, rValidO, wReady, Bool.and_true, ite_self, inv.src.valid,
      decide_eq_false_iff_not, not_not] at idle
    exact rest_of_none idle
  cases ready : burst.readyO params inp with
  | true =>
    rw [step_of_ready ready, srcRest_refill, if_pos rfl]
    cases push : burst.rPush inp with
    | false => rw [none push ready, if_neg Bool.false_ne_true]
    | true =>
      -- it is the last burst of the transfer, since another one is taken
      obtain ⟨finish, -⟩ := readyO_eq_true.mp ready
      rw [if_pos rfl, srcRest_of_rPush inv push, next_of_finish finish,
        rest_of_none (rfl : BurstChan.zero.numBytes = 0), List.append_nil]
  | false =>
    have shift : (burst.step params inp).shift = burst.shift := by simp [step, burstD, ready]
    have rest : (burst.step params inp).srcRest params =
        (burst.step params inp).src.rest params fun addr _ => (addr, shiftedLane params burst.shift addr) := by
      rw [srcRest, shift]
    rw [if_neg Bool.false_ne_true, List.append_nil, rest]
    cases push : burst.rPush inp with
    | true => rw [if_pos rfl, src_step_of_push inv ready push, ← srcRest_of_rPush inv push]
    | false =>
      rw [if_neg Bool.false_ne_true, List.nil_append]
      rcases src_step_of_idle inv ready push with same | ⟨noBytes, zero⟩
      · rw [same, srcRest]
      · rw [zero, srcRest, rest_of_none noBytes, rest_of_none (rfl : BurstChan.zero.numBytes = 0)]

theorem dstRest_step (inp : In) : burst.dstRest params ++ (if burst.readyO params inp then
      (inp.burstReqI.moves params).map Move.toWrite else []) =
    (if burst.wPush inp then fromBeat (WriteReq.beat params) WriteReq.len (burst.writeReqO params) 0
      else []) ++ (burst.step params inp).dstRest params := by
  have none : burst.wPush inp = false → burst.readyO params inp = true → burst.dstRest params = [] := by
    intro idle ready
    obtain ⟨-, -, -, rReady, wReady⟩ := readyO_eq_true.mp ready
    rw [wPush, wReady, Bool.and_true, wValidO, rReady, Bool.and_true, ite_self, inv.dst.valid,
      decide_eq_false_iff_not, not_not] at idle
    exact rest_of_none idle
  cases ready : burst.readyO params inp with
  | true =>
    rw [step_of_ready ready, dstRest_refill, if_pos rfl]
    cases push : burst.wPush inp with
    | false => rw [none push ready, if_neg Bool.false_ne_true]
    | true =>
      obtain ⟨-, finish, -⟩ := readyO_eq_true.mp ready
      rw [if_pos rfl, dstRest_of_wPush inv push, next_of_finish finish,
        rest_of_none (rfl : BurstChan.zero.numBytes = 0), List.append_nil]
  | false =>
    rw [if_neg Bool.false_ne_true, List.append_nil]
    cases push : burst.wPush inp with
    | true => rw [if_pos rfl, dstRest_of_wPush inv push, dstRest, dst_step_of_push inv ready push]
    | false =>
      rw [if_neg Bool.false_ne_true, List.nil_append]
      rcases dst_step_of_idle inv ready push with same | ⟨noBytes, zero⟩
      · rw [dstRest, dstRest, same]
      · rw [dstRest, dstRest, zero, rest_of_none noBytes,
          rest_of_none (rfl : BurstChan.zero.numBytes = 0)]

/-- A write channel that could send and does not is at least as far as the read channel. -/
theorem numBytes_le (ready : inp.wReadyI = true) (idle : burst.wPush inp = false) :
    burst.dst.numBytes ≤ burst.src.numBytes := by
  have valid := inv.dst.valid
  by_cases none : burst.dst.numBytes = 0
  · omega
  · cases decoupled : burst.decoupleRw with
    | true => simp [wPush, wValidO, valid, none, decoupled, ready] at idle
    | false => exact Nat.le_of_eq (inv.coupled decoupled).symm

theorem Inv.step (fits : burst.readyO params inp = true → inp.burstReqI.Fits params) :
    (burst.step params inp).Inv params := by
  cases ready : burst.readyO params inp with
  | true =>
    rw [step_of_ready ready]
    obtain ⟨-, -, valid, -⟩ := readyO_eq_true.mp ready
    have fits := fits ready
    exact
      { src := ⟨fits.src, by rw [refill, valid, Bool.and_true], fun _ => fits.burstSrc⟩
        dst := ⟨fits.dst, by rw [refill, valid, Bool.and_true], fun _ => fits.burstDst⟩
        shift := Nat.mod_lt _ params.strbWidth_pos
        coupled := fun _ => rfl }
  | false =>
    refine ⟨?_, ?_, ?_, fun coupled => ?_⟩
    · cases push : burst.rPush inp with
      | true => rw [src_step_of_push inv ready push]; exact inv.src.next _
      | false =>
        rcases src_step_of_idle inv ready push with same | ⟨-, zero⟩
        · rw [same]; exact inv.src
        · rw [zero]; exact .zero params
    · cases push : burst.wPush inp with
      | true => rw [dst_step_of_push inv ready push]; exact inv.dst.next _
      | false =>
        rcases dst_step_of_idle inv ready push with same | ⟨-, zero⟩
        · rw [same]; exact inv.dst
        · rw [zero]; exact .zero params
    · have shift : (BurstDecoupled.step params burst inp).shift = burst.shift := by
        simp [BurstDecoupled.step, burstD, ready]
      rw [shift]
      exact inv.shift
    · -- coupled channels move on together and by the same number of bytes
      have decoupled : burst.decoupleRw = false := by
        simpa [BurstDecoupled.step, burstD, ready] using coupled
      have even := inv.coupled decoupled
      have possible : burst.rNumBytesPossible params = burst.wNumBytesPossible params := by
        simp [rNumBytesPossible, wNumBytesPossible, decoupled]
      cases rReady : inp.rReadyI <;> cases wReady : inp.wReadyI <;>
        simp [BurstDecoupled.step, burstD, ready, decoupled, rReady, wReady, even, possible, BurstChan.next,
          apply_ite BurstChan.numBytes]

end

end BurstDecoupled

end Pspin
