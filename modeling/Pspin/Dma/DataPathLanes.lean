import Pspin.Dma.BurstBytes
import Pspin.Dma.DmaDataPath

/-! # What the lanes of the data path hold

The lanes together hold bytes in the order in which they were read, each with the lane it is on.  A
word that is read joins these bytes at the end, and a word that is written takes the first of them:
its lanes come first, and it is not written until each of them has something.
-/

namespace Pspin

open Clocked

namespace AxiDmaDataPath

variable {params : AxiDmaParams}

/-- The buffer holds these bytes, oldest first, each on its lane. -/
def Holds (path : AxiDmaDataPath params) (held : List (Nat × BitVec 8)) : Prop :=
  ∀ lane < params.strbWidth, (path.buffer lane).contents = ofKey lane held

theorem Holds.reset : (reset : AxiDmaDataPath params).Holds [] := fun _ _ => FifoV3.contents_reset _

/-! ## The barrel shifter -/

theorem unshifted_lt (shift lane : Nat) : unshifted params shift lane < params.strbWidth :=
  Nat.mod_lt _ params.strbWidth_pos

variable {shift lane : Nat}

theorem unshifted_shiftedLane (small : shift < params.strbWidth) (inside : lane < params.strbWidth) :
    unshifted params shift (shiftedLane params shift lane) = lane := by
  have whole : lane + (params.strbWidth - shift) + shift = lane + params.strbWidth := by omega
  rw [unshifted, shiftedLane, Nat.mod_add_mod, whole, Nat.add_mod_right, Nat.mod_eq_of_lt inside]

theorem shiftedLane_unshifted (small : shift < params.strbWidth) (inside : lane < params.strbWidth) :
    shiftedLane params shift (unshifted params shift lane) = lane := by
  have whole : lane + shift + (params.strbWidth - shift) = lane + params.strbWidth := by omega
  rw [unshifted, shiftedLane, Nat.mod_add_mod, whole, Nat.add_mod_right, Nat.mod_eq_of_lt inside]

variable (path : AxiDmaDataPath params) (inp : AxiDmaDataPathIn)

/-! ## Words that are read -/

/-- The lanes of the bus that carry bytes of the read burst. -/
def readLanes : List Nat :=
  beatLanes params.strbWidth inp.r.offset inp.r.tailer path.isFirstR inp.rLastI

/-- The bytes that join the buffer. -/
def entering : List (Nat × BitVec 8) :=
  if path.push inp then
    (path.readLanes inp).map fun lane => (shiftedLane params inp.r.shift lane, inp.rDataI lane)
  else []

variable {path inp}

/-- The read side asks for the next burst with the last beat it takes. -/
theorem rDpReadyO_eq : path.rDpReadyO inp = (inp.rDpValidI && (path.push inp && inp.rLastI)) := by
  rw [rDpReadyO, push, Bool.and_assoc, Bool.and_assoc, Bool.and_comm inp.rLastI]

/-- The write side is done with a burst with the last beat it gives. -/
theorem wDpReadyO_eq : path.wDpReadyO inp = (path.writeHappening inp && path.wLastO inp) := by
  rw [wDpReadyO, wLastO, writeHappening]
  cases path.readyToWrite inp <;> cases path.isLastW inp <;> cases inp.wReadyI <;> rfl

theorem mem_readLanes : lane ∈ path.readLanes inp ↔
    lane < params.strbWidth ∧ path.readAlignedInMask inp lane = true := mem_beatLanes

theorem ofKey_entering (small : path.push inp = true → inp.r.shift < params.strbWidth)
    (inside : lane < params.strbWidth) : ofKey lane (path.entering inp) =
      if path.bufferPush inp lane then [bufferIn params inp lane] else [] := by
  unfold entering bufferPush
  cases pushed : path.push inp with
  | false => rfl
  | true =>
    have small := small pushed
    rw [if_pos rfl, Bool.true_and]
    -- the bytes by the lanes they are moved to
    have moved : ((path.readLanes inp).map fun lane => (shiftedLane params inp.r.shift lane, inp.rDataI lane)) =
        ((path.readLanes inp).map (shiftedLane params inp.r.shift)).map fun lane =>
          (lane, bufferIn params inp lane) := by
      rw [List.map_map]
      refine List.map_congr_left fun lane member => ?_
      rw [Function.comp_apply, bufferIn, unshifted_shiftedLane small (mem_readLanes.mp member).1]
    have nodup : ((path.readLanes inp).map (shiftedLane params inp.r.shift)).Nodup := by
      refine nodup_beatLanes.map_on fun lane member lane' member' same => ?_
      rw [← unshifted_shiftedLane small (mem_readLanes.mp member).1, same,
        unshifted_shiftedLane small (mem_readLanes.mp member').1]
    have member : lane ∈ (path.readLanes inp).map (shiftedLane params inp.r.shift) ↔
        path.inMask inp lane = true := by
      rw [List.mem_map, inMask]
      constructor
      · rintro ⟨lane', member, rfl⟩
        rw [unshifted_shiftedLane small (mem_readLanes.mp member).1]
        exact (mem_readLanes.mp member).2
      · exact fun masked => ⟨_, mem_readLanes.mpr ⟨unshifted_lt _ _, masked⟩,
          shiftedLane_unshifted small inside⟩
    rw [moved, ofKey_map nodup]
    simp only [member]

/-- A word is taken only if its lanes have a place for it. -/
theorem fullO_of_bufferPush (inside : lane < params.strbWidth)
    (pushed : path.bufferPush inp lane = true) : (path.buffer lane).fullO = false := by
  rw [bufferPush, push, Bool.and_eq_true, Bool.and_eq_true, Bool.not_eq_true'] at pushed
  have notFull := pushed.1.2
  rw [full, List.any_eq_false] at notFull
  have here := notFull lane (List.mem_range.mpr inside)
  rw [pushed.2, Bool.and_true] at here
  exact Bool.eq_false_iff.mpr here

/-! ## Words that are written -/

variable (path inp) in
/-- The lanes that the word to be written takes. -/
def writeLanes : List Nat :=
  beatLanes params.strbWidth inp.w.offset inp.w.tailer (path.isFirstW inp) (path.isLastW inp)

theorem mem_writeLanes : lane ∈ path.writeLanes inp ↔
    lane < params.strbWidth ∧ path.outMask inp lane = true := mem_beatLanes

theorem available_eq_true {mask : Nat → Bool} : path.available mask = true ↔
    (∀ lane < params.strbWidth, mask lane = true → (path.buffer lane).emptyO = false) ∧
      ∃ lane < params.strbWidth, (path.buffer lane).emptyO = false := by
  simp only [available, bufferClean, Bool.and_eq_true, List.all_eq_true, List.mem_range,
    Bool.or_eq_true, Bool.not_eq_true', List.all_eq_false, Bool.not_eq_true]
  refine and_congr_left fun _ => forall_congr' fun lane => imp_congr_right fun _ => ?_
  cases mask lane <;> simp

section

variable {held : List (Nat × BitVec 8)} (holds : path.Holds held)

include holds

theorem emptyO_iff (inside : lane < params.strbWidth) :
    (path.buffer lane).emptyO = false ↔ ofKey lane held ≠ [] := by
  rw [FifoV3.emptyO_eq_false, holds lane inside]

/-- An empty buffer writes nothing. -/
theorem readyToWrite_of_empty (empty : held = []) : path.readyToWrite inp = false := by
  subst empty
  rw [Bool.eq_false_iff]
  intro ready
  obtain ⟨-, lane, inside, some⟩ := available_eq_true.mp ready
  exact (emptyO_iff holds inside).mp some rfl

/-- A word that is ready shows the oldest byte of each of its lanes. -/
theorem head?_eq_wDataO (ready : path.readyToWrite inp = true) (inside : lane < params.strbWidth)
    (masked : path.outMask inp lane = true) :
    (ofKey lane held).head? = some (path.wDataO inp lane) := by
  have some := (emptyO_iff holds inside).mp ((available_eq_true.mp ready).1 lane inside masked)
  obtain ⟨byte, rest, first⟩ := List.exists_cons_of_ne_nil some
  have data : (path.buffer lane).dataO = byte := FifoV3.dataO_eq_head ((holds lane inside).trans first)
  rw [first, List.head?_cons, wDataO, wStrbO, ready, masked, data]
  rfl

/-- If the bytes come in the order in which they are written, a word that is ready takes the
    first of them. -/
theorem exists_written {later : List Nat} (ready : path.readyToWrite inp = true)
    (ordered : held.map Prod.fst <+: path.writeLanes inp ++ later) :
    ∃ front back, held = front ++ back ∧ front.map Prod.fst = path.writeLanes inp ∧
      front = (path.writeLanes inp).map fun lane => (lane, path.wDataO inp lane) := by
  have lanes := (available_eq_true.mp ready).1
  obtain ⟨front, back, split, keys⟩ := exists_front nodup_beatLanes ordered fun lane member =>
    (emptyO_iff holds (mem_writeLanes.mp member).1).mp (lanes lane (mem_writeLanes.mp member).1
      (mem_writeLanes.mp member).2)
  refine ⟨front, back, split, keys, ?_⟩
  have nodup : (front.map Prod.fst).Nodup := by
    rw [keys]
    exact nodup_beatLanes
  have takes : front = (front.map Prod.fst).map fun lane => (lane, path.wDataO inp lane) := by
    refine eq_map_of_first back nodup fun lane member => ?_
    rw [keys] at member
    rw [← split]
    exact head?_eq_wDataO holds ready (mem_writeLanes.mp member).1 (mem_writeLanes.mp member).2
  rwa [keys] at takes

/-- A cycle takes the bytes that are written from the front and adds those that are read. -/
theorem Holds.step {front back : List (Nat × BitVec 8)} (small : path.push inp = true → inp.r.shift < params.strbWidth) (split : held = front ++ back)
    (written : front.map Prod.fst = if path.writeHappening inp then path.writeLanes inp else []) :
    (path.step inp).Holds (back ++ path.entering inp) := by
  subst split
  intro lane inside
  have nodup : (front.map Prod.fst).Nodup := by
    rw [written]
    split
    · exact nodup_beatLanes
    · exact List.nodup_nil
  have popped : lane ∈ front.map Prod.fst ↔ path.bufferPop inp lane = true := by
    rw [written, bufferPop]
    cases path.writeHappening inp with
    | false => simp
    | true => simp [mem_writeLanes, inside]
  have pushed : (path.bufferPush inp lane && !(path.buffer lane).fullO) =
      path.bufferPush inp lane := by
    cases pushed : path.bufferPush inp lane with
    | false => rfl
    | true => rw [fullO_of_bufferPush inside pushed]; rfl
  have contents : ((path.step inp).buffer lane).contents = _ :=
    FifoV3.contents_step (path.buffer lane) (bufferIn params inp lane) (path.bufferPush inp lane)
      (path.bufferPop inp lane)
  have left : ofKey lane back = if path.bufferPop inp lane then (ofKey lane (front ++ back)).tail
      else ofKey lane (front ++ back) := by
    rw [ofKey_front nodup]
    simp only [popped]
  rw [contents, pushed, holds lane inside, ofKey_append lane back, ofKey_entering small inside, left]

end

/-! ## The beats of a write burst -/

/-- The unit has written `beat` beats of a burst whose last beat is `len`. -/
structure Counts (path : AxiDmaDataPath params) (w : DescW) (len beat : Nat) : Prop where
  before : beat ≤ len
  numBeats : w.numBeats = len
  isSingle : w.isSingle = (len == 0)
  small : len < 2 ^ 8
  valid : path.wCntValidQ = decide (beat ≠ 0)
  left : beat ≠ 0 → path.wNumBeatsQ = len + 1 - beat

/-- Nothing is counted while nothing is written. -/
theorem counters_of_idle (idle : path.writeHappening inp = false) :
    (path.step inp).wCntValidQ = path.wCntValidQ ∧ (path.step inp).wNumBeatsQ = path.wNumBeatsQ := by
  refine ⟨?_, ?_⟩
  · show path.wCntValidD inp = path.wCntValidQ
    simp [wCntValidD, idle]
  · show path.wNumBeatsD inp = path.wNumBeatsQ
    simp [wNumBeatsD, idle]

namespace Counts

variable {len beat : Nat} (counts : path.Counts inp.w len beat)

include counts

theorem isLastW_eq : path.isLastW inp = (beat == len) := by
  have before := counts.before
  rw [isLastW, counts.isSingle, counts.valid]
  by_cases single : len = 0
  · subst single
    obtain rfl : beat = 0 := by omega
    rfl
  · by_cases zero : beat = 0
    · subst zero
      simp [single, Ne.symm single]
    · have ends : len + 1 - beat = 1 ↔ beat = len := by omega
      simp [single, zero, counts.left zero, Bool.beq_eq_decide_eq, ends]

/-- While the first word is not complete, the unit does not know that it is the first one, but then
    it waits for all lanes. -/
theorem isFirstW_eq (ready : path.readyToWrite inp = true) : path.isFirstW inp = (beat == 0) := by
  have before := counts.before
  by_cases zero : beat = 0
  · subst zero
    by_contra notFirst
    rw [beq_self_eq_true, Bool.not_eq_true] at notFirst
    have last : path.isLastW inp = false := by
      rw [counts.isLastW_eq]
      cases single : (len == 0) with
      | true => simp [isFirstW, counts.isSingle, single] at notFirst
      | false =>
        rw [beq_eq_false_iff_ne] at single ⊢
        exact Ne.symm single
    have all := available_eq_true.mp ready
    have possible : path.firstPossible inp = true := available_eq_true.mpr
      ⟨fun lane inside _ => all.1 lane inside (by simp [outMask, beatMask, notFirst, last]), all.2⟩
    simp [isFirstW, possible, counts.valid] at notFirst
  · have several : (len == 0) = false := by
      rw [beq_eq_false_iff_ne]
      omega
    simp [isFirstW, counts.isSingle, several, counts.valid, zero]

/-- The word that is ready is the next beat of the burst. -/
theorem writeLanes_eq (ready : path.readyToWrite inp = true) : path.writeLanes inp =
    beatLanes params.strbWidth inp.w.offset inp.w.tailer (beat == 0) (beat == len) := by
  rw [writeLanes, counts.isFirstW_eq ready, counts.isLastW_eq]

/-- A word is ready if each lane of the next beat has something. -/
theorem readyToWrite_of_filled (some : ∃ lane, lane ∈ beatLanes params.strbWidth inp.w.offset
      inp.w.tailer (beat == 0) (beat == len))
    (filled : ∀ lane ∈ beatLanes params.strbWidth inp.w.offset inp.w.tailer (beat == 0) (beat == len),
      (path.buffer lane).emptyO = false) : path.readyToWrite inp = true := by
  have last := counts.isLastW_eq
  have ready {mask : Nat → Bool} (same : mask = beatMask inp.w.offset inp.w.tailer (beat == 0)
      (beat == len)) : path.available mask = true := by
    obtain ⟨lane, member⟩ := some
    refine available_eq_true.mpr ⟨fun lane inside masked => ?_, lane, (mem_beatLanes.mp member).1,
      filled lane member⟩
    rw [same] at masked
    exact filled lane (mem_beatLanes.mpr ⟨inside, masked⟩)
  have first : path.isFirstW inp = (beat == 0) := by
    rw [isFirstW, counts.isSingle, counts.valid]
    by_cases single : len = 0
    · have before := counts.before
      obtain rfl : beat = 0 := by omega
      simp [single]
    · by_cases zero : beat = 0
      · subst zero
        -- the first word of several is the lanes from the offset on
        have possible : path.firstPossible inp = true := by
          refine ready (funext fun lane => ?_)
          simp [beatMask, Ne.symm single]
        simp [single, possible]
      · simp [single, zero]
  refine ready (funext fun lane => ?_)
  rw [outMask, first, last]

theorem step_of_more (happening : path.writeHappening inp = true) (more : beat < len) :
    (path.step inp).Counts inp.w len (beat + 1) := by
  have ready : path.readyToWrite inp = true := by
    rw [writeHappening, Bool.and_eq_true] at happening
    exact happening.1
  have first := counts.isFirstW_eq ready
  have last := counts.isLastW_eq
  have several : (len == 0) = false := by
    rw [beq_eq_false_iff_ne]
    omega
  have notLast : (beat == len) = false := by
    rw [beq_eq_false_iff_ne]
    omega
  refine ⟨more, counts.numBeats, counts.isSingle, counts.small, ?_, fun _ => ?_⟩
  · simp only [step, wCntValidD, happening, first, last, notLast, counts.isSingle, several,
      counts.valid, Bool.and_true, Bool.false_eq_true, if_false, Nat.succ_ne_zero,
      ne_eq, not_false_eq_true, decide_true]
    by_cases zero : beat = 0 <;> simp [zero]
  · have small := counts.small
    by_cases zero : beat = 0
    · subst zero
      simp [step, wNumBeatsD, happening, first, counts.isSingle, several, counts.valid,
        counts.numBeats]
    · have left : decrement 8 (len + 1 - beat) = len + 1 - beat - 1 :=
        decrement_of_pos (by omega) (by omega)
      simp only [step, wNumBeatsD, happening, counts.isSingle, several, counts.valid, zero,
        counts.left zero, left, ne_eq, not_false_eq_true, decide_true, Bool.and_self,
        Bool.false_eq_true, if_false, if_true]
      omega

/-- A word that is ready and not taken is ready in the next cycle, and it is the same one. -/
theorem waits {inp' : AxiDmaDataPathIn} (ready : path.readyToWrite inp = true)
    (idle : path.writeHappening inp = false) (same : inp'.w = inp.w) :
    (path.step inp).readyToWrite inp' = true ∧
      (path.step inp).isLastW inp' = path.isLastW inp ∧
      (∀ lane, (path.step inp).outMask inp' lane = path.outMask inp lane) ∧
      ∀ lane < params.strbWidth, path.outMask inp lane = true →
        ((path.step inp).buffer lane).dataO = (path.buffer lane).dataO := by
  obtain ⟨valid, beats⟩ := counters_of_idle idle
  have last : (path.step inp).isLastW inp' = path.isLastW inp := by
    rw [isLastW, isLastW, same, valid, beats]
  have kept (lane : Nat) (some : (path.buffer lane).emptyO = false) :
      ((path.step inp).buffer lane).emptyO = false ∧
        ((path.step inp).buffer lane).dataO = (path.buffer lane).dataO := by
    have popped : path.bufferPop inp lane = false := by rw [bufferPop, idle, Bool.false_and]
    have after : (path.step inp).buffer lane = (path.buffer lane).step (bufferIn params inp lane)
        (path.bufferPush inp lane) false := by
      rw [← popped]
      rfl
    rw [after]
    exact FifoV3.front_waits some _ _
  -- more lanes are filled, so a mask that was available still is
  have available {mask : Nat → Bool} (before : path.available mask = true) :
      (path.step inp).available mask = true := by
    obtain ⟨all, lane, inside, some⟩ := available_eq_true.mp before
    exact available_eq_true.mpr ⟨fun lane inside masked => (kept lane (all lane inside masked)).1,
      lane, inside, (kept lane some).1⟩
  have first : (path.step inp).isFirstW inp' = path.isFirstW inp := by
    have known := counts.isFirstW_eq ready
    rw [isFirstW, isFirstW, same, valid]
    cases single : inp.w.isSingle with
    | true => rfl
    | false =>
      rw [isFirstW, single, if_neg Bool.false_ne_true] at known
      cases counting : path.wCntValidQ with
      | true => simp
      | false =>
        have zero : beat = 0 := by simpa [counts.valid] using counting
        have possible : path.firstPossible inp = true := by simpa [counting, zero] using known
        have still : (path.step inp).firstPossible inp' = true := by
          rw [firstPossible, same]
          exact available possible
        rw [possible, still]
  have mask (lane : Nat) : (path.step inp).outMask inp' lane = path.outMask inp lane := by
    rw [outMask, outMask, first, last, same]
  refine ⟨?_, last, mask, fun lane inside masked => ?_⟩
  · rw [readyToWrite, funext mask]
    exact available ready
  · exact (kept lane ((available_eq_true.mp ready).1 lane inside masked)).2

/-- Behind the last beat the unit counts nothing. -/
theorem step_of_last (happening : path.writeHappening inp = true) (ends : beat = len) :
    (path.step inp).wCntValidQ = false := by
  have last : path.isLastW inp = true := by rw [counts.isLastW_eq, ends, beq_self_eq_true]
  show path.wCntValidD inp = false
  rw [wCntValidD]
  cases single : inp.w.isSingle with
  | true =>
    have zero : len = 0 := by simpa [counts.isSingle] using single
    simp [counts.valid, ends, zero]
  | false => simp [last, happening]

end Counts

end AxiDmaDataPath

end Pspin
