import Pspin.Dma.BackendBus

/-! # The work before a DMA backend

Each event of a backend takes something off what is left to do: a byte that waits weighs more than one
whose burst is sent, and a burst that is sent is worth its address, its data and its acknowledgement.  A
transfer that is taken adds a fixed amount for each of its bytes.
-/

namespace Pspin

open Clocked

/-- What a transfer adds to the work. -/
def BurstReq.cost (req : BurstReq) : Nat := 1 + 7 * req.numBytes

namespace AxiDmaTrace

variable {params : AxiDmaParams}

section

variable (trace : AxiDmaTrace params) (inp : AxiDmaBackendIn)

/-- The bytes of the transfers that wait. -/
def waiting : List Move := trace.1.burstRequestFifo.contents.flatMap (BurstReq.moves params)

def work : Nat :=
  trace.1.burstRequestFifo.contents.length +
    3 * ((trace.1.burst.srcRest params).length + trace.waiting.length) +
    (restOf (ReadReq.beat params) ReadReq.len trace.reads trace.2.rBeat).length +
    trace.1.mover.arEmitter.contents.length +
    4 * ((trace.1.burst.dstRest params).length + trace.waiting.length) +
    (restOf (WriteReq.beat params) WriteReq.len trace.writes trace.2.wBeat).length +
    trace.1.mover.awEmitter.contents.length + trace.writes.length + trace.2.answering.length

/-- The work that the transfers taken so far have added. -/
def given : Nat := (trace.2.taken.map BurstReq.cost).sum

/-- Something happens in the cycle. -/
def acts : Bool :=
  trace.1.burstReqPop inp || trace.1.burst.rPush (trace.1.reshaperIn inp) ||
    trace.1.burst.wPush (trace.1.reshaperIn inp) || trace.1.arPop inp || trace.1.awPop inp ||
    trace.1.rTakes inp || trace.1.wGives inp || inp.axiDmaResI.bValid

end

variable {trace : AxiDmaTrace params} {inp : AxiDmaBackendIn}

/-! ## Transfers -/

theorem length_fifo_step (trace : AxiDmaTrace params) (inp : AxiDmaBackendIn) :
    (trace.step inp).1.burstRequestFifo.contents.length + (trace.1.burstReqPop inp).toNat =
      trace.1.burstRequestFifo.contents.length + (trace.1.takes inp).toNat := by
  have passes := congrArg List.length (fifo_passes trace inp fun req => [req])
  rw [List.flatMap_singleton', List.flatMap_singleton', List.length_append, List.length_append] at passes
  cases takes : trace.1.takes inp <;> cases pop : trace.1.burstReqPop inp <;>
    simp only [takes, pop, if_true, Bool.false_eq_true, if_false, List.length_nil, List.length_singleton,
      Bool.toNat_true, Bool.toNat_false] at passes ⊢ <;> omega

theorem given_step (trace : AxiDmaTrace params) (inp : AxiDmaBackendIn) : (trace.step inp).given =
    trace.given + (trace.1.takes inp).toNat + 7 * (trace.newMoves inp).length := by
  show ((trace.2.taken ++ if trace.1.takes inp then [inp.burstReqI] else []).map BurstReq.cost).sum = _
  rw [List.map_append, List.sum_append, given, newMoves]
  cases trace.1.takes inp with
  | false => simp
  | true => simp [BurstReq.cost, BurstReq.moves, Nat.add_assoc]

/-! ## Reads -/

section

variable (trace inp) in
/-- The bytes of the read burst that is sent. -/
def rSent : List (Nat × Nat) :=
  if trace.1.burst.rPush (trace.1.reshaperIn inp) then
    fromBeat (ReadReq.beat params) ReadReq.len (trace.1.burst.readReqO params) 0
  else []

variable (trace inp) in
/-- The bytes of the write burst that is sent. -/
def wSent : List (Nat × Bool) :=
  if trace.1.burst.wPush (trace.1.reshaperIn inp) then
    fromBeat (WriteReq.beat params) WriteReq.len (trace.1.burst.writeReqO params) 0
  else []

theorem length_newMoves (trace : AxiDmaTrace params) (inp : AxiDmaBackendIn) {γ : Type*} (f : Move → γ) :
    (if trace.1.takes inp then (inp.burstReqI.moves params).map f else []).length =
      (trace.newMoves inp).length := by
  rw [newMoves]
  cases trace.1.takes inp <;> simp

theorem length_waiting {γ : Type*} (trace : AxiDmaTrace params) (f : Move → γ) :
    (trace.1.burstRequestFifo.contents.flatMap fun req => (req.moves params).map f).length =
      trace.waiting.length := by
  rw [waiting, ← List.map_flatMap, List.length_map]

theorem length_srcRest_step (burst : trace.1.burst.Inv params) (inp : AxiDmaBackendIn) :
    ((trace.step inp).1.burst.srcRest params).length + (trace.step inp).waiting.length +
        (trace.rSent inp).length =
      (trace.1.burst.srcRest params).length + trace.waiting.length + (trace.newMoves inp).length := by
  have cut := BurstDecoupled.srcRest_step burst (trace.1.reshaperIn inp)
  have passes := congrArg List.length (Passes.behind cut (fifo_passes trace inp fun req =>
    (req.moves params).map (Move.toRead params)))
  simp only [List.length_append, length_newMoves, length_waiting] at passes
  have after : (trace.step inp).1.burst.srcRest params =
      (trace.1.burst.step params (trace.1.reshaperIn inp)).srcRest params := rfl
  rw [after, rSent]
  omega

theorem length_dstRest_step (burst : trace.1.burst.Inv params) (inp : AxiDmaBackendIn) :
    ((trace.step inp).1.burst.dstRest params).length + (trace.step inp).waiting.length +
        (trace.wSent inp).length =
      (trace.1.burst.dstRest params).length + trace.waiting.length + (trace.newMoves inp).length := by
  have cut := BurstDecoupled.dstRest_step burst (trace.1.reshaperIn inp)
  have passes := congrArg List.length (Passes.behind cut (fifo_passes trace inp fun req =>
    (req.moves params).map Move.toWrite))
  simp only [List.length_append, length_newMoves, length_waiting] at passes
  have after : (trace.step inp).1.burst.dstRest params =
      (trace.1.burst.step params (trace.1.reshaperIn inp)).dstRest params := rfl
  rw [after, wSent]
  omega

/-- A burst that is sent has bytes. -/
theorem toNat_rPush_le (burst : trace.1.burst.Inv params) (inp : AxiDmaBackendIn) :
    (trace.1.burst.rPush (trace.1.reshaperIn inp)).toNat ≤ (trace.rSent inp).length := by
  cases push : trace.1.burst.rPush (trace.1.reshaperIn inp) with
  | false => exact Nat.zero_le _
  | true =>
    obtain ⟨count, spans⟩ := (BurstDecoupled.sound_of_rPush burst push).spans
    have first := spans.length_beat_pos (fun addr _ => (addr, shiftedLane params
      (trace.1.burst.readReqO params).r.shift addr)) (Nat.zero_le _)
    rw [rSent, if_pos push, fromBeat_cons (Nat.zero_le _), List.length_append]
    exact Nat.le_trans first (Nat.le_add_right _ _)

theorem toNat_wPush_le (burst : trace.1.burst.Inv params) (inp : AxiDmaBackendIn) :
    (trace.1.burst.wPush (trace.1.reshaperIn inp)).toNat ≤ (trace.wSent inp).length := by
  cases push : trace.1.burst.wPush (trace.1.reshaperIn inp) with
  | false => exact Nat.zero_le _
  | true =>
    obtain ⟨count, spans⟩ := (BurstDecoupled.sound_of_wPush burst push).spans
    have first := spans.length_beat_pos Prod.mk (Nat.zero_le _)
    rw [wSent, if_pos push, fromBeat_cons (Nat.zero_le _), List.length_append]
    exact Nat.le_trans first (Nat.le_add_right _ _)

theorem length_reads_step (reading : trace.Reading) (permits : trace.Permits inp) :
    (restOf (ReadReq.beat params) ReadReq.len (trace.step inp).reads (trace.step inp).2.rBeat).length +
        (trace.readBeat inp).length =
      (restOf (ReadReq.beat params) ReadReq.len trace.reads trace.2.rBeat).length +
        (trace.rSent inp).length := by
  have bursts := reading.place.passes (ReadReq.beat params) (reading.exists_taken permits)
    (if trace.1.burst.rPush (trace.1.reshaperIn inp) then [trace.1.burst.readReqO params] else [])
  rw [← reading.reads_step permits, flatMap_singleton_if] at bursts
  have lengths := congrArg List.length bursts
  rw [List.length_append, List.length_append] at lengths
  exact (Nat.add_comm _ _).trans lengths.symm

theorem length_writes_step (writing : trace.Writing) (permits : trace.Permits inp) :
    (restOf (WriteReq.beat params) WriteReq.len (trace.step inp).writes
        (trace.step inp).2.wBeat).length + (trace.writeBeat inp).length =
      (restOf (WriteReq.beat params) WriteReq.len trace.writes trace.2.wBeat).length +
        (trace.wSent inp).length := by
  have bursts := writing.place.passes (WriteReq.beat params) (writing.exists_given permits)
    (if trace.1.burst.wPush (trace.1.reshaperIn inp) then [trace.1.burst.writeReqO params] else [])
  rw [← writing.writes_step permits, flatMap_singleton_if] at bursts
  have lengths := congrArg List.length bursts
  rw [List.length_append, List.length_append] at lengths
  exact (Nat.add_comm _ _).trans lengths.symm

/-- A beat has bytes. -/
theorem toNat_rTakes_le (reading : trace.Reading) (permits : trace.Permits inp) :
    (trace.1.rTakes inp).toNat ≤ (trace.readBeat inp).length := by
  cases takes : trace.1.rTakes inp with
  | false => exact Nat.zero_le _
  | true =>
    obtain ⟨req, rest, first, -⟩ := reading.exists_taken permits takes
    obtain ⟨count, spans⟩ := (reading.sound req (by rw [first]; exact List.mem_cons_self)).spans
    have before := reading.place.before req (by rw [first]; rfl)
    have beat : trace.readBeat inp = req.beat params trace.2.rBeat := by simp [readBeat, takes, first]
    rw [beat]
    exact spans.length_beat_pos _ before

theorem toNat_wGives_le (writing : trace.Writing) (permits : trace.Permits inp) :
    (trace.1.wGives inp).toNat ≤ (trace.writeBeat inp).length := by
  cases gives : trace.1.wGives inp with
  | false => exact Nat.zero_le _
  | true =>
    obtain ⟨req, rest, first, -⟩ := writing.exists_given permits gives
    obtain ⟨count, spans⟩ := (writing.sound req (by rw [first]; exact List.mem_cons_self)).spans
    have before := writing.place.before req (by rw [first]; rfl)
    have beat : trace.writeBeat inp = req.beat params trace.2.wBeat := by simp [writeBeat, gives, first]
    rw [beat]
    exact spans.length_beat_pos _ before

end

/-! ## Queues -/

/-- How many entries a FIFO has after a cycle that pops it only if it has some. -/
theorem length_emitter_step {α : Type} {depth : Nat} {emitter : FifoV3 α depth} {pushI popI : Bool}
    (room : pushI = true → emitter.fullO = false) (some : popI = true → emitter.contents ≠ [])
    (dataI : α) : (emitter.step dataI pushI popI).contents.length + popI.toNat =
      emitter.contents.length + pushI.toNat := by
  rw [FifoV3.contents_step_of_room room, List.length_append]
  cases popI with
  | false => cases pushI <;> rfl
  | true =>
    have positive := List.length_pos_of_ne_nil (some rfl)
    cases pushI <;> simp only [if_true, Bool.false_eq_true, if_false, List.length_tail,
      List.length_nil, List.length_singleton, Bool.toNat_true, Bool.toNat_false] <;> omega

theorem length_ar_step (trace : AxiDmaTrace params) (inp : AxiDmaBackendIn) :
    (trace.step inp).1.mover.arEmitter.contents.length + (trace.1.arPop inp).toNat =
      trace.1.mover.arEmitter.contents.length +
        (trace.1.burst.rPush (trace.1.reshaperIn inp)).toNat :=
  length_emitter_step (fun push => (room_of_rPush push).1) (fun pop => by
    have pop : (inp.axiDmaResI.arReady && !trace.1.mover.arEmitter.emptyO) = true := pop
    rw [Bool.and_eq_true, Bool.not_eq_true'] at pop
    exact FifoV3.emptyO_eq_false.mp pop.2) _

theorem length_aw_step (trace : AxiDmaTrace params) (inp : AxiDmaBackendIn) :
    (trace.step inp).1.mover.awEmitter.contents.length + (trace.1.awPop inp).toNat =
      trace.1.mover.awEmitter.contents.length +
        (trace.1.burst.wPush (trace.1.reshaperIn inp)).toNat :=
  length_emitter_step (fun push => (room_of_wPush push).1) (fun pop => by
    have pop : (inp.axiDmaResI.awReady && !trace.1.mover.awEmitter.emptyO) = true := pop
    rw [Bool.and_eq_true, Bool.not_eq_true'] at pop
    exact FifoV3.emptyO_eq_false.mp pop.2) _

/-- A write burst that is written in full is one that waits for its acknowledgement. -/
theorem length_answering_step (writing : trace.Writing) (permits : trace.Permits inp) :
    (trace.step inp).writes.length + (trace.step inp).2.answering.length +
        inp.axiDmaResI.bValid.toNat =
      trace.writes.length + trace.2.answering.length +
        (trace.1.burst.wPush (trace.1.reshaperIn inp)).toNat := by
  have answers := permits.answers
  have answered : (if inp.axiDmaResI.bValid then trace.2.answering.tail
      else trace.2.answering).length + inp.axiDmaResI.bValid.toNat = trace.2.answering.length := by
    cases valid : inp.axiDmaResI.bValid with
    | false => rfl
    | true =>
      have positive := List.length_pos_of_ne_nil (answers valid)
      simp only [if_true, List.length_tail, Bool.toNat_true]
      omega
  have done : (if trace.1.wGives inp && trace.1.wLast inp then trace.writes.tail
      else trace.writes).length + (if trace.1.wGives inp && trace.1.wLast inp then
        (trace.2.awOpened trace.1 inp).head?.toList else []).length = trace.writes.length := by
    cases ends : trace.1.wGives inp && trace.1.wLast inp with
    | false => rfl
    | true =>
      rw [Bool.and_eq_true] at ends
      obtain ⟨req, rest, first, -⟩ := writing.exists_given permits ends.1
      obtain ⟨aw, opened, isOpened⟩ := List.exists_cons_of_ne_nil (permits.writes ends.1)
      simp [first, isOpened]
  have pushed : (if trace.1.burst.wPush (trace.1.reshaperIn inp) then
      [trace.1.burst.writeReqO params] else []).length =
      (trace.1.burst.wPush (trace.1.reshaperIn inp)).toNat := by
    cases trace.1.burst.wPush (trace.1.reshaperIn inp) <;> rfl
  have after : (trace.step inp).2.answering = (if inp.axiDmaResI.bValid then trace.2.answering.tail
      else trace.2.answering) ++ if trace.1.wGives inp && trace.1.wLast inp then
        (trace.2.awOpened trace.1 inp).head?.toList else [] := rfl
  rw [writing.writes_step permits, after, List.length_append, List.length_append, pushed]
  omega

/-! ## All of it -/

theorem toNat_acts_le (trace : AxiDmaTrace params) (inp : AxiDmaBackendIn) : (trace.acts inp).toNat ≤
    (trace.1.burstReqPop inp).toNat + (trace.1.burst.rPush (trace.1.reshaperIn inp)).toNat +
      (trace.1.burst.wPush (trace.1.reshaperIn inp)).toNat + (trace.1.arPop inp).toNat +
      (trace.1.awPop inp).toNat + (trace.1.rTakes inp).toNat + (trace.1.wGives inp).toNat +
      inp.axiDmaResI.bValid.toNat := by
  have either (first second : Bool) : (first || second).toNat ≤ first.toNat + second.toNat := by
    cases first <;> cases second <;> decide
  rw [acts]
  refine (either _ _).trans (Nat.add_le_add_right ?_ _)
  refine (either _ _).trans (Nat.add_le_add_right ?_ _)
  refine (either _ _).trans (Nat.add_le_add_right ?_ _)
  refine (either _ _).trans (Nat.add_le_add_right ?_ _)
  refine (either _ _).trans (Nat.add_le_add_right ?_ _)
  refine (either _ _).trans (Nat.add_le_add_right ?_ _)
  exact either _ _

/-- An event takes something off the work, and only a transfer that is taken adds to it. -/
theorem Inv.work_step (inv : trace.Inv) (permits : trace.Permits inp) :
    (trace.acts inp).toNat + (trace.step inp).work + trace.given ≤
      trace.work + (trace.step inp).given := by
  have events := toNat_acts_le trace inp
  have transfers := length_fifo_step trace inp
  have srcs := length_srcRest_step inv.burst inp
  have dsts := length_dstRest_step inv.burst inp
  have reads := length_reads_step inv.reading permits
  have writes := length_writes_step inv.writing permits
  have rSome := toNat_rPush_le inv.burst inp
  have wSome := toNat_wPush_le inv.burst inp
  have rBeat := toNat_rTakes_le inv.reading permits
  have wBeat := toNat_wGives_le inv.writing permits
  have ars := length_ar_step trace inp
  have aws := length_aw_step trace inp
  have answers := length_answering_step inv.writing permits
  rw [given_step, work, work]
  omega

end AxiDmaTrace

end Pspin
