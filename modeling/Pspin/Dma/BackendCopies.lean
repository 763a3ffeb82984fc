import Pspin.Dma.BackendQueues

/-! # A DMA backend copies what it is told to

The bytes of the transfers taken so far are those that are written, those that are in the data path and
those that are still to be read, in this order.  A cycle moves the bytes of a beat from the last to the
second and from the second to the first, and adds those of a transfer at the end.
-/

namespace Pspin

open Clocked

namespace AxiDmaTrace

variable {params : AxiDmaParams}

section

variable (trace : AxiDmaTrace params) (inp : AxiDmaBackendIn)

/-- The bytes of the transfer that is taken. -/
def newMoves : List Move := if trace.1.takes inp then inp.burstReqI.moves params else []

/-- What the beat that is read takes from what is left to read. -/
def readBeat : List (Nat × Nat) :=
  if trace.1.rTakes inp then
    (trace.reads.head?.toList).flatMap (ReadReq.beat params · trace.2.rBeat)
  else []

/-- What the beat that is written takes from what is left to write. -/
def writeBeat : List (Nat × Bool) :=
  if trace.1.wGives inp then
    (trace.writes.head?.toList).flatMap (WriteReq.beat params · trace.2.wBeat)
  else []

/-- The lanes that the data path gives. -/
def givenLanes : List Nat :=
  if trace.1.wGives inp then trace.1.path.writeLanes (trace.1.pathIn inp) else []

end

variable {trace : AxiDmaTrace params} {inp : AxiDmaBackendIn}

/-! ## What is left -/

/-- The transfer that is cut next is the first of those that wait. -/
theorem some_of_burstReqPop (pop : trace.1.burstReqPop inp = true) :
    trace.1.burstRequestFifo.contents ≠ [] := by
  obtain ⟨-, -, valid, -⟩ := BurstDecoupled.readyO_eq_true.mp pop
  have waits : (!trace.1.burstReqEmpty) = true := by
    have valid : trace.1.burstValid inp = true := valid
    rw [AxiDmaBackend.burstValid] at valid
    split at valid
    · exact (Bool.and_eq_true_iff.mp valid).1
    · exact valid
  rw [Bool.not_eq_true'] at waits
  exact FifoV3.emptyO_eq_false.mp waits

theorem fifo_passes {γ : Type*} (trace : AxiDmaTrace params) (inp : AxiDmaBackendIn)
    (f : BurstReq → List γ) :
    Passes (trace.1.burstRequestFifo.contents.flatMap f)
      (if trace.1.takes inp then f inp.burstReqI else [])
      (if trace.1.burstReqPop inp then f trace.1.burstReq else [])
      ((trace.step inp).1.burstRequestFifo.contents.flatMap f) := by
  have room : trace.1.takes inp = true → trace.1.burstRequestFifo.fullO = false := by
    intro takes
    rw [AxiDmaBackend.takes, Bool.and_eq_true] at takes
    simpa [AxiDmaBackend.readyO] using takes.2
  have contents : (trace.step inp).1.burstRequestFifo.contents = _ :=
    FifoV3.contents_step_of_room room inp.burstReqI (trace.1.burstReqPop inp)
  have passes := (Passes.queue (trace.1.burstReqPop inp) some_of_burstReqPop
    (if trace.1.takes inp then [inp.burstReqI] else [])).flatMap f
  rw [← contents] at passes
  have taken : (if trace.1.takes inp then [inp.burstReqI] else []).flatMap f =
      if trace.1.takes inp then f inp.burstReqI else [] := by
    cases trace.1.takes inp <;> simp
  have popped : (if trace.1.burstReqPop inp then
      trace.1.burstRequestFifo.contents.head?.toList else []).flatMap f =
      if trace.1.burstReqPop inp then f trace.1.burstReq else [] := by
    cases pop : trace.1.burstReqPop inp with
    | false => rfl
    | true =>
      obtain ⟨front, rest, isFront⟩ := List.exists_cons_of_ne_nil (some_of_burstReqPop pop)
      have head : trace.1.burstReq = front := FifoV3.dataO_eq_head isFront
      simp [isFront, head]
  rwa [taken, popped] at passes

theorem flatMap_singleton_if {β γ : Type*} (joins : Bool) (burst : β) (f : β → List γ) :
    (if joins then [burst] else []).flatMap f = if joins then f burst else [] := by
  cases joins <;> simp

theorem readRest_passes (burst : trace.1.burst.Inv params) (reading : trace.Reading)
    (permits : trace.Permits inp) : Passes trace.readRest
      ((trace.newMoves inp).map (Move.toRead params)) (trace.readBeat inp)
      (trace.step inp).readRest := by
  have bursts := reading.place.passes (ReadReq.beat params) (reading.exists_taken permits)
    (if trace.1.burst.rPush (trace.1.reshaperIn inp) then [trace.1.burst.readReqO params] else [])
  rw [← reading.reads_step permits, flatMap_singleton_if] at bursts
  have cut := BurstDecoupled.srcRest_step burst (trace.1.reshaperIn inp)
  have waiting := fifo_passes trace inp fun req =>
    (req.moves params).map (Move.toRead params)
  have taken : (trace.newMoves inp).map (Move.toRead params) = if trace.1.takes inp then
      (inp.burstReqI.moves params).map (Move.toRead params) else [] := by
    unfold newMoves
    cases trace.1.takes inp <;> rfl
  rw [taken]
  exact Passes.behind bursts (Passes.behind cut waiting)

theorem writeRest_passes (burst : trace.1.burst.Inv params) (writing : trace.Writing)
    (permits : trace.Permits inp) : Passes trace.writeRest ((trace.newMoves inp).map Move.toWrite)
      (trace.writeBeat inp) (trace.step inp).writeRest := by
  have bursts := writing.place.passes (WriteReq.beat params) (writing.exists_given permits)
    (if trace.1.burst.wPush (trace.1.reshaperIn inp) then [trace.1.burst.writeReqO params] else [])
  rw [← writing.writes_step permits, flatMap_singleton_if] at bursts
  have cut := BurstDecoupled.dstRest_step burst (trace.1.reshaperIn inp)
  have waiting := fifo_passes trace inp fun req => (req.moves params).map Move.toWrite
  have taken : (trace.newMoves inp).map Move.toWrite = if trace.1.takes inp then
      (inp.burstReqI.moves params).map Move.toWrite else [] := by
    unfold newMoves
    cases trace.1.takes inp <;> rfl
  rw [taken]
  exact Passes.behind bursts (Passes.behind cut waiting)

/-! ## A beat that is read -/

/-- What is read is what was asked for: the bytes of the first burst, each for the lane that its
    target has. -/
theorem readBeat_eq (reading : trace.Reading) (permits : trace.Permits inp)
    (takes : trace.1.rTakes inp = true) : trace.readBeat inp =
      (trace.1.path.readLanes (trace.1.pathIn inp)).map fun lane =>
        (trace.2.readAddr trace.1 inp + lane,
          shiftedLane params (trace.1.pathIn inp).r.shift lane) := by
  obtain ⟨req, rest, first, ar, desc, last⟩ := reading.exists_first permits takes
  have sound := reading.sound req (by rw [first]; exact List.mem_cons_self)
  have beat : trace.readBeat inp = req.beat params trace.2.rBeat := by
    simp [readBeat, takes, first]
  have lanes : trace.1.path.readLanes (trace.1.pathIn inp) = beatLanes params.strbWidth req.r.offset
      req.r.tailer (trace.2.rBeat == 0) (trace.2.rBeat == req.len) := by
    have isLast : (trace.1.pathIn inp).rLastI = (trace.2.rBeat == req.len) := last
    rw [AxiDmaDataPath.readLanes, reading.first, desc, isLast]
  rw [beat, lanes, ReadReq.beat, DescAx.beat, beatBytes, List.map_map]
  refine List.map_congr_left fun lane _ => ?_
  have word : params.strbWidth ∣ req.ar.addr + trace.2.rBeat * params.strbWidth :=
    Nat.dvd_add sound.legal.aligned (Nat.dvd_mul_left _ _)
  have addr : trace.2.readAddr trace.1 inp = req.ar.addr + trace.2.rBeat * params.strbWidth := by
    rw [AxiDmaHistory.readAddr, ar]
  have shift : shiftedLane params req.r.shift (req.ar.addr + (trace.2.rBeat * params.strbWidth + lane)) =
      shiftedLane params req.r.shift lane := by
    obtain ⟨words, isWord⟩ := word
    rw [shiftedLane, shiftedLane, ← Nat.add_assoc, isWord, Nat.add_assoc, Nat.mul_add_mod]
  rw [Function.comp_apply, shift, addr, desc, Nat.add_assoc]

/-! ## A beat that is written -/

theorem writeBeat_eq (writing : trace.Writing) (permits : trace.Permits inp)
    (gives : trace.1.wGives inp = true) : ∃ last : Nat → Bool, trace.writeBeat inp =
      (trace.1.path.writeLanes (trace.1.pathIn inp)).map fun lane =>
        (trace.2.writeAddr trace.1 inp + lane, last lane) := by
  obtain ⟨req, rest, first, aw, desc, counts⟩ := writing.exists_first permits gives
  have ready : trace.1.path.readyToWrite (trace.1.pathIn inp) = true := by
    rw [AxiDmaBackend.wGives, AxiDmaDataPath.writeHappening, Bool.and_eq_true] at gives
    exact gives.1
  have beat : trace.writeBeat inp = req.beat params trace.2.wBeat := by
    simp [writeBeat, gives, first]
  have addr : trace.2.writeAddr trace.1 inp = req.aw.addr + trace.2.wBeat * params.strbWidth := by
    rw [AxiDmaHistory.writeAddr, aw]
  have lanes := counts.writeLanes_eq ready
  refine ⟨fun lane => req.aw.last && decide (trace.2.wBeat * params.strbWidth + lane + 1 =
    req.aw.stop params req.w.tailer), ?_⟩
  rw [beat, lanes, desc, WriteReq.beat, DescAx.beat, beatBytes, List.map_map, WriteReq.len]
  refine List.map_congr_left fun lane _ => ?_
  simp only [Function.comp_apply, addr, Nat.add_assoc]

/-- The lanes of a beat are those of the addresses it writes. -/
theorem writeAddr_dvd (writing : trace.Writing) (permits : trace.Permits inp)
    (gives : trace.1.wGives inp = true) : params.strbWidth ∣ trace.2.writeAddr trace.1 inp := by
  obtain ⟨req, rest, first, aw, -, -⟩ := writing.exists_first permits gives
  have sound := writing.sound req (by rw [first]; exact List.mem_cons_self)
  rw [AxiDmaHistory.writeAddr, aw]
  exact Nat.dvd_add sound.legal.aligned (Nat.dvd_mul_left _ _)

/-! ## The bytes on their way -/

/-- The bytes of the transfers taken are written, held by the data path, or left to be read; the data
    path holds the bytes that were read and not yet written, each on the lane of its target. -/
structure Copies (trace : AxiDmaTrace params) (written held left : List Move)
    (bytes : List (Nat × BitVec 8)) : Prop where
  moves : trace.2.moves params = written ++ held ++ left
  read : trace.2.fetched.map Prod.fst = (written ++ held).map Move.src
  toRead : trace.readRest = left.map (Move.toRead params)
  wrote : trace.2.written.map Prod.fst = written.map Move.dst
  toWrite : trace.writeRest = (held ++ left).map Move.toWrite
  lanes : bytes.map Prod.fst = held.map fun move => move.dst % params.strbWidth
  data : trace.2.fetched.map Prod.snd = trace.2.written.map Prod.snd ++ bytes.map Prod.snd
  holds : trace.1.path.Holds bytes
  completed : trace.2.completed + trace.2.answering.countP DescAx.last = written.countP Move.last

theorem Copies.reset : (axiDmaTrace params).reset.Copies [] [] [] [] where
  moves := rfl
  read := rfl
  toRead := rfl
  wrote := rfl
  toWrite := rfl
  lanes := rfl
  data := rfl
  holds := .reset
  completed := rfl

namespace Copies

variable {written held left : List Move} {bytes : List (Nat × BitVec 8)}
  (copies : trace.Copies written held left bytes)

include copies

/-- The bytes that are read are the first of those left, and they go to the lanes they need. -/
theorem exists_entering (reading : trace.Reading) (permits : trace.Permits inp) :
    ∃ entering rest, left = entering ++ rest ∧
      entering.map (Move.toRead params) = trace.readBeat inp ∧
      (trace.2.reading trace.1 inp).map Prod.fst = entering.map Move.src ∧
      (trace.1.path.entering (trace.1.pathIn inp)).map Prod.fst =
        entering.map (fun move => move.dst % params.strbWidth) ∧
      (trace.1.path.entering (trace.1.pathIn inp)).map Prod.snd =
        (trace.2.reading trace.1 inp).map Prod.snd := by
  have first : trace.readBeat inp <+: trace.readRest := by
    refine (reading.place.prefix_restOf _ fun takes => ?_).trans (List.prefix_append _ _)
    obtain ⟨req, rest, first, -⟩ := reading.exists_taken permits takes
    rw [first]
    exact List.cons_ne_nil req rest
  rw [copies.toRead] at first
  obtain ⟨rest', split⟩ := first
  obtain ⟨entering, rest, whole, same, -⟩ := List.map_eq_append_iff.mp split.symm
  refine ⟨entering, rest, whole, same, ?_⟩
  have srcs : entering.map Move.src = (trace.readBeat inp).map Prod.fst := by
    rw [← same, List.map_map]
    rfl
  have dsts : entering.map (fun move => move.dst % params.strbWidth) =
      (trace.readBeat inp).map Prod.snd := by
    rw [← same, List.map_map]
    rfl
  rw [srcs, dsts]
  cases takes : trace.1.rTakes inp with
  | false =>
    have push : trace.1.path.push (trace.1.pathIn inp) = false := takes
    simp [readBeat, AxiDmaHistory.reading, AxiDmaDataPath.entering, takes, push]
  | true =>
    have push : trace.1.path.push (trace.1.pathIn inp) = true := takes
    rw [readBeat_eq reading permits takes, AxiDmaHistory.reading, if_pos takes,
      AxiDmaDataPath.entering, if_pos push]
    simp only [List.map_map]
    exact ⟨rfl, rfl, rfl⟩

/-- The bytes that are written are the first that the data path holds. -/
theorem exists_leaving (writing : trace.Writing) (permits : trace.Permits inp) :
    ∃ leaving rest front back, held = leaving ++ rest ∧ bytes = front ++ back ∧
      leaving.map Move.toWrite = trace.writeBeat inp ∧
      front.map Prod.fst = trace.givenLanes inp ∧
      back.map Prod.fst = rest.map (fun move => move.dst % params.strbWidth) ∧
      (trace.2.writing trace.1 inp).map Prod.fst = leaving.map Move.dst ∧
      (trace.2.writing trace.1 inp).map Prod.snd = front.map Prod.snd := by
  cases gives : trace.1.wGives inp with
  | false =>
    refine ⟨[], held, [], bytes, rfl, rfl, ?_, ?_, copies.lanes, ?_, ?_⟩ <;>
      simp [writeBeat, givenLanes, AxiDmaHistory.writing, gives]
  | true =>
    have ready : trace.1.path.readyToWrite (trace.1.pathIn inp) = true := by
      rw [AxiDmaBackend.wGives, AxiDmaDataPath.writeHappening, Bool.and_eq_true] at gives
      exact gives.1
    obtain ⟨last, beat⟩ := writeBeat_eq writing permits gives
    have aligned := writeAddr_dvd writing permits gives
    -- the beat is the first of what is left to write, so its lanes come first in the data path
    have first : trace.writeBeat inp <+: (held ++ left).map Move.toWrite := by
      rw [← copies.toWrite]
      refine (writing.place.prefix_restOf _ fun gives => ?_).trans (List.prefix_append _ _)
      obtain ⟨req, rest, first, -⟩ := writing.exists_given permits gives
      rw [first]
      exact List.cons_ne_nil req rest
    have lanesOf : (trace.writeBeat inp).map (fun entry => entry.1 % params.strbWidth) =
        trace.1.path.writeLanes (trace.1.pathIn inp) := by
      rw [beat, List.map_map]
      refine (List.map_congr_left fun lane member => ?_).trans (List.map_id _)
      obtain ⟨words, isWord⟩ := aligned
      have inside := (AxiDmaDataPath.mem_writeLanes.mp member).1
      rw [Function.comp_apply, isWord, Nat.mul_add_mod, Nat.mod_eq_of_lt inside, id]
    obtain ⟨later, split⟩ := first
    have order : bytes.map Prod.fst <+: trace.1.path.writeLanes (trace.1.pathIn inp) ++
        later.map fun entry => entry.1 % params.strbWidth := by
      have all := congrArg (List.map fun entry => entry.1 % params.strbWidth) split
      rw [List.map_append, lanesOf, List.map_map, List.map_append] at all
      rw [all, copies.lanes]
      exact List.prefix_append _ _
    obtain ⟨front, back, halves, keys, values⟩ :=
      AxiDmaDataPath.exists_written copies.holds ready order
    have enough : (trace.writeBeat inp).length ≤ held.length := by
      have count := congrArg List.length copies.lanes
      have fronts := congrArg List.length keys
      have beats := congrArg List.length lanesOf
      rw [halves] at count
      simp only [List.length_map, List.length_append] at count fronts beats
      omega
    have inHeld : trace.writeBeat inp <+: held.map Move.toWrite := by
      rw [List.map_append] at split
      have length : (trace.writeBeat inp).length ≤ (held.map Move.toWrite).length := by
        rwa [List.length_map]
      exact List.prefix_of_prefix_length_le ⟨later, split⟩ (List.prefix_append _ _) length
    obtain ⟨rest', splitHeld⟩ := inHeld
    obtain ⟨leaving, rest, whole, same, -⟩ := List.map_eq_append_iff.mp splitHeld.symm
    have written : trace.2.writing trace.1 inp =
        (trace.1.path.writeLanes (trace.1.pathIn inp)).map fun lane =>
          (trace.2.writeAddr trace.1 inp + lane, trace.1.path.wDataO (trace.1.pathIn inp) lane) := by
      rw [AxiDmaHistory.writing, if_pos gives, AxiDmaDataPath.writeLanes, beatLanes]
      refine congrArg (List.map _) (List.filter_congr fun lane _ => ?_)
      rw [AxiDmaDataPath.wStrbO, ready, Bool.true_and]
      rfl
    refine ⟨leaving, rest, front, back, whole, halves, same, ?_, ?_, ?_, ?_⟩
    · rw [keys, givenLanes, if_pos gives]
    · have lanes := copies.lanes
      rw [whole, halves, List.map_append, List.map_append] at lanes
      refine (List.append_inj lanes ?_).2
      have fronts := congrArg List.length keys
      have beats := congrArg List.length lanesOf
      have leavings := congrArg List.length same
      simp only [List.length_map] at fronts beats leavings ⊢
      omega
    · have dsts : leaving.map Move.dst = (trace.writeBeat inp).map Prod.fst := by
        rw [← same, List.map_map]
        rfl
      rw [dsts, beat, written, List.map_map, List.map_map]
      rfl
    · rw [written, values, List.map_map, List.map_map]
      rfl

end Copies

/-! ## Acknowledgements -/

/-- The queue remembers, for each write burst the bus has taken and not acknowledged, whether it is
    the last one of its transfer. -/
def Answering (trace : AxiDmaTrace params) : Prop :=
  trace.1.mover.lastTransactionQueue.contents =
    (trace.2.answering ++ trace.2.awOpen).map DescAx.last

theorem Answering.reset : (axiDmaTrace params).reset.Answering := rfl

/-- A burst that is acknowledged was written in full. -/
theorem Answering.isLastAw_eq (answering : trace.Answering) {ax : DescAx} {rest : List DescAx}
    (isFirst : trace.2.answering = ax :: rest) : trace.1.mover.isLastAw = ax.last := by
  have contents : trace.1.mover.lastTransactionQueue.contents =
      ax.last :: (rest ++ trace.2.awOpen).map DescAx.last := by
    rw [answering, isFirst]
    rfl
  exact FifoV3.dataO_eq_head contents

theorem Answering.step (answering : trace.Answering) (permits : trace.Permits inp) :
    (trace.step inp).Answering := by
  have room : trace.1.awPop inp = true → trace.1.mover.lastTransactionQueue.fullO = false := by
    intro pop
    rw [FifoV3.fullO_eq_false, answering, List.length_map]
    exact permits.room pop
  have contents : (trace.step inp).1.mover.lastTransactionQueue.contents = _ :=
    FifoV3.contents_step_of_room room trace.1.mover.currentAwReq.last inp.axiDmaResI.bValid
  have popped : (if trace.1.awPop inp then [trace.1.mover.currentAwReq.last] else []) =
      (if trace.1.awPop inp then trace.1.mover.awEmitter.contents.head?.toList else []).map
        DescAx.last := by
    cases pop : trace.1.awPop inp with
    | false => rfl
    | true =>
      have some : trace.1.mover.awEmitter.contents ≠ [] := by
        rw [AxiDmaBackend.awPop, AxiDmaDataMover.awEmitterPop, Bool.and_eq_true,
          AxiDmaDataMover.awValid, Bool.not_eq_true'] at pop
        exact FifoV3.emptyO_eq_false.mp pop.2
      obtain ⟨front, rest, isFront⟩ := List.exists_cons_of_ne_nil some
      have head : trace.1.mover.currentAwReq = front := FifoV3.dataO_eq_head isFront
      simp [isFront, head]
  -- a burst that is written in full moves from the one list to the other
  have moved : (if trace.1.wGives inp && trace.1.wLast inp then
      (trace.2.awOpened trace.1 inp).head?.toList else []) ++
        (if trace.1.wGives inp && trace.1.wLast inp then (trace.2.awOpened trace.1 inp).tail
          else trace.2.awOpened trace.1 inp) = trace.2.awOpened trace.1 inp := by
    cases trace.1.wGives inp && trace.1.wLast inp with
    | false => rfl
    | true => cases trace.2.awOpened trace.1 inp <;> rfl
  have acknowledged : (if inp.axiDmaResI.bValid then (trace.2.answering ++ trace.2.awOpen).tail
      else trace.2.answering ++ trace.2.awOpen) = (if inp.axiDmaResI.bValid then
        trace.2.answering.tail else trace.2.answering) ++ trace.2.awOpen := by
    cases valid : inp.axiDmaResI.bValid with
    | false => rfl
    | true => exact List.tail_append_of_ne_nil (permits.answers valid)
  have after : (trace.step inp).2.answering ++ (trace.step inp).2.awOpen =
      (if inp.axiDmaResI.bValid then (trace.2.answering ++ trace.2.awOpen).tail
        else trace.2.answering ++ trace.2.awOpen) ++
        if trace.1.awPop inp then trace.1.mover.awEmitter.contents.head?.toList else [] := by
    rw [acknowledged, List.append_assoc _ trace.2.awOpen]
    refine Eq.trans (List.append_assoc _ _ _) (congrArg _ ?_)
    exact moved
  rw [Answering, contents, popped, after, List.map_append, answering]
  congr 1
  cases inp.axiDmaResI.bValid with
  | false => rfl
  | true => exact List.map_tail.symm

/-- What is completed and what will be completed are the write bursts that end transfers. -/
theorem completed_step (answering : trace.Answering) (permits : trace.Permits inp) :
    (trace.step inp).2.completed + (trace.step inp).2.answering.countP DescAx.last =
      trace.2.completed + trace.2.answering.countP DescAx.last +
        (if trace.1.wGives inp && trace.1.wLast inp then
          (trace.2.awOpened trace.1 inp).head?.toList else []).countP DescAx.last := by
  have left : (trace.1.transCompleteO inp).toNat + (if inp.axiDmaResI.bValid then
      trace.2.answering.tail else trace.2.answering).countP DescAx.last =
      trace.2.answering.countP DescAx.last := by
    rw [AxiDmaBackend.transCompleteO, AxiDmaDataMover.transCompleteO]
    cases valid : inp.axiDmaResI.bValid with
    | false => simp
    | true =>
      obtain ⟨ax, rest, isFirst⟩ := List.exists_cons_of_ne_nil (permits.answers valid)
      rw [answering.isLastAw_eq isFirst, isFirst, List.countP_cons]
      cases ax.last <;> simp [Nat.add_comm]
  show trace.2.completed + (trace.1.transCompleteO inp).toNat + List.countP DescAx.last (_ ++ _) = _
  rw [List.countP_append]
  omega

/-! ## One cycle -/

theorem step_moves : (trace.step inp).2.moves params = trace.2.moves params ++ trace.newMoves inp := by
  show (trace.2.taken ++ if trace.1.takes inp then [inp.burstReqI] else []).flatMap _ = _
  rw [List.flatMap_append, flatMap_singleton_if]
  rfl

/-- The transfers that the beat ends are those of the burst it ends. -/
theorem countP_writeBeat (writing : trace.Writing) (permits : trace.Permits inp) :
    (trace.writeBeat inp).countP Prod.snd = (if trace.1.wGives inp && trace.1.wLast inp then
      (trace.2.awOpened trace.1 inp).head?.toList else []).countP DescAx.last := by
  cases gives : trace.1.wGives inp with
  | false => simp [writeBeat, gives]
  | true =>
    obtain ⟨req, rest, first, aw, -, counts⟩ := writing.exists_first permits gives
    have sound := writing.sound req (by rw [first]; exact List.mem_cons_self)
    obtain ⟨count, spans⟩ := sound.spans
    have beat : trace.writeBeat inp = req.beat params trace.2.wBeat := by
      simp [writeBeat, gives, first]
    obtain ⟨head, opened, isOpened⟩ := List.exists_cons_of_ne_nil (permits.writes gives)
    rw [isOpened, List.headD_cons] at aw
    rw [beat, WriteReq.beat, spans.countP_beat counts.before, Writing.wLast_eq gives counts, isOpened, aw,
      WriteReq.len]
    cases last : req.aw.last <;> cases trace.2.wBeat == req.aw.len <;> simp [last]

theorem Copies.step {written held left : List Move} {bytes : List (Nat × BitVec 8)}
    (copies : trace.Copies written held left bytes) (burst : trace.1.burst.Inv params)
    (reading : trace.Reading) (writing : trace.Writing) (answering : trace.Answering)
    (permits : trace.Permits inp) :
    ∃ written held left bytes, (trace.step inp).Copies written held left bytes := by
  obtain ⟨entering, left', splitLeft, readSame, srcs, dsts, values⟩ :=
    copies.exists_entering reading permits
  obtain ⟨leaving, held', front, back, splitHeld, splitBytes, writeSame, keys, lanes, addrs, data⟩ :=
    copies.exists_leaving writing permits
  subst splitLeft splitHeld splitBytes
  have toRead := readRest_passes burst reading permits
  have toWrite := writeRest_passes burst writing permits
  have small : trace.1.path.push (trace.1.pathIn inp) = true →
      (trace.1.pathIn inp).r.shift < params.strbWidth := by
    intro takes
    obtain ⟨req, rest, first, -, desc, -⟩ := reading.exists_first permits takes
    rw [desc]
    exact (reading.sound req (by rw [first]; exact List.mem_cons_self)).shift
  refine ⟨written ++ leaving, held' ++ entering, left' ++ trace.newMoves inp,
    back ++ trace.1.path.entering (trace.1.pathIn inp), ?_⟩
  exact
    { moves := by
        rw [step_moves, copies.moves]
        simp only [List.append_assoc]
      read := by
        show List.map Prod.fst (trace.2.fetched ++ trace.2.reading trace.1 inp) = _
        rw [List.map_append, copies.read, srcs]
        simp only [List.map_append, List.append_assoc]
      toRead := by
        rw [Passes, copies.toRead, List.map_append, readSame, List.append_assoc] at toRead
        rw [← List.append_cancel_left toRead, List.map_append]
      wrote := by
        show List.map Prod.fst (trace.2.written ++ trace.2.writing trace.1 inp) = _
        rw [List.map_append, copies.wrote, addrs, List.map_append]
      toWrite := by
        rw [Passes, copies.toWrite, List.append_assoc, List.map_append, writeSame,
          List.append_assoc] at toWrite
        rw [← List.append_cancel_left toWrite]
        simp only [List.map_append, List.append_assoc]
      lanes := by rw [List.map_append, lanes, dsts, List.map_append]
      data := by
        show List.map Prod.snd (trace.2.fetched ++ trace.2.reading trace.1 inp) =
          List.map Prod.snd (trace.2.written ++ trace.2.writing trace.1 inp) ++ _
        simp only [List.map_append, copies.data, data, values, List.append_assoc]
      holds := copies.holds.step small rfl keys
      completed := by
        have ends : leaving.countP Move.last = (trace.writeBeat inp).countP Prod.snd := by
          rw [← writeSame, List.countP_map]
          rfl
        rw [completed_step answering permits, copies.completed, List.countP_append, ends,
          countP_writeBeat writing permits] }

/-! ## Whole runs -/

/-- The invariant of a backend on the bus. -/
structure Inv (trace : AxiDmaTrace params) : Prop where
  queued : ∀ req ∈ trace.1.burstRequestFifo.contents, req.Fits params
  burst : trace.1.burst.Inv params
  reading : trace.Reading
  writing : trace.Writing
  answering : trace.Answering
  copies : ∃ written held left bytes, trace.Copies written held left bytes

theorem Inv.reset : (axiDmaTrace params).reset.Inv where
  queued _ member := by cases member
  burst := .reset params
  reading := .reset
  writing := .reset
  answering := .reset
  copies := ⟨[], [], [], [], .reset⟩

theorem Inv.step (inv : trace.Inv) (permits : trace.Permits inp) : (trace.step inp).Inv where
  queued := by
    intro req member
    have passes := fifo_passes trace inp fun req => [req]
    rw [Passes, List.flatMap_singleton', List.flatMap_singleton'] at passes
    have later : req ∈ trace.1.burstRequestFifo.contents ++
        if trace.1.takes inp then [inp.burstReqI] else [] := by
      rw [passes]
      exact List.mem_append_right _ member
    rcases List.mem_append.mp later with before | joins
    · exact inv.queued req before
    · cases takes : trace.1.takes inp with
      | false => simp [takes] at joins
      | true =>
        rw [takes, if_pos rfl, List.mem_singleton] at joins
        exact joins ▸ permits.fits takes
  burst := by
    refine inv.burst.step fun pop => inv.queued _ ?_
    have passes := fifo_passes trace inp fun req => [req]
    have pop : trace.1.burstReqPop inp = true := pop
    obtain ⟨front, rest, isFront⟩ := List.exists_cons_of_ne_nil (some_of_burstReqPop pop)
    have head : trace.1.burstReq = front := FifoV3.dataO_eq_head isFront
    rw [isFront]
    exact List.mem_cons.mpr (.inl head)
  reading := inv.reading.step inv.burst permits
  writing := inv.writing.step inv.burst permits
  answering := inv.answering.step permits
  copies := by
    obtain ⟨written, held, left, bytes, copies⟩ := inv.copies
    exact copies.step inv.burst inv.reading inv.writing inv.answering permits

/-- What a DMA backend did for the transfers it took: it read bytes of their sources in order, wrote
    bytes to their targets in order, and what it wrote is what it read.  The transfers it reported
    complete are written. -/
structure CopiesTransfers (trace : AxiDmaTrace params) : Prop where
  reads : trace.2.fetched.map Prod.fst <+: (trace.2.moves params).map Move.src
  writes : trace.2.written.map Prod.fst <+: (trace.2.moves params).map Move.dst
  data : trace.2.written.map Prod.snd <+: trace.2.fetched.map Prod.snd
  completed : (((trace.2.taken.filter fun req => decide (req.numBytes ≠ 0)).take
    trace.2.completed).flatMap (BurstReq.moves params)).length ≤ trace.2.written.length

theorem countP_moves (req : BurstReq) (count : Nat) :
    ((req.moves params).take count).countP Move.last =
      (decide (req.numBytes ≠ 0) && decide (req.numBytes ≤ count)).toNat := by
  have single : ((req.moves params).take count).countP Move.last =
      (List.range (min count req.numBytes)).countP fun i => decide (i + 1 = req.numBytes) := by
    rw [BurstReq.moves, ← List.map_take, List.take_range, List.countP_map]
    rfl
  rw [single]
  by_cases none : req.numBytes = 0
  · simp [none]
  · have last : ((List.range (min count req.numBytes)).countP fun i => decide (i + 1 = req.numBytes)) =
        (List.range (min count req.numBytes)).count (req.numBytes - 1) := by
      refine List.countP_congr fun i _ => ?_
      simp only [decide_eq_true_eq, beq_iff_eq]
      omega
    rw [last, List.nodup_range.count]
    by_cases all : req.numBytes ≤ count
    · have inside : req.numBytes - 1 < min count req.numBytes := by omega
      rw [if_pos (List.mem_range.mpr inside), decide_eq_true none, decide_eq_true all]
      rfl
    · have outside : ¬req.numBytes - 1 < min count req.numBytes := by omega
      rw [if_neg (mt List.mem_range.mp outside), decide_eq_false all, Bool.and_false]
      rfl

/-- If the first bytes of some transfers end so many of them, they are all the bytes of these. -/
theorem length_le_of_countP {reqs : List BurstReq} {ends count : Nat}
    (enough : ends ≤ ((reqs.flatMap (BurstReq.moves params)).take count).countP Move.last) :
    (((reqs.filter fun req => decide (req.numBytes ≠ 0)).take ends).flatMap
      (BurstReq.moves params)).length ≤ count := by
  induction reqs generalizing ends count with
  | nil => simp
  | cons req reqs inductionHypothesis =>
    have length := req.length_moves params
    rw [List.flatMap_cons, List.take_append, List.countP_append, countP_moves, length] at enough
    by_cases none : req.numBytes = 0
    · rw [List.filter_cons_of_neg (by simp [none])]
      rw [none] at enough
      exact inductionHypothesis (by simpa using enough)
    · rw [List.filter_cons_of_pos (by simp [none])]
      cases ends with
      | zero => simp
      | succ ends =>
        rw [List.take_succ_cons, List.flatMap_cons, List.length_append, length]
        by_cases all : req.numBytes ≤ count
        · rw [decide_eq_true none, decide_eq_true all, Bool.and_self, Bool.toNat_true] at enough
          have rest := inductionHypothesis (Nat.le_of_add_le_add_right (Nat.add_comm 1 _ ▸ enough))
          omega
        · -- the first transfer is not complete, so none is
          have nothing : count - req.numBytes = 0 := by omega
          rw [decide_eq_false all, Bool.and_false, nothing, List.take_zero, List.countP_nil] at enough
          exact absurd enough (Nat.not_succ_le_zero ends)

theorem Inv.copiesTransfers (inv : trace.Inv) : trace.CopiesTransfers := by
  obtain ⟨written, held, left, bytes, copies⟩ := inv.copies
  have length : trace.2.written.length = written.length := by
    simpa using congrArg List.length copies.wrote
  exact
    { reads := by
        rw [copies.read, copies.moves]
        exact (List.prefix_append _ _).map _
      writes := by
        rw [copies.wrote, copies.moves, List.append_assoc]
        exact (List.prefix_append _ _).map _
      data := by
        rw [copies.data]
        exact List.prefix_append _ _
      completed := by
        refine length_le_of_countP ?_
        have ended := copies.completed
        have start : (trace.2.moves params).take trace.2.written.length = written := by
          rw [copies.moves, length, List.append_assoc, List.take_left]
        rw [AxiDmaHistory.moves] at start
        rw [start]
        omega }

end AxiDmaTrace

/-- Whatever the bus does, as long as it keeps to its rules, and however the transfers that the backend
    gets are aligned, cut, overlapped and delayed: it copies their bytes in order, and reports no
    transfer complete that is not written. -/
theorem axiDmaBackend_copies (params : AxiDmaParams) (inputs : List AxiDmaBackendIn)
    (admitted : (axiDmaTrace params).Admits AxiDmaTrace.Permits inputs) :
    ((axiDmaTrace params).run inputs).CopiesTransfers :=
  (admitted.invariant AxiDmaTrace.Inv .reset fun _ _ inv permits => inv.step permits).copiesTransfers

/-! Three bytes over a bus of two lanes, from an odd address to an even one. -/

def smallDma : AxiDmaParams where
  offsetWidth := 1
  addrWidth := 32
  axReqFifoDepth := 2
  transFifoDepth := 2
  bufferDepth := 2
  offsetWidth_pos := Nat.one_pos
  offsetWidth_le := Nat.succ_le_succ (Nat.zero_le 6)
  addrWidth_ge := Nat.le_refl 32
  axReqFifoDepth_pos := Nat.two_pos
  transFifoDepth_pos := Nat.two_pos
  bufferDepth_pos := Nat.two_pos

def AxiDmaRes.quiet : AxiDmaRes where
  arReady := false
  awReady := false
  wReady := false
  rValid := false
  rLast := false
  rData := fun _ => 0
  bValid := false

/-- A cycle without a request. -/
def AxiDmaBackendIn.bus (res : AxiDmaRes) : AxiDmaBackendIn where
  burstReqI := default
  validI := false
  axiDmaResI := res

def copyReq (src dst numBytes : Nat) : BurstReq where
  id := 0
  src := src
  dst := dst
  numBytes := numBytes
  cacheSrc := 0
  cacheDst := 0
  burstSrc := burstIncr
  burstDst := burstIncr
  decoupleRw := false
  deburst := false
  serialize := false

def copyRun : List AxiDmaBackendIn :=
  [{ burstReqI := copyReq 1 2 3, validI := true, axiDmaResI := .quiet },
    .bus .quiet,
    .bus .quiet,
    .bus { AxiDmaRes.quiet with arReady := true, awReady := true },
    .bus { AxiDmaRes.quiet with rValid := true, rData := fun lane => if lane = 1 then 0xa else 0 },
    .bus { AxiDmaRes.quiet with
      rValid := true
      rLast := true
      rData := fun lane => if lane = 0 then 0xb else 0xc },
    .bus { AxiDmaRes.quiet with wReady := true },
    .bus { AxiDmaRes.quiet with wReady := true },
    .bus { AxiDmaRes.quiet with bValid := true }]

theorem axiDmaBackend_copies_three :
    ((axiDmaTrace smallDma).run copyRun).CopiesTransfers ∧
      ((axiDmaTrace smallDma).run copyRun).2.written = [(2, 0xa), (3, 0xb), (4, 0xc)] ∧
      ((axiDmaTrace smallDma).run copyRun).2.completed = 1 :=
  ⟨axiDmaBackend_copies smallDma copyRun (by decide +kernel), by decide +kernel, by decide +kernel⟩

end Pspin
