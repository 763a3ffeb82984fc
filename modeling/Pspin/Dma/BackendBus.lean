import Pspin.Dma.BackendCopies

/-! # A DMA backend as a master on the bus

The bus asks of its masters that the bursts they request are legal, that a write burst has as many
beats as its address says with `last` on the last one, and that what is offered stays until it is
taken.  The data path writes whatever its lanes hold, without looking whether a write burst waits for
it, so for the last of these the emitters need a place for more than one burst: then they are never
empty while the data path holds something.
-/

namespace Pspin

open Clocked

namespace AxiDmaTrace

variable {params : AxiDmaParams} {trace : AxiDmaTrace params} {inp : AxiDmaBackendIn}

/-! ## What the two channels have done -/

theorem length_rest {γ : Type*} (g : Nat → Bool → γ) (chan : BurstChan) :
    (chan.rest params g).length = chan.numBytes := by
  rw [BurstChan.rest, List.length_map, List.length_range]

theorem Inv.lengths (inv : trace.Inv) :
    trace.2.fetched.length + trace.readRest.length = (trace.2.moves params).length ∧
      trace.2.written.length + trace.writeRest.length = (trace.2.moves params).length := by
  obtain ⟨written, held, left, bytes, copies⟩ := inv.copies
  have read := congrArg List.length copies.read
  have toRead := congrArg List.length copies.toRead
  have wrote := congrArg List.length copies.wrote
  have toWrite := congrArg List.length copies.toWrite
  simp only [List.length_map, List.length_append] at read toRead wrote toWrite
  rw [copies.moves]
  simp only [List.length_append]
  omega

/-- Both channels have the same number of bytes before them, so what is read is what is written and
    what is under way. -/
theorem Inv.balance (inv : trace.Inv) : trace.2.fetched.length +
      (restOf (ReadReq.beat params) ReadReq.len trace.reads trace.2.rBeat).length +
        trace.1.burst.src.numBytes = trace.2.written.length +
      (restOf (WriteReq.beat params) WriteReq.len trace.writes trace.2.wBeat).length +
        trace.1.burst.dst.numBytes := by
  have lengths := inv.lengths
  simp only [readRest, writeRest, List.length_append, BurstDecoupled.srcRest,
    BurstDecoupled.dstRest, length_rest, ← List.map_flatMap, List.length_map] at lengths
  omega

theorem Inv.length_reading (inv : trace.Inv) (permits : trace.Permits inp) :
    (trace.2.reading trace.1 inp).length = (trace.readBeat inp).length := by
  obtain ⟨written, held, left, bytes, copies⟩ := inv.copies
  obtain ⟨entering, -, -, same, srcs, -⟩ := copies.exists_entering inv.reading permits
  have beats := congrArg List.length same
  have bytes := congrArg List.length srcs
  simp only [List.length_map] at beats bytes
  omega

theorem Inv.length_writing (inv : trace.Inv) (permits : trace.Permits inp) :
    (trace.2.writing trace.1 inp).length = (trace.writeBeat inp).length := by
  obtain ⟨written, held, left, bytes, copies⟩ := inv.copies
  obtain ⟨leaving, -, -, -, -, -, same, -, -, dsts, -⟩ := copies.exists_leaving inv.writing permits
  have beats := congrArg List.length same
  have bytes := congrArg List.length dsts
  simp only [List.length_map] at beats bytes
  omega

theorem length_fetched_step (inv : trace.Inv) (permits : trace.Permits inp) :
    (trace.step inp).2.fetched.length = trace.2.fetched.length + (trace.readBeat inp).length := by
  show (trace.2.fetched ++ trace.2.reading trace.1 inp).length = _
  rw [List.length_append, inv.length_reading permits]

theorem length_written_step (inv : trace.Inv) (permits : trace.Permits inp) :
    (trace.step inp).2.written.length = trace.2.written.length + (trace.writeBeat inp).length := by
  show (trace.2.written ++ trace.2.writing trace.1 inp).length = _
  rw [List.length_append, inv.length_writing permits]

theorem length_readBeat_le (reading : trace.Reading) (permits : trace.Permits inp) :
    (trace.readBeat inp).length ≤
      (restOf (ReadReq.beat params) ReadReq.len trace.reads trace.2.rBeat).length := by
  refine (reading.place.prefix_restOf _ fun takes => ?_).length_le
  obtain ⟨req, rest, first, -⟩ := reading.exists_taken permits takes
  rw [first]
  exact List.cons_ne_nil req rest

/-! ## No byte without its burst -/

/-- If no write burst waits for the data path, it holds nothing. -/
def NoStray (trace : AxiDmaTrace params) : Prop :=
  trace.1.mover.wEmitter.contents = [] → trace.2.fetched.length ≤ trace.2.written.length

/-- The write channel is stopped only by emitters that are not empty, so when they get empty it has
    sent what the read channel has sent. -/
theorem Inv.noStray_step (inv : trace.Inv) (permits : trace.Permits inp)
    (several : 1 < params.axReqFifoDepth) : (trace.step inp).NoStray := by
  intro none
  obtain ⟨-, ws⟩ := Writing.emitters_step permits
  rw [none] at ws
  obtain ⟨before, pushed⟩ := List.append_eq_nil_iff.mp ws.symm
  have idle : trace.1.burst.wPush (trace.1.reshaperIn inp) = false := by
    by_contra push
    rw [Bool.not_eq_false] at push
    rw [if_pos push] at pushed
    cases pushed
  have few : trace.1.mover.wEmitter.contents.length ≤ 1 := by
    split at before
    · have tail := congrArg List.length before
      rw [List.length_tail, List.length_nil] at tail
      omega
    · rw [before]
      exact Nat.zero_le _
  have fewer := inv.writing.paired
  rw [List.length_append] at fewer
  have ready : trace.1.mover.wReadyO = true := by
    have notFull : trace.1.mover.awEmitter.fullO = false := by rw [FifoV3.fullO_eq_false]; omega
    have notFull' : trace.1.mover.wEmitter.fullO = false := by rw [FifoV3.fullO_eq_false]; omega
    rw [AxiDmaDataMover.wReadyO, notFull, notFull']
    rfl
  -- nothing is sent, so the bursts under way are what the beat takes
  have bursts := inv.writing.place.passes (WriteReq.beat params) (inv.writing.exists_given permits)
    (if trace.1.burst.wPush (trace.1.reshaperIn inp) then [trace.1.burst.writeReqO params] else [])
  rw [← inv.writing.writes_step permits] at bursts
  have noWrites : (trace.step inp).writes = [] := by
    rw [writes, none, List.zipWith_nil_right]
  rw [noWrites, idle] at bursts
  have all : (trace.writeBeat inp).length =
      (restOf (WriteReq.beat params) WriteReq.len trace.writes trace.2.wBeat).length := by
    rw [Passes, if_neg Bool.false_ne_true, List.flatMap_nil, List.append_nil, restOf_nil,
      List.append_nil] at bursts
    rw [bursts]
    rfl
  have balance := inv.balance
  have further := BurstDecoupled.numBytes_le inv.burst ready idle
  have reads := length_readBeat_le inv.reading permits
  rw [length_fetched_step inv permits, length_written_step inv permits, all]
  omega

/-- The invariant of a backend whose emitters have a place for more than one burst. -/
structure BusInv (trace : AxiDmaTrace params) : Prop where
  inv : trace.Inv
  noStray : trace.NoStray

theorem BusInv.reset : (axiDmaTrace params).reset.BusInv := ⟨.reset, fun _ => Nat.le_refl 0⟩

theorem BusInv.step (bus : trace.BusInv) (permits : trace.Permits inp)
    (several : 1 < params.axReqFifoDepth) : (trace.step inp).BusInv :=
  ⟨bus.inv.step permits, bus.inv.noStray_step permits several⟩

/-- Data that is offered belongs to the first write burst. -/
theorem BusInv.exists_offered (bus : trace.BusInv)
    (ready : trace.1.path.readyToWrite (trace.1.pathIn inp) = true) :
    ∃ req rest, trace.writes = req :: rest ∧ (trace.1.pathIn inp).w = req.w ∧
      trace.1.path.Counts (trace.1.pathIn inp).w req.len trace.2.wBeat := by
  have some : trace.1.mover.wEmitter.contents ≠ [] := by
    intro none
    have few := bus.noStray none
    obtain ⟨written, held, left, bytes, copies⟩ := bus.inv.copies
    have data := congrArg List.length copies.data
    simp only [List.length_map, List.length_append] at data
    have empty : bytes = [] := List.eq_nil_of_length_eq_zero (by omega)
    exact absurd ready (Bool.eq_false_iff.mp
      (AxiDmaDataPath.readyToWrite_of_empty copies.holds empty))
  obtain ⟨w, descs, isDesc⟩ := List.exists_cons_of_ne_nil some
  have paired := bus.inv.writing.paired
  obtain ⟨aw, addrs, isAddr⟩ : ∃ aw addrs,
      trace.2.awOpen ++ trace.1.mover.awEmitter.contents = aw :: addrs := by
    refine List.exists_cons_of_ne_nil fun none => ?_
    rw [none, isDesc] at paired
    cases paired
  have first : trace.writes = ⟨aw, w⟩ :: List.zipWith WriteReq.mk addrs descs := by
    rw [writes, isAddr, isDesc, List.zipWith_cons_cons]
  have desc : (trace.1.pathIn inp).w = w := FifoV3.dataO_eq_head isDesc
  exact ⟨⟨aw, w⟩, _, first, desc, bus.inv.writing.counts (by rw [first]; rfl) desc⟩

/-! ## Addresses -/

theorem map_reads (paired : (trace.2.arOpen ++ trace.1.mover.arEmitter.contents).length =
      trace.1.mover.rEmitter.contents.length) :
    trace.reads.map ReadReq.ar = trace.2.arOpen ++ trace.1.mover.arEmitter.contents := by
  have first := List.map_fst_zip (Nat.le_of_eq paired)
  rw [List.zip, List.map_zipWith] at first
  rw [reads, List.map_zipWith]
  exact first

theorem map_writes (paired : (trace.2.awOpen ++ trace.1.mover.awEmitter.contents).length =
      trace.1.mover.wEmitter.contents.length) :
    trace.writes.map WriteReq.aw = trace.2.awOpen ++ trace.1.mover.awEmitter.contents := by
  have first := List.map_fst_zip (Nat.le_of_eq paired)
  rw [List.zip, List.map_zipWith] at first
  rw [writes, List.map_zipWith]
  exact first

theorem Reading.legal (reading : trace.Reading) (valid : trace.1.mover.arValid = true) :
    trace.1.mover.currentArReq.Legal params := by
  rw [AxiDmaDataMover.arValid, Bool.not_eq_true', FifoV3.emptyO_eq_false] at valid
  obtain ⟨ar, rest, isFront⟩ := List.exists_cons_of_ne_nil valid
  have head : trace.1.mover.currentArReq = ar := FifoV3.dataO_eq_head isFront
  have member : ar ∈ trace.reads.map ReadReq.ar := by
    rw [map_reads reading.paired, isFront]
    exact List.mem_append_right _ List.mem_cons_self
  obtain ⟨req, inReads, rfl⟩ := List.mem_map.mp member
  rw [head]
  exact (reading.sound req inReads).legal

theorem Writing.legal (writing : trace.Writing) (valid : trace.1.mover.awValid = true) :
    trace.1.mover.currentAwReq.Legal params := by
  rw [AxiDmaDataMover.awValid, Bool.not_eq_true', FifoV3.emptyO_eq_false] at valid
  obtain ⟨aw, rest, isFront⟩ := List.exists_cons_of_ne_nil valid
  have head : trace.1.mover.currentAwReq = aw := FifoV3.dataO_eq_head isFront
  have member : aw ∈ trace.writes.map WriteReq.aw := by
    rw [map_writes writing.paired, isFront]
    exact List.mem_append_right _ List.mem_cons_self
  obtain ⟨req, inWrites, rfl⟩ := List.mem_map.mp member
  rw [head]
  exact (writing.sound req inWrites).legal

/-! ## Rules of the bus -/

/-- What the backend offers: bursts that the bus allows, and data that belongs to the first write burst
    which is not done, with `last` on the last beat of it and not before. -/
structure Offers (trace : AxiDmaTrace params) (inp : AxiDmaBackendIn) : Prop where
  ar : trace.1.mover.arValid = true → trace.1.mover.currentArReq.Legal params
  aw : trace.1.mover.awValid = true → trace.1.mover.currentAwReq.Legal params
  w : trace.1.path.wValidO (trace.1.pathIn inp) = true → ∃ aw rest,
    trace.2.awOpen ++ trace.1.mover.awEmitter.contents = aw :: rest ∧ trace.2.wBeat ≤ aw.len ∧
      trace.1.wLast inp = (trace.2.wBeat == aw.len)

/-- What the backend offers and the bus does not take is offered in the next cycle, whatever this
    one brings. -/
structure Keeps (trace : AxiDmaTrace params) (inp next : AxiDmaBackendIn) : Prop where
  ar : trace.1.mover.arValid = true → inp.axiDmaResI.arReady = false →
    (trace.step inp).1.mover.arValid = true ∧
      (trace.step inp).1.mover.currentArReq = trace.1.mover.currentArReq
  aw : trace.1.mover.awValid = true → inp.axiDmaResI.awReady = false →
    (trace.step inp).1.mover.awValid = true ∧
      (trace.step inp).1.mover.currentAwReq = trace.1.mover.currentAwReq
  w : trace.1.path.wValidO (trace.1.pathIn inp) = true → inp.axiDmaResI.wReady = false →
    (trace.step inp).1.path.wValidO ((trace.step inp).1.pathIn next) = true ∧
      (trace.step inp).1.wLast next = trace.1.wLast inp ∧
      ∀ lane < params.strbWidth,
        (trace.step inp).1.path.wStrbO ((trace.step inp).1.pathIn next) lane =
          trace.1.path.wStrbO (trace.1.pathIn inp) lane ∧
        (trace.step inp).1.path.wDataO ((trace.step inp).1.pathIn next) lane =
          trace.1.path.wDataO (trace.1.pathIn inp) lane

theorem BusInv.offers (bus : trace.BusInv) (inp : AxiDmaBackendIn) : trace.Offers inp where
  ar := bus.inv.reading.legal
  aw := bus.inv.writing.legal
  w := by
    intro ready
    obtain ⟨req, rest, first, -, counts⟩ := bus.exists_offered ready
    have addresses := map_writes bus.inv.writing.paired
    rw [first, List.map_cons] at addresses
    have ready : trace.1.path.readyToWrite (trace.1.pathIn inp) = true := ready
    refine ⟨req.aw, _, addresses.symm, counts.before, ?_⟩
    rw [AxiDmaBackend.wLast, AxiDmaDataPath.wLastO, ready, Bool.and_true, counts.isLastW_eq]
    rfl

/-- An emitter whose burst is not taken offers it again. -/
theorem emitter_waits {emitter : FifoV3 DescAx params.axReqFifoDepth} {ready : Bool}
    (valid : (!emitter.emptyO) = true) (notReady : ready = false) (ax : DescAx) (push : Bool) :
    (!(emitter.step ax push (ready && !emitter.emptyO)).emptyO) = true ∧
      (emitter.step ax push (ready && !emitter.emptyO)).dataO = emitter.dataO := by
  rw [Bool.not_eq_true'] at valid
  rw [notReady, Bool.false_and, Bool.not_eq_true']
  exact FifoV3.front_waits valid ax push

theorem BusInv.keeps (bus : trace.BusInv) (inp next : AxiDmaBackendIn) : trace.Keeps inp next where
  ar valid notReady := emitter_waits valid notReady _ _
  aw valid notReady := emitter_waits valid notReady _ _
  w := by
    intro ready notReady
    have ready : trace.1.path.readyToWrite (trace.1.pathIn inp) = true := ready
    obtain ⟨req, rest, first, desc, counts⟩ := bus.exists_offered ready
    have idle : trace.1.path.writeHappening (trace.1.pathIn inp) = false := by
      have notReady : (trace.1.pathIn inp).wReadyI = false := notReady
      rw [AxiDmaDataPath.writeHappening, notReady, Bool.and_false]
    -- the burst stays at the front of its emitter
    have some : trace.1.mover.wEmitter.emptyO = false := by
      rw [FifoV3.emptyO_eq_false]
      intro none
      rw [writes, none, List.zipWith_nil_right] at first
      cases first
    have same : ((trace.step inp).1.pathIn next).w = (trace.1.pathIn inp).w := by
      have popped : trace.1.mover.wEmitterPop inp.axiDmaResI = false := by
        have pop : trace.1.mover.wEmitterPop inp.axiDmaResI =
            (trace.1.wGives inp && trace.1.wLast inp) := AxiDmaDataPath.wDpReadyO_eq
        rw [pop]
        exact (congrArg (· && trace.1.wLast inp) idle).trans (Bool.false_and _)
      show (trace.1.mover.wEmitter.step _ _ (trace.1.mover.wEmitterPop inp.axiDmaResI)).dataO = _
      rw [popped]
      exact (FifoV3.front_waits some _ _).2
    obtain ⟨still, last, mask, data⟩ := counts.waits ready idle same
    have still : (trace.step inp).1.path.readyToWrite ((trace.step inp).1.pathIn next) = true := still
    have strobe (lane : Nat) : (trace.step inp).1.path.wStrbO ((trace.step inp).1.pathIn next) lane =
        trace.1.path.wStrbO (trace.1.pathIn inp) lane := by
      rw [AxiDmaDataPath.wStrbO, AxiDmaDataPath.wStrbO, still, ready]
      exact congrArg (true && ·) (mask lane)
    refine ⟨still, ?_, fun lane inside => ⟨strobe lane, ?_⟩⟩
    · rw [AxiDmaBackend.wLast, AxiDmaBackend.wLast, AxiDmaDataPath.wLastO, AxiDmaDataPath.wLastO, still,
        ready]
      exact congrArg (· && true) last
    · rw [AxiDmaDataPath.wDataO, AxiDmaDataPath.wDataO, strobe]
      split
      next strobed =>
        rw [AxiDmaDataPath.wStrbO, Bool.and_eq_true] at strobed
        exact data lane inside strobed.2
      next => rfl

end AxiDmaTrace

/-- A backend whose emitters have a place for more than one burst keeps to the rules of the bus, in every
    cycle of every run. -/
theorem axiDmaBackend_keepsBusRules (params : AxiDmaParams) (several : 1 < params.axReqFifoDepth)
    (inputs : List AxiDmaBackendIn) (admitted : (axiDmaTrace params).Admits AxiDmaTrace.Permits inputs)
    (inp next : AxiDmaBackendIn) :
    ((axiDmaTrace params).run inputs).Offers inp ∧ ((axiDmaTrace params).run inputs).Keeps inp next := by
  have bus : ((axiDmaTrace params).run inputs).BusInv :=
    admitted.invariant AxiDmaTrace.BusInv .reset fun _ _ bus permits => bus.step permits several
  exact ⟨bus.offers inp, bus.keeps inp next⟩

theorem axiDmaBackend_keepsBusRules_three :
    ((axiDmaTrace smallDma).run (copyRun.take 6)).Offers (.bus .quiet) ∧
      ((axiDmaTrace smallDma).run (copyRun.take 6)).Keeps (.bus .quiet) (.bus .quiet) ∧
      ((axiDmaTrace smallDma).run (copyRun.take 6)).1.path.wValidO
        (((axiDmaTrace smallDma).run (copyRun.take 6)).1.pathIn (.bus .quiet)) = true :=
  have rules := axiDmaBackend_keepsBusRules smallDma (by decide) (copyRun.take 6) (by decide +kernel)
    (.bus .quiet) (.bus .quiet)
  ⟨rules.1, rules.2, by decide +kernel⟩

end Pspin
