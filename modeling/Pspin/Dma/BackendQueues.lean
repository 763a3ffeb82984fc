import Pspin.Dma.BackendTrace

/-! # The bursts of a DMA backend

The emitters of a channel are two FIFOs, one for the address of a burst and one for what the data path
needs of it.  A burst leaves the first one when the bus takes its address and the second one with its
last beat, so what is on the bus and what is in the first FIFO together belong to the second one, entry
by entry.
-/

namespace Pspin

open Clocked

namespace AxiDmaTrace

variable {params : AxiDmaParams}

/-- The read side: bursts in order, the first one as far as the data path believes. -/
structure Reading (trace : AxiDmaTrace params) : Prop where
  paired : (trace.2.arOpen ++ trace.1.mover.arEmitter.contents).length =
    trace.1.mover.rEmitter.contents.length
  place : AtBeat ReadReq.len trace.reads trace.2.rBeat
  sound : ∀ req ∈ trace.reads, req.Sound params
  first : trace.1.path.isFirstR = (trace.2.rBeat == 0)

/-- The write side. -/
structure Writing (trace : AxiDmaTrace params) : Prop where
  paired : (trace.2.awOpen ++ trace.1.mover.awEmitter.contents).length =
    trace.1.mover.wEmitter.contents.length
  place : AtBeat WriteReq.len trace.writes trace.2.wBeat
  sound : ∀ req ∈ trace.writes, req.Sound params
  counting : trace.1.path.wCntValidQ = decide (trace.2.wBeat ≠ 0)
  left : ∀ req ∈ trace.writes.head?, trace.2.wBeat ≠ 0 →
    trace.1.path.wNumBeatsQ = req.len + 1 - trace.2.wBeat

theorem Reading.reset : (axiDmaTrace params).reset.Reading where
  paired := rfl
  place := ⟨fun _ => rfl, fun _ member => by cases member⟩
  sound _ member := by cases member
  first := rfl

theorem Writing.reset : (axiDmaTrace params).reset.Writing where
  paired := rfl
  place := ⟨fun _ => rfl, fun _ member => by cases member⟩
  sound _ member := by cases member
  counting := rfl
  left _ member := by cases member

variable {trace : AxiDmaTrace params} {inp : AxiDmaBackendIn}

/-- A burst is sent only if both FIFOs of its channel have a place. -/
theorem room_of_rPush (push : trace.1.burst.rPush (trace.1.reshaperIn inp) = true) :
    trace.1.mover.arEmitter.fullO = false ∧ trace.1.mover.rEmitter.fullO = false := by
  rw [BurstDecoupled.rPush, Bool.and_eq_true] at push
  simpa [AxiDmaBackend.reshaperIn, AxiDmaDataMover.rReadyO] using push.2

theorem room_of_wPush (push : trace.1.burst.wPush (trace.1.reshaperIn inp) = true) :
    trace.1.mover.awEmitter.fullO = false ∧ trace.1.mover.wEmitter.fullO = false := by
  rw [BurstDecoupled.wPush, Bool.and_eq_true] at push
  simpa [AxiDmaBackend.reshaperIn, AxiDmaDataMover.wReadyO] using push.2

/-! ## Reads -/

namespace Reading

variable (reading : trace.Reading)

include reading

/-- The beat that is read belongs to the first burst. -/
theorem exists_first (permits : trace.Permits inp) (takes : trace.1.rTakes inp = true) :
    ∃ req rest, trace.reads = req :: rest ∧
      (trace.2.arOpened trace.1 inp).headD default = req.ar ∧ (trace.1.pathIn inp).r = req.r ∧
      inp.axiDmaResI.rLast = (trace.2.rBeat == req.len) := by
  have valid : inp.axiDmaResI.rValid = true := by
    rw [AxiDmaBackend.rTakes, AxiDmaDataPath.push, Bool.and_eq_true] at takes
    exact takes.1
  obtain ⟨ar, opened, isOpened⟩ := List.exists_cons_of_ne_nil (permits.reads valid)
  obtain ⟨rest, isFront⟩ := exists_of_handed isOpened
  have some : trace.1.mover.rEmitter.contents ≠ [] := by
    intro none
    have length := reading.paired
    rw [isFront, none] at length
    cases length
  obtain ⟨r, descs, isDesc⟩ := List.exists_cons_of_ne_nil some
  have first : trace.reads = ⟨ar, r⟩ :: List.zipWith ReadReq.mk rest descs := by
    rw [reads, isFront, isDesc, List.zipWith_cons_cons]
  have last := permits.rLast valid
  rw [isOpened] at last ⊢
  exact ⟨⟨ar, r⟩, _, first, rfl, FifoV3.dataO_eq_head isDesc, last⟩

theorem rEmitterPop_eq (permits : trace.Permits inp) :
    trace.1.mover.rEmitterPop inp.axiDmaResI =
      (trace.1.rTakes inp && inp.axiDmaResI.rLast) := by
  have gives : trace.1.mover.rEmitterPop inp.axiDmaResI =
      (!trace.1.mover.rEmitter.emptyO && (trace.1.rTakes inp && inp.axiDmaResI.rLast)) :=
    AxiDmaDataPath.rDpReadyO_eq
  rw [gives]
  cases takes : trace.1.rTakes inp with
  | false => simp
  | true =>
    obtain ⟨req, rest, first, -⟩ := reading.exists_first permits takes
    have some : trace.1.mover.rEmitter.emptyO = false := by
      rw [FifoV3.emptyO_eq_false]
      intro none
      rw [reads, none, List.zipWith_nil_right] at first
      cases first
    rw [some]
    rfl

/-- What the emitters hold after a cycle, together with the bus. -/
theorem emitters_step (permits : trace.Permits inp) :
    (trace.step inp).2.arOpen ++ (trace.step inp).1.mover.arEmitter.contents =
      (if trace.1.rTakes inp && inp.axiDmaResI.rLast then
        (trace.2.arOpen ++ trace.1.mover.arEmitter.contents).tail
      else trace.2.arOpen ++ trace.1.mover.arEmitter.contents) ++
        (if trace.1.burst.rPush (trace.1.reshaperIn inp) then [(trace.1.burst.readReqO params).ar]
        else []) ∧
    (trace.step inp).1.mover.rEmitter.contents =
      (if trace.1.rTakes inp && inp.axiDmaResI.rLast then trace.1.mover.rEmitter.contents.tail
      else trace.1.mover.rEmitter.contents) ++
        (if trace.1.burst.rPush (trace.1.reshaperIn inp) then [(trace.1.burst.readReqO params).r]
        else []) := by
  have ars : (trace.step inp).1.mover.arEmitter.contents = _ :=
    FifoV3.contents_step_of_room (fun push => (room_of_rPush push).1)
      (trace.1.burst.readReqO params).ar (trace.1.arPop inp)
  have rs : (trace.step inp).1.mover.rEmitter.contents = _ :=
    FifoV3.contents_step_of_room (fun push => (room_of_rPush push).2)
      (trace.1.burst.readReqO params).r (trace.1.mover.rEmitterPop inp.axiDmaResI)
  have opened : (trace.1.rTakes inp && inp.axiDmaResI.rLast) = true →
      trace.2.arOpened trace.1 inp ≠ [] := by
    intro done
    rw [Bool.and_eq_true, AxiDmaBackend.rTakes, AxiDmaDataPath.push, Bool.and_eq_true] at done
    exact permits.reads done.1.1
  have handed := handover opened
  refine ⟨?_, ?_⟩
  · rw [ars, ← List.append_assoc, ← handed]
    rfl
  · rw [rs, reading.rEmitterPop_eq permits]

/-- Read bursts leave with their last beat and join as they are sent. -/
theorem reads_step (permits : trace.Permits inp) : (trace.step inp).reads =
    (if trace.1.rTakes inp && inp.axiDmaResI.rLast then trace.reads.tail else trace.reads) ++
      if trace.1.burst.rPush (trace.1.reshaperIn inp) then [trace.1.burst.readReqO params] else [] := by
  obtain ⟨ars, rs⟩ := reading.emitters_step permits
  rw [reads, ars, rs]
  exact zipWith_queue ReadReq.mk reading.paired _ _ _ _

theorem exists_taken (permits : trace.Permits inp) (takes : trace.1.rTakes inp = true) :
    ∃ req rest, trace.reads = req :: rest ∧
      inp.axiDmaResI.rLast = (trace.2.rBeat == req.len) := by
  obtain ⟨req, rest, first, -, -, last⟩ := reading.exists_first permits takes
  exact ⟨req, rest, first, last⟩

theorem step (burst : trace.1.burst.Inv params) (permits : trace.Permits inp) :
    (trace.step inp).Reading where
  paired := by
    have same := reading.paired
    obtain ⟨ars, rs⟩ := reading.emitters_step permits
    rw [ars, rs, List.length_append, List.length_append]
    congr 1
    · split
      · rw [List.length_tail, List.length_tail, same]
      · exact same
    · split <;> rfl
  place := by
    rw [reading.reads_step permits]
    exact reading.place.step (reading.exists_taken permits)
  sound := by
    intro req member
    rw [reading.reads_step permits, List.mem_append] at member
    rcases member with before | joins
    · refine reading.sound req ?_
      split at before
      · exact List.mem_of_mem_tail before
      · exact before
    · split at joins
      next push =>
        obtain rfl := List.mem_singleton.mp joins
        exact BurstDecoupled.sound_of_rPush burst push
      next => cases joins
  first := by
    have before := reading.first
    show (if trace.1.rTakes inp then (if inp.axiDmaResI.rValid then inp.axiDmaResI.rLast
      else trace.1.path.isFirstR) else trace.1.path.isFirstR) =
        ((if trace.1.rTakes inp then if inp.axiDmaResI.rLast then 0 else trace.2.rBeat + 1
          else trace.2.rBeat) == 0)
    cases takes : trace.1.rTakes inp with
    | false => simpa using before
    | true =>
      have valid : inp.axiDmaResI.rValid = true := by
        rw [AxiDmaBackend.rTakes, AxiDmaDataPath.push, Bool.and_eq_true] at takes
        exact takes.1
      rw [valid]
      cases inp.axiDmaResI.rLast <;> rfl

end Reading

/-! ## Writes -/

namespace Writing

variable (writing : trace.Writing)

include writing

/-- The data path counts the beats of the first burst. -/
theorem counts {req : WriteReq} (isHead : req ∈ trace.writes.head?)
    (desc : (trace.1.pathIn inp).w = req.w) :
    trace.1.path.Counts (trace.1.pathIn inp).w req.len trace.2.wBeat := by
  have sound := writing.sound req (List.mem_of_mem_head? isHead)
  exact
    { before := writing.place.before req isHead
      numBeats := desc ▸ sound.numBeats
      isSingle := desc ▸ sound.isSingle
      small := sound.legal.len
      valid := writing.counting
      left := writing.left req isHead }

/-- The beat that is written belongs to the first burst, and the data path knows which one it is. -/
theorem exists_first (permits : trace.Permits inp) (gives : trace.1.wGives inp = true) :
    ∃ req rest, trace.writes = req :: rest ∧
      (trace.2.awOpened trace.1 inp).headD default = req.aw ∧ (trace.1.pathIn inp).w = req.w ∧
      trace.1.path.Counts (trace.1.pathIn inp).w req.len trace.2.wBeat := by
  obtain ⟨aw, opened, isOpened⟩ := List.exists_cons_of_ne_nil (permits.writes gives)
  obtain ⟨rest, isFront⟩ := exists_of_handed isOpened
  have some : trace.1.mover.wEmitter.contents ≠ [] := by
    intro none
    have length := writing.paired
    rw [isFront, none] at length
    cases length
  obtain ⟨w, descs, isDesc⟩ := List.exists_cons_of_ne_nil some
  have first : trace.writes = ⟨aw, w⟩ :: List.zipWith WriteReq.mk rest descs := by
    rw [writes, isFront, isDesc, List.zipWith_cons_cons]
  have desc : (trace.1.pathIn inp).w = w := FifoV3.dataO_eq_head isDesc
  exact ⟨⟨aw, w⟩, _, first, by rw [isOpened]; rfl, desc, writing.counts (by rw [first]; rfl) desc⟩

omit writing in
theorem wLast_eq {req : WriteReq} (gives : trace.1.wGives inp = true)
    (counts : trace.1.path.Counts (trace.1.pathIn inp).w req.len trace.2.wBeat) :
    trace.1.wLast inp = (trace.2.wBeat == req.len) := by
  rw [AxiDmaBackend.wGives, AxiDmaDataPath.writeHappening, Bool.and_eq_true] at gives
  rw [AxiDmaBackend.wLast, AxiDmaDataPath.wLastO, gives.1, Bool.and_true, counts.isLastW_eq]

theorem exists_given (permits : trace.Permits inp) (gives : trace.1.wGives inp = true) :
    ∃ req rest, trace.writes = req :: rest ∧ trace.1.wLast inp = (trace.2.wBeat == req.len) := by
  obtain ⟨req, rest, first, -, -, counts⟩ := writing.exists_first permits gives
  exact ⟨req, rest, first, wLast_eq gives counts⟩

omit writing in
theorem emitters_step (permits : trace.Permits inp) :
    (trace.step inp).2.awOpen ++ (trace.step inp).1.mover.awEmitter.contents =
      (if trace.1.wGives inp && trace.1.wLast inp then
        (trace.2.awOpen ++ trace.1.mover.awEmitter.contents).tail
      else trace.2.awOpen ++ trace.1.mover.awEmitter.contents) ++
        (if trace.1.burst.wPush (trace.1.reshaperIn inp) then [(trace.1.burst.writeReqO params).aw]
        else []) ∧
    (trace.step inp).1.mover.wEmitter.contents =
      (if trace.1.wGives inp && trace.1.wLast inp then trace.1.mover.wEmitter.contents.tail
      else trace.1.mover.wEmitter.contents) ++
        (if trace.1.burst.wPush (trace.1.reshaperIn inp) then [(trace.1.burst.writeReqO params).w]
        else []) := by
  have aws : (trace.step inp).1.mover.awEmitter.contents = _ :=
    FifoV3.contents_step_of_room (fun push => (room_of_wPush push).1)
      (trace.1.burst.writeReqO params).aw (trace.1.awPop inp)
  have ws : (trace.step inp).1.mover.wEmitter.contents = _ :=
    FifoV3.contents_step_of_room (fun push => (room_of_wPush push).2)
      (trace.1.burst.writeReqO params).w (trace.1.mover.wEmitterPop inp.axiDmaResI)
  have done : trace.1.mover.wEmitterPop inp.axiDmaResI =
      (trace.1.wGives inp && trace.1.wLast inp) := AxiDmaDataPath.wDpReadyO_eq
  have opened : (trace.1.wGives inp && trace.1.wLast inp) = true →
      trace.2.awOpened trace.1 inp ≠ [] := by
    intro ends
    rw [Bool.and_eq_true] at ends
    exact permits.writes ends.1
  have handed := handover opened
  refine ⟨?_, ?_⟩
  · rw [aws, ← List.append_assoc, ← handed]
    rfl
  · rw [ws, done]

theorem writes_step (permits : trace.Permits inp) : (trace.step inp).writes =
    (if trace.1.wGives inp && trace.1.wLast inp then trace.writes.tail else trace.writes) ++
      if trace.1.burst.wPush (trace.1.reshaperIn inp) then [trace.1.burst.writeReqO params] else [] := by
  obtain ⟨aws, ws⟩ := emitters_step permits
  rw [writes, aws, ws]
  exact zipWith_queue WriteReq.mk writing.paired _ _ _ _

theorem step (burst : trace.1.burst.Inv params) (permits : trace.Permits inp) :
    (trace.step inp).Writing where
  paired := by
    have same := writing.paired
    obtain ⟨aws, ws⟩ := emitters_step permits
    rw [aws, ws, List.length_append, List.length_append]
    congr 1
    · split
      · rw [List.length_tail, List.length_tail, same]
      · exact same
    · split <;> rfl
  place := by
    rw [writing.writes_step permits]
    exact writing.place.step (writing.exists_given permits)
  sound := by
    intro req member
    rw [writing.writes_step permits, List.mem_append] at member
    rcases member with before | joins
    · refine writing.sound req ?_
      split at before
      · exact List.mem_of_mem_tail before
      · exact before
    · split at joins
      next push =>
        obtain rfl := List.mem_singleton.mp joins
        exact BurstDecoupled.sound_of_wPush burst push
      next => cases joins
  counting := by
    show ((trace.1.path.step (trace.1.pathIn inp)).wCntValidQ) = decide
      ((if trace.1.wGives inp then if trace.1.wLast inp then 0 else trace.2.wBeat + 1
        else trace.2.wBeat) ≠ 0)
    cases gives : trace.1.wGives inp with
    | false => rw [(AxiDmaDataPath.counters_of_idle gives).1, writing.counting, if_neg Bool.false_ne_true]
    | true =>
      obtain ⟨req, rest, -, -, -, counts⟩ := writing.exists_first permits gives
      rw [if_pos rfl, wLast_eq gives counts]
      by_cases ends : trace.2.wBeat = req.len
      · rw [counts.step_of_last gives ends, ends]
        simp
      · have before := counts.before
        rw [(counts.step_of_more gives (by omega)).valid]
        simp [ends]
  left := by
    intro req member some
    rw [writing.writes_step permits] at member
    have beat : (trace.step inp).2.wBeat = if trace.1.wGives inp then
      if trace.1.wLast inp then 0 else trace.2.wBeat + 1 else trace.2.wBeat := rfl
    rw [beat] at some ⊢
    show (trace.1.path.step (trace.1.pathIn inp)).wNumBeatsQ = _
    cases gives : trace.1.wGives inp with
    | false =>
      rw [gives] at member some
      rw [(AxiDmaDataPath.counters_of_idle gives).2, if_neg Bool.false_ne_true]
      -- the first burst stays, since a beat of it is done
      have busy : trace.writes ≠ [] := fun none => some (writing.place.fresh none)
      obtain ⟨first, rest, isFirst⟩ := List.exists_cons_of_ne_nil busy
      rw [isFirst] at member
      exact writing.left req (by rw [isFirst]; exact member) some
    | true =>
      obtain ⟨first, rest, isFirst, -, -, counts⟩ := writing.exists_first permits gives
      have last := wLast_eq gives counts
      rw [gives, last] at member some
      rw [if_pos rfl, last]
      by_cases ends : trace.2.wBeat = first.len
      · rw [ends, beq_self_eq_true] at some
        exact absurd rfl some
      · have before := counts.before
        rw [beq_eq_false_iff_ne.mpr ends, isFirst] at member
        obtain rfl : first = req := by simpa using member
        rw [beq_eq_false_iff_ne.mpr ends, if_neg Bool.false_ne_true,
          (counts.step_of_more gives (by omega)).left (Nat.succ_ne_zero _)]

end Writing

end AxiDmaTrace

end Pspin
