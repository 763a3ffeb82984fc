import Pspin.Dma.BackendWork

/-! # A DMA backend finishes

A bus that is eager takes what is offered and answers what it can.  In a cycle of such a bus something
happens unless all is done.  What is read may wait for a lane that is full, and what is written for a lane
that is empty, but not both: the lanes of a word are all different, so a lane that holds two bytes shows
that the word to be written next is there.
-/

namespace Pspin

open Clocked

/-- The lanes of a write beat, in the order of its bytes. -/
theorem WriteReq.map_beat {params : AxiDmaParams} {req : WriteReq} (sound : req.Sound params)
    (beat : Nat) : (req.beat params beat).map (fun entry => entry.1 % params.strbWidth) =
      beatLanes params.strbWidth req.w.offset req.w.tailer (beat == 0) (beat == req.len) := by
  obtain ⟨words, isWord⟩ := sound.legal.aligned
  rw [WriteReq.beat, DescAx.beat, beatBytes, List.map_map, List.map_map]
  refine (List.map_congr_left fun lane member => ?_).trans (List.map_id _)
  have inside := (mem_beatLanes.mp member).1
  have place : req.aw.addr + (beat * params.strbWidth + lane) =
      params.strbWidth * (words + beat) + lane := by
    rw [isWord, Nat.mul_add, Nat.mul_comm beat, Nat.add_assoc]
  simp only [Function.comp_apply, place, Nat.mul_add_mod, Nat.mod_eq_of_lt inside, id]

/-- Where the entries are of different sources, each source has at most one. -/
theorem length_ofKey_le {κ : Type} {α : Type*} [DecidableEq κ] {entries : List (κ × α)}
    (nodup : (entries.map Prod.fst).Nodup) (key : κ) : (ofKey key entries).length ≤ 1 := by
  by_cases member : key ∈ entries.map Prod.fst
  · obtain ⟨entry, inEntries, rfl⟩ := List.mem_map.mp member
    rw [ofKey_eq_singleton nodup inEntries, List.length_singleton]
  · rw [ofKey_eq_nil member]
    exact Nat.zero_le 1

theorem ofKey_ne_nil {κ : Type} {α : Type*} [DecidableEq κ] {entries : List (κ × α)} {key : κ}
    (member : key ∈ entries.map Prod.fst) : ofKey key entries ≠ [] := by
  obtain ⟨entry, inEntries, rfl⟩ := List.mem_map.mp member
  rw [ofKey]
  refine List.map_eq_nil_iff.not.mpr (List.ne_nil_of_mem (a := entry) ?_)
  exact List.mem_filter.mpr ⟨inEntries, decide_eq_true rfl⟩

namespace AxiDmaTrace

variable {params : AxiDmaParams}

section

variable (trace : AxiDmaTrace params) (inp : AxiDmaBackendIn)

/-- The bus takes what is offered, and answers what it can. -/
structure Eager : Prop where
  arReady : inp.axiDmaResI.arReady = true
  awReady : (trace.2.answering ++ trace.2.awOpen).length < params.lastQueueDepth →
    inp.axiDmaResI.awReady = true
  rValid : trace.2.arOpened trace.1 inp ≠ [] → inp.axiDmaResI.rValid = true
  wReady : trace.2.awOpened trace.1 inp ≠ [] → inp.axiDmaResI.wReady = true
  bValid : trace.2.answering ≠ [] → inp.axiDmaResI.bValid = true

instance : Decidable (trace.Eager inp) :=
  decidable_of_iff (inp.axiDmaResI.arReady = true ∧
    ((trace.2.answering ++ trace.2.awOpen).length < params.lastQueueDepth →
      inp.axiDmaResI.awReady = true) ∧
    (trace.2.arOpened trace.1 inp ≠ [] → inp.axiDmaResI.rValid = true) ∧
    (trace.2.awOpened trace.1 inp ≠ [] → inp.axiDmaResI.wReady = true) ∧
    (trace.2.answering ≠ [] → inp.axiDmaResI.bValid = true))
    ⟨fun h => ⟨h.1, h.2.1, h.2.2.1, h.2.2.2.1, h.2.2.2.2⟩,
      fun h => ⟨h.arReady, h.awReady, h.rValid, h.wReady, h.bValid⟩⟩

/-- Every transfer that was taken is written and reported complete. -/
def Done : Prop :=
  trace.2.written.length = (trace.2.moves params).length ∧ trace.2.completed = trace.2.taken.length

instance : Decidable trace.Done :=
  inferInstanceAs (Decidable (_ ∧ _))

/-- Each transfer has some bytes. -/
def Filled : Prop := trace.1.takes inp = true → inp.burstReqI.numBytes ≠ 0

instance : Decidable (trace.Filled inp) := inferInstanceAs (Decidable (_ → _))

/-- A cycle of an eager bus with something left to do. -/
def waits : Bool := decide (trace.Eager inp) && !decide trace.Done

end

variable {trace : AxiDmaTrace params} {inp : AxiDmaBackendIn}

/-! ## Transfers that are not complete -/

theorem countP_range_last (count : Nat) :
    ((List.range count).countP fun i => decide (i + 1 = count)) = (decide (count ≠ 0)).toNat := by
  cases count with
  | zero => rfl
  | succ count =>
    have before : (List.range count).countP (fun i => decide (i + 1 = count + 1)) = 0 := by
      rw [List.countP_eq_zero]
      intro i member
      have below := List.mem_range.mp member
      simp only [decide_eq_true_eq]
      omega
    rw [List.range_succ, List.countP_append, before]
    simp

theorem countP_dstRest (burst : BurstDecoupled) :
    (burst.dstRest params).countP Prod.snd = (decide (burst.dst.numBytes ≠ 0)).toNat := by
  rw [BurstDecoupled.dstRest, BurstChan.rest, List.countP_map]
  exact countP_range_last _

/-- The transfers that have bytes. -/
def filled (reqs : List BurstReq) : List BurstReq := reqs.filter fun req => decide (req.numBytes ≠ 0)

theorem filled_eq {reqs : List BurstReq} (some : ∀ req ∈ reqs, req.numBytes ≠ 0) :
    filled reqs = reqs :=
  List.filter_eq_self.mpr fun req member => decide_eq_true (some req member)

theorem countP_flatMap_moves (reqs : List BurstReq) :
    (reqs.flatMap (BurstReq.moves params)).countP Move.last = (filled reqs).length := by
  induction reqs with
  | nil => rfl
  | cons req reqs inductionHypothesis =>
    have own : (req.moves params).countP Move.last = (decide (req.numBytes ≠ 0)).toNat := by
      rw [BurstReq.moves, List.countP_map]
      exact countP_range_last _
    rw [List.flatMap_cons, List.countP_append, own, inductionHypothesis, filled, filled]
    by_cases none : req.numBytes = 0
    · rw [List.filter_cons_of_neg (by simp [none])]
      simp [none]
    · rw [List.filter_cons_of_pos (by simp [none]), decide_eq_true none, List.length_cons, Bool.toNat_true,
        Nat.add_comm]

/-- Transfers with bytes are complete, acknowledged next, or on their way. -/
theorem Copies.length_filled {written held left : List Move} {bytes : List (Nat × BitVec 8)}
    (copies : trace.Copies written held left bytes) : (filled trace.2.taken).length =
      trace.2.completed + trace.2.answering.countP DescAx.last +
        (restOf (WriteReq.beat params) WriteReq.len trace.writes trace.2.wBeat).countP Prod.snd +
        (decide (trace.1.burst.dst.numBytes ≠ 0)).toNat +
        (filled trace.1.burstRequestFifo.contents).length := by
  have all : (trace.2.taken.flatMap (BurstReq.moves params)).countP Move.last =
      (filled trace.2.taken).length := countP_flatMap_moves trace.2.taken
  have split : trace.2.taken.flatMap (BurstReq.moves params) = written ++ (held ++ left) := by
    rw [← List.append_assoc]
    exact copies.moves
  have toWrite := congrArg (List.countP Prod.snd) copies.toWrite
  rw [List.countP_map] at toWrite
  have lasts : (held ++ left).countP (Prod.snd ∘ Move.toWrite) = (held ++ left).countP Move.last := rfl
  rw [lasts, writeRest, List.countP_append, List.countP_append, countP_dstRest, ← List.map_flatMap,
    List.countP_map] at toWrite
  have queued : (trace.1.burstRequestFifo.contents.flatMap (BurstReq.moves params)).countP
      (Prod.snd ∘ Move.toWrite) = (filled trace.1.burstRequestFifo.contents).length :=
    countP_flatMap_moves _
  rw [queued] at toWrite
  have completed := copies.completed
  rw [split, List.countP_append] at all
  omega

/-- A burst ends at most one transfer. -/
theorem countP_fromBeat_le {req : WriteReq} (sound : req.Sound params) (beat : Nat) :
    (fromBeat (WriteReq.beat params) WriteReq.len req beat).countP Prod.snd ≤ 1 := by
  obtain ⟨count, spans⟩ := sound.spans
  induction left : req.len + 1 - beat generalizing beat with
  | zero =>
    rw [fromBeat, List.Ico.eq_nil_of_le (by omega)]
    exact Nat.zero_le 1
  | succ left inductionHypothesis =>
    have before : beat ≤ req.len := by omega
    have later := inductionHypothesis (beat + 1) (by omega)
    rw [fromBeat_cons before, List.countP_append, WriteReq.beat, spans.countP_beat before]
    by_cases ends : beat = req.len
    · -- nothing comes behind the last beat
      rw [fromBeat, ends, List.Ico.self_empty, List.flatMap_nil, List.countP_nil]
      exact Bool.toNat_le _
    · have notLast : (beat == req.aw.len) = false := beq_eq_false_iff_ne.mpr ends
      rw [notLast, Bool.and_false, Bool.toNat_false, Nat.zero_add]
      exact later

theorem countP_flatMap_le {α β : Type*} {f : α → List β} {p : β → Bool} {entries : List α}
    (each : ∀ entry ∈ entries, (f entry).countP p ≤ 1) :
    (entries.flatMap f).countP p ≤ entries.length := by
  induction entries with
  | nil => exact Nat.zero_le _
  | cons entry entries inductionHypothesis =>
    have first := each entry List.mem_cons_self
    have rest := inductionHypothesis fun entry member => each entry (List.mem_cons_of_mem _ member)
    rw [List.flatMap_cons, List.countP_append, List.length_cons]
    omega

theorem Writing.countP_rest_le (writing : trace.Writing) :
    (restOf (WriteReq.beat params) WriteReq.len trace.writes trace.2.wBeat).countP Prod.snd ≤
      trace.writes.length := by
  have sound := writing.sound
  revert sound
  cases trace.writes with
  | nil => exact fun _ => Nat.zero_le _
  | cons req rest =>
    intro sound
    have others : (rest.flatMap (fromBeat (WriteReq.beat params) WriteReq.len · 0)).countP Prod.snd ≤
        rest.length := countP_flatMap_le fun burst inRest =>
      countP_fromBeat_le (sound burst (List.mem_cons_of_mem _ inRest)) 0
    have first := countP_fromBeat_le (sound req List.mem_cons_self) trace.2.wBeat
    rw [restOf, List.countP_append, List.length_cons]
    omega

/-- The invariant of a backend that gets only transfers with some bytes: a transfer is in flight only if
    one was started that is not complete. -/
structure LiveInv (trace : AxiDmaTrace params) : Prop where
  bus : trace.BusInv
  queued : ∀ req ∈ trace.1.burstRequestFifo.contents, req.numBytes ≠ 0
  taken : ∀ req ∈ trace.2.taken, req.numBytes ≠ 0
  inFlight : trace.1.inFlightQ = true →
    trace.2.completed + trace.1.burstRequestFifo.contents.length < trace.2.taken.length

/-- If each transfer has bytes, each one is complete, acknowledged next or on its way. -/
theorem LiveInv.length_taken (live : trace.LiveInv) : trace.2.taken.length =
    trace.2.completed + trace.2.answering.countP DescAx.last +
      (restOf (WriteReq.beat params) WriteReq.len trace.writes trace.2.wBeat).countP Prod.snd +
      (decide (trace.1.burst.dst.numBytes ≠ 0)).toNat +
      trace.1.burstRequestFifo.contents.length := by
  obtain ⟨written, held, left, bytes, copies⟩ := live.bus.inv.copies
  have total := copies.length_filled
  rwa [filled_eq live.taken, filled_eq live.queued] at total

theorem LiveInv.reset : (axiDmaTrace params).reset.LiveInv where
  bus := .reset
  queued _ member := by cases member
  taken _ member := by cases member
  inFlight set := by cases set

/-- What waits after a cycle waited before, or is taken. -/
theorem mem_fifo_step {req : BurstReq} (member : req ∈ (trace.step inp).1.burstRequestFifo.contents) :
    req ∈ trace.1.burstRequestFifo.contents ∨ (trace.1.takes inp = true ∧ req = inp.burstReqI) := by
  have passes := fifo_passes trace inp fun req => [req]
  rw [Passes, List.flatMap_singleton', List.flatMap_singleton'] at passes
  have later : req ∈ trace.1.burstRequestFifo.contents ++
      if trace.1.takes inp then [inp.burstReqI] else [] := by
    rw [passes]
    exact List.mem_append_right _ member
  rcases List.mem_append.mp later with before | joins
  · exact .inl before
  · cases takes : trace.1.takes inp with
    | false => simp [takes] at joins
    | true => exact .inr ⟨rfl, by simpa [takes] using joins⟩

theorem LiveInv.step (live : trace.LiveInv) (permits : trace.Permits inp) (filled : trace.Filled inp)
    (several : 1 < params.axReqFifoDepth) : (trace.step inp).LiveInv := by
  have bus := live.bus.step permits several
  have queued : ∀ req ∈ (trace.step inp).1.burstRequestFifo.contents, req.numBytes ≠ 0 := by
    intro req member
    rcases mem_fifo_step member with before | ⟨takes, rfl⟩
    · exact live.queued req before
    · exact filled takes
  have taken : ∀ req ∈ (trace.step inp).2.taken, req.numBytes ≠ 0 := by
    intro req member
    rcases List.mem_append.mp member with before | joins
    · exact live.taken req before
    · cases takes : trace.1.takes inp with
      | false => simp [takes] at joins
      | true =>
        obtain rfl : req = inp.burstReqI := by simpa [takes] using joins
        exact filled takes
  refine ⟨bus, queued, taken, fun set => ?_⟩
  have set : trace.1.inFlightD inp = true := set
  have waits := length_fifo_step trace inp
  rw [AxiDmaBackend.inFlightD] at set
  cases pop : trace.1.burstReqPop inp with
  | true =>
    -- the transfer that is started is not written yet
    obtain ⟨written, held, left, bytes, copies⟩ := bus.inv.copies
    have total := copies.length_filled
    rw [filled_eq queued, filled_eq taken] at total
    have started : (trace.step inp).1.burst.dst.numBytes = trace.1.burstReq.numBytes := by
      have refilled : (trace.step inp).1.burst =
          BurstDecoupled.refill params trace.1.burstReq (trace.1.burstValid inp) :=
        BurstDecoupled.step_of_ready pop
      rw [refilled]
      rfl
    have some : trace.1.burstReq.numBytes ≠ 0 := by
      obtain ⟨front, rest, isFront⟩ := List.exists_cons_of_ne_nil (some_of_burstReqPop pop)
      have head : trace.1.burstReq = front := FifoV3.dataO_eq_head isFront
      exact live.queued _ (by rw [isFront, head]; exact List.mem_cons_self)
    rw [started, decide_eq_true some] at total
    simp only [Bool.toNat_true] at total
    omega
  | false =>
    rw [pop, Bool.false_and, if_neg Bool.false_ne_true] at set
    cases complete : trace.1.transCompleteO inp with
    | true => simp [complete] at set
    | false =>
      rw [complete, if_neg Bool.false_ne_true] at set
      have before := live.inFlight set
      have completed : (trace.step inp).2.completed = trace.2.completed := by
        show trace.2.completed + (trace.1.transCompleteO inp).toNat = _
        rw [complete]
        rfl
      have joins : (trace.step inp).2.taken.length =
          trace.2.taken.length + (trace.1.takes inp).toNat := by
        show (trace.2.taken ++ if trace.1.takes inp then [inp.burstReqI] else []).length = _
        cases trace.1.takes inp <;> simp
      rw [pop, Bool.toNat_false] at waits
      rw [completed, joins]
      omega

/-! ## Lanes -/

/-- The data path looks at the first write burst. -/
theorem desc_of_first {req : WriteReq} {rest : List WriteReq} (first : trace.writes = req :: rest) :
    (trace.1.pathIn inp).w = req.w := by
  obtain ⟨aw, addrs, w, descs, -, isDesc, rfl, -⟩ := List.zipWith_eq_cons_iff.mp first
  exact FifoV3.dataO_eq_head isDesc

section

variable {written held left : List Move} {bytes : List (Nat × BitVec 8)} {req : WriteReq}
  {rest : List WriteReq}

/-- The next beat is the first of what is held and left. -/
theorem Copies.beat_prefix (copies : trace.Copies written held left bytes) (writing : trace.Writing)
    (first : trace.writes = req :: rest) :
    req.beat params trace.2.wBeat <+: (held ++ left).map Move.toWrite := by
  have before := writing.place.before req (by rw [first]; rfl)
  rw [← copies.toWrite, writeRest, first, restOf_beat before, List.append_assoc]
  exact List.prefix_append _ _

theorem Copies.lanes_toWrite (copies : trace.Copies written held left bytes) :
    (held.map Move.toWrite).map (fun entry => entry.1 % params.strbWidth) = bytes.map Prod.fst := by
  rw [copies.lanes, List.map_map]
  rfl

/-- A word that is held in full is ready. -/
theorem Copies.held_lt (copies : trace.Copies written held left bytes) (writing : trace.Writing)
    (first : trace.writes = req :: rest)
    (notReady : trace.1.path.readyToWrite (trace.1.pathIn inp) = false) :
    held.length < (req.beat params trace.2.wBeat).length := by
  by_contra enough
  rw [Nat.not_lt] at enough
  have sound := writing.sound req (by rw [first]; exact List.mem_cons_self)
  have desc : (trace.1.pathIn inp).w = req.w := desc_of_first first
  have counts : trace.1.path.Counts (trace.1.pathIn inp).w req.len trace.2.wBeat :=
    writing.counts (by rw [first]; rfl) desc
  have front : req.beat params trace.2.wBeat <+: held.map Move.toWrite := by
    have whole := copies.beat_prefix writing first
    rw [List.map_append] at whole
    refine List.prefix_of_prefix_length_le whole (List.prefix_append _ _) ?_
    rwa [List.length_map]
  have lanes := front.map fun entry => entry.1 % params.strbWidth
  rw [WriteReq.map_beat sound, copies.lanes_toWrite] at lanes
  obtain ⟨count, spans⟩ := sound.spans
  have some : 0 < (req.beat params trace.2.wBeat).length :=
    spans.length_beat_pos Prod.mk counts.before
  have lengths := congrArg List.length (WriteReq.map_beat sound trace.2.wBeat)
  rw [List.length_map] at lengths
  have ready : trace.1.path.readyToWrite (trace.1.pathIn inp) = true := by
    refine counts.readyToWrite_of_filled ?_ fun lane member => ?_
    · rw [desc]
      exact List.exists_mem_of_length_pos (lengths ▸ some)
    · rw [desc] at member
      exact (AxiDmaDataPath.emptyO_iff copies.holds (mem_beatLanes.mp member).1).mpr
        (ofKey_ne_nil (lanes.subset member))
  rw [ready] at notReady
  cases notReady

/-- Less than a word fills no lane. -/
theorem Copies.notFull_of_lt (copies : trace.Copies written held left bytes) (writing : trace.Writing)
    (first : trace.writes = req :: rest) (few : held.length < (req.beat params trace.2.wBeat).length)
    (deep : 1 < params.bufferDepth) {lane : Nat} (inside : lane < params.strbWidth) :
    (trace.1.path.buffer lane).fullO = false := by
  have sound := writing.sound req (by rw [first]; exact List.mem_cons_self)
  have part : held.map Move.toWrite <+: req.beat params trace.2.wBeat := by
    have whole := copies.beat_prefix writing first
    rw [List.map_append] at whole
    refine List.prefix_of_prefix_length_le (List.prefix_append _ _) whole ?_
    rw [List.length_map]
    exact Nat.le_of_lt few
  have lanes := part.map fun entry => entry.1 % params.strbWidth
  rw [WriteReq.map_beat sound, copies.lanes_toWrite] at lanes
  have single := length_ofKey_le (lanes.sublist.nodup nodup_beatLanes) lane
  rw [FifoV3.fullO_eq_false, copies.holds lane inside]
  exact Nat.lt_of_le_of_lt single deep

end

/-! ## Nothing is stuck -/

section

variable (live : trace.LiveInv) (permits : trace.Permits inp) (eager : trace.Eager inp)
  (still : trace.acts inp = false)

theorem still_iff : trace.acts inp = false ↔ trace.1.burstReqPop inp = false ∧
    trace.1.burst.rPush (trace.1.reshaperIn inp) = false ∧
    trace.1.burst.wPush (trace.1.reshaperIn inp) = false ∧ trace.1.arPop inp = false ∧
    trace.1.awPop inp = false ∧ trace.1.rTakes inp = false ∧ trace.1.wGives inp = false ∧
    inp.axiDmaResI.bValid = false := by
  simp only [acts, Bool.or_eq_false_iff, and_assoc]

include eager still

theorem answering_of_still : trace.2.answering = [] := by
  obtain ⟨-, -, -, -, -, -, -, valid⟩ := still_iff.mp still
  by_contra some
  rw [eager.bValid some] at valid
  cases valid

theorem ar_of_still : trace.1.mover.arEmitter.contents = [] := by
  obtain ⟨-, -, -, pop, -⟩ := still_iff.mp still
  have pop : (inp.axiDmaResI.arReady && !trace.1.mover.arEmitter.emptyO) = false := pop
  rwa [eager.arReady, Bool.true_and, Bool.not_eq_false', FifoV3.emptyO_eq_true] at pop

include live

/-- The queue of last bursts always has room for one more. -/
theorem aw_of_still : trace.1.mover.awEmitter.contents = [] := by
  obtain ⟨-, -, -, -, pop, -⟩ := still_iff.mp still
  have pop : (inp.axiDmaResI.awReady && !trace.1.mover.awEmitter.emptyO) = false := pop
  have paired := live.bus.inv.writing.paired
  have few := trace.1.mover.wEmitter.length_contents_le
  rw [List.length_append] at paired
  have room : (trace.2.answering ++ trace.2.awOpen).length < params.lastQueueDepth := by
    rw [answering_of_still eager still, List.nil_append, AxiDmaParams.lastQueueDepth]
    omega
  rwa [eager.awReady room, Bool.true_and, Bool.not_eq_false', FifoV3.emptyO_eq_true] at pop

theorem notReady_of_still (some : trace.writes ≠ []) :
    trace.1.path.readyToWrite (trace.1.pathIn inp) = false := by
  obtain ⟨-, -, -, -, -, -, gives, -⟩ := still_iff.mp still
  have opened : trace.2.awOpened trace.1 inp ≠ [] := by
    intro none
    refine some ?_
    rw [writes, (List.append_eq_nil_iff.mp none).1, aw_of_still live eager still]
    rfl
  have ready : (trace.1.pathIn inp).wReadyI = true := eager.wReady opened
  rwa [AxiDmaBackend.wGives, AxiDmaDataPath.writeHappening, ready, Bool.and_true] at gives

/-- Reads wait only for a lane that is full, and none is. -/
theorem reads_of_still (deep : 1 < params.bufferDepth) : trace.reads = [] := by
  by_contra some
  obtain ⟨-, -, -, -, -, takes, -, -⟩ := still_iff.mp still
  have opened : trace.2.arOpened trace.1 inp ≠ [] := by
    intro none
    refine some ?_
    rw [reads, (List.append_eq_nil_iff.mp none).1, ar_of_still eager still]
    rfl
  have valid : (trace.1.pathIn inp).rValidI = true := eager.rValid opened
  rw [AxiDmaBackend.rTakes, AxiDmaDataPath.push, valid, Bool.true_and, Bool.not_eq_false',
    AxiDmaDataPath.full, List.any_eq_true] at takes
  obtain ⟨lane, member, full⟩ := takes
  rw [Bool.and_eq_true] at full
  have inside := List.mem_range.mp member
  obtain ⟨written, held, left, bytes, copies⟩ := live.bus.inv.copies
  have busy : trace.writes ≠ [] := by
    intro none
    have noDesc : trace.1.mover.wEmitter.contents = [] := by
      have paired := live.bus.inv.writing.paired
      have addresses := map_writes paired
      rw [none, List.map_nil] at addresses
      rw [← addresses] at paired
      exact List.eq_nil_of_length_eq_zero paired.symm
    have few := live.bus.noStray noDesc
    have data := congrArg List.length copies.data
    simp only [List.length_map, List.length_append] at data
    have empty : bytes = [] := List.eq_nil_of_length_eq_zero (by omega)
    have filled := FifoV3.fullO_eq_true.mp full.1
    rw [copies.holds lane inside, empty, ofKey_nil, List.length_nil] at filled
    omega
  obtain ⟨req, rest, first⟩ := List.exists_cons_of_ne_nil busy
  have few := copies.held_lt live.bus.inv.writing first (notReady_of_still live eager still busy)
  have notFull := copies.notFull_of_lt live.bus.inv.writing first few deep inside
  rw [full.1] at notFull
  cases notFull

omit eager still in
/-- The reshaper may send read bursts. -/
theorem rReadyO_of_none (none : trace.reads = []) : trace.1.mover.rReadyO = true := by
  have paired := live.bus.inv.reading.paired
  have addresses := map_reads paired
  rw [none, List.map_nil] at addresses
  rw [← addresses] at paired
  have noDesc : trace.1.mover.rEmitter.contents = [] := List.eq_nil_of_length_eq_zero paired.symm
  have noAddr := (List.append_eq_nil_iff.mp addresses.symm).2
  have positive := params.axReqFifoDepth_pos
  have notFull : trace.1.mover.arEmitter.fullO = false := by
    rw [FifoV3.fullO_eq_false, noAddr]
    exact positive
  have notFull' : trace.1.mover.rEmitter.fullO = false := by
    rw [FifoV3.fullO_eq_false, noDesc]
    exact positive
  rw [AxiDmaDataMover.rReadyO, notFull, notFull']
  rfl

omit eager still in
theorem wReadyO_of_none (none : trace.writes = []) : trace.1.mover.wReadyO = true := by
  have paired := live.bus.inv.writing.paired
  have addresses := map_writes paired
  rw [none, List.map_nil] at addresses
  rw [← addresses] at paired
  have noDesc : trace.1.mover.wEmitter.contents = [] := List.eq_nil_of_length_eq_zero paired.symm
  have noAddr := (List.append_eq_nil_iff.mp addresses.symm).2
  have positive := params.axReqFifoDepth_pos
  have notFull : trace.1.mover.awEmitter.fullO = false := by
    rw [FifoV3.fullO_eq_false, noAddr]
    exact positive
  have notFull' : trace.1.mover.wEmitter.fullO = false := by
    rw [FifoV3.fullO_eq_false, noDesc]
    exact positive
  rw [AxiDmaDataMover.wReadyO, notFull, notFull']
  rfl

/-- Data is missing only if the read channel is behind, and then it can send. -/
theorem writes_of_still (deep : 1 < params.bufferDepth) : trace.writes = [] := by
  by_contra busy
  obtain ⟨-, push, -⟩ := still_iff.mp still
  obtain ⟨req, rest, first⟩ := List.exists_cons_of_ne_nil busy
  obtain ⟨written, held, left, bytes, copies⟩ := live.bus.inv.copies
  have few := copies.held_lt live.bus.inv.writing first (notReady_of_still live eager still busy)
  have noReads := reads_of_still live eager still deep
  have balance := live.bus.inv.balance
  have before := live.bus.inv.writing.place.before req (by rw [first]; rfl)
  have data := congrArg List.length copies.data
  have lanes := congrArg List.length copies.lanes
  simp only [List.length_map, List.length_append] at data lanes
  rw [noReads, first, restOf_nil, restOf_beat before, List.length_append, List.length_nil] at balance
  have behind : trace.1.burst.dst.numBytes < trace.1.burst.src.numBytes := by omega
  have decoupled : trace.1.burst.decoupleRw = true := by
    by_contra coupled
    rw [Bool.not_eq_true] at coupled
    have even := live.bus.inv.burst.coupled coupled
    omega
  have some : trace.1.burst.src.numBytes ≠ 0 := by omega
  have ready : (trace.1.reshaperIn inp).rReadyI = true := rReadyO_of_none live noReads
  rw [BurstDecoupled.rPush, BurstDecoupled.rValidO, decoupled, if_pos rfl,
    live.bus.inv.burst.src.valid, decide_eq_true some, ready] at push
  cases push

theorem channels_of_still (deep : 1 < params.bufferDepth) :
    trace.1.burst.src.numBytes = 0 ∧ trace.1.burst.dst.numBytes = 0 := by
  obtain ⟨-, rPush, wPush, -⟩ := still_iff.mp still
  have rReady : (trace.1.reshaperIn inp).rReadyI = true :=
    rReadyO_of_none live (reads_of_still live eager still deep)
  have wReady : (trace.1.reshaperIn inp).wReadyI = true :=
    wReadyO_of_none live (writes_of_still live eager still deep)
  rw [BurstDecoupled.rPush, BurstDecoupled.rValidO, rReady, wReady, Bool.and_true, Bool.and_true,
    ite_self, live.bus.inv.burst.src.valid, decide_eq_false_iff_not, not_not] at rPush
  rw [BurstDecoupled.wPush, BurstDecoupled.wValidO, rReady, wReady, Bool.and_true, Bool.and_true,
    ite_self, live.bus.inv.burst.dst.valid, decide_eq_false_iff_not, not_not] at wPush
  exact ⟨rPush, wPush⟩

/-- A transfer waits only for one in flight, and none is. -/
theorem fifo_of_still (deep : 1 < params.bufferDepth) :
    trace.1.burstRequestFifo.contents = [] := by
  by_contra some
  obtain ⟨pop, -⟩ := still_iff.mp still
  obtain ⟨noSrc, noDst⟩ := channels_of_still live eager still deep
  have noWrites := writes_of_still live eager still deep
  have rReady : (trace.1.reshaperIn inp).rReadyI = true :=
    rReadyO_of_none live (reads_of_still live eager still deep)
  have wReady : (trace.1.reshaperIn inp).wReadyI = true := wReadyO_of_none live noWrites
  have waits : trace.1.burstValid inp = false := by
    have valid : (trace.1.reshaperIn inp).validI = trace.1.burstValid inp := rfl
    by_contra starts
    rw [Bool.not_eq_false] at starts
    have pops : trace.1.burstReqPop inp = true := BurstDecoupled.readyO_eq_true.mpr
      ⟨by simp [BurstDecoupled.rFinish, BurstChan.finish, noSrc],
        by simp [BurstDecoupled.wFinish, BurstChan.finish, noDst], valid.trans starts, rReady, wReady⟩
    rw [pops] at pop
    cases pop
  have full : trace.1.burstReqEmpty = false := FifoV3.emptyO_eq_false.mpr some
  have inFlight : trace.1.inFlightQ = true := by
    rw [AxiDmaBackend.burstValid, full] at waits
    split at waits
    · by_contra idle
      rw [Bool.not_eq_true] at idle
      simp [idle] at waits
    · cases waits
  have before := live.inFlight inFlight
  have total := live.length_taken
  rw [noWrites, noDst, answering_of_still eager still] at total
  simp only [restOf_nil, List.countP_nil, ne_eq, not_true_eq_false, decide_false,
    Bool.toNat_false] at total
  omega

theorem done_of_still (deep : 1 < params.bufferDepth) : trace.Done := by
  obtain ⟨-, noDst⟩ := channels_of_still live eager still deep
  have noWrites := writes_of_still live eager still deep
  have noFifo := fifo_of_still live eager still deep
  have total := live.length_taken
  have lengths := live.bus.inv.lengths.2
  rw [writeRest, noWrites, noFifo, BurstDecoupled.dstRest, BurstDecoupled.rest_of_none noDst] at lengths
  rw [noWrites, noDst, noFifo, answering_of_still eager still] at total
  simp only [restOf_nil, List.countP_nil, ne_eq, not_true_eq_false, decide_false, Bool.toNat_false,
    List.length_nil] at total
  exact ⟨lengths, total.symm⟩

end

/-- A cycle of an eager bus takes something off the work unless all is done. -/
theorem LiveInv.pays (live : trace.LiveInv) (permits : trace.Permits inp)
    (deep : 1 < params.bufferDepth) :
    (trace.waits inp).toNat + (trace.step inp).work + trace.given ≤
      trace.work + (trace.step inp).given := by
  have work := live.bus.inv.work_step permits
  have acts : (trace.waits inp).toNat ≤ (trace.acts inp).toNat := by
    cases acts : trace.acts inp with
    | true => exact Bool.toNat_le _
    | false =>
      by_cases eager : trace.Eager inp
      · have done := done_of_still live eager acts deep
        simp [waits, done]
      · simp [waits, eager]
  omega

/-! ## A bus that is eager -/

variable (trace) in
/-- What the eager bus drives before it looks at the bursts under way. -/
def eagerReady : AxiDmaRes :=
  { AxiDmaRes.quiet with
    arReady := true
    awReady := decide ((trace.2.answering ++ trace.2.awOpen).length < params.lastQueueDepth) }

variable (trace) in
/-- A cycle of an eager bus in which no transfer is offered. -/
def eagerIn : AxiDmaBackendIn :=
  let opened := trace.2.arOpened trace.1 (.bus trace.eagerReady)
  .bus { trace.eagerReady with
    rValid := !opened.isEmpty
    rLast := trace.2.rBeat == (opened.headD default).len
    wReady := !(trace.2.awOpened trace.1 (.bus trace.eagerReady)).isEmpty
    bValid := !trace.2.answering.isEmpty }

theorem not_isEmpty {α : Type*} {entries : List α} : (!entries.isEmpty) = true ↔ entries ≠ [] := by
  cases entries <;> simp

theorem permits_eagerIn (trace : AxiDmaTrace params) : trace.Permits trace.eagerIn where
  fits takes := by cases takes
  reads valid := not_isEmpty.mp valid
  rLast _ := rfl
  writes gives := by
    rw [AxiDmaBackend.wGives, AxiDmaDataPath.writeHappening, Bool.and_eq_true] at gives
    exact not_isEmpty.mp gives.2
  answers valid := not_isEmpty.mp valid
  room pop := by
    rw [AxiDmaBackend.awPop, AxiDmaDataMover.awEmitterPop, Bool.and_eq_true] at pop
    exact of_decide_eq_true pop.1

theorem eager_eagerIn (trace : AxiDmaTrace params) : trace.Eager trace.eagerIn where
  arReady := rfl
  awReady room := decide_eq_true room
  rValid some := not_isEmpty.mpr some
  wReady some := not_isEmpty.mpr some
  bValid some := not_isEmpty.mpr some

/-- What the environment does while the backend gets only transfers with some bytes. -/
def Allows (trace : AxiDmaTrace params) (inp : AxiDmaBackendIn) : Prop :=
  trace.Permits inp ∧ trace.Filled inp

instance (trace : AxiDmaTrace params) (inp : AxiDmaBackendIn) : Decidable (trace.Allows inp) :=
  inferInstanceAs (Decidable (_ ∧ _))

theorem LiveInv.exists_done (live : trace.LiveInv) (several : 1 < params.axReqFifoDepth)
    (deep : 1 < params.bufferDepth) : ∃ more, (axiDmaTrace params).AdmitsFrom Allows trace more ∧
      ((axiDmaTrace params).runFrom trace more).Done ∧
      ((axiDmaTrace params).runFrom trace more).2.taken = trace.2.taken ∧ more.length ≤ trace.work := by
  induction left : trace.work using Nat.strongRecOn generalizing trace with
  | ind left inductionHypothesis =>
    by_cases done : trace.Done
    · exact ⟨[], trivial, done, rfl, Nat.zero_le _⟩
    · have permits := permits_eagerIn trace
      have filled : trace.Filled trace.eagerIn := fun takes => by cases takes
      have pays := live.pays permits deep
      have waits : trace.waits trace.eagerIn = true := by
        simp [AxiDmaTrace.waits, eager_eagerIn trace, done]
      have taken : (trace.step trace.eagerIn).2.taken = trace.2.taken := List.append_nil _
      rw [waits, Bool.toNat_true, given, given, taken] at pays
      obtain ⟨more, admitted, ends, same, short⟩ := inductionHypothesis
        (trace.step trace.eagerIn).work (by omega) (live.step permits filled several) rfl
      refine ⟨trace.eagerIn :: more, ⟨⟨permits, filled⟩, admitted⟩, ends, same.trans taken, ?_⟩
      rw [List.length_cons]
      omega

theorem live_of_admits {inputs : List AxiDmaBackendIn} (several : 1 < params.axReqFifoDepth)
    (admitted : (axiDmaTrace params).Admits Allows inputs) :
    ((axiDmaTrace params).run inputs).LiveInv :=
  admitted.invariant LiveInv .reset fun _ _ live allows => live.step allows.1 allows.2 several

end AxiDmaTrace

/-- However the bus mixes cycles in which it is eager with others, no more of its eager cycles meet a
    backend that is not done than the transfers are worth: one for each, and seven for each byte. -/
theorem axiDmaBackend_finishes (params : AxiDmaParams) (several : 1 < params.axReqFifoDepth)
    (deep : 1 < params.bufferDepth) (inputs : List AxiDmaBackendIn)
    (admitted : (axiDmaTrace params).Admits AxiDmaTrace.Allows inputs) :
    (axiDmaTrace params).count AxiDmaTrace.waits inputs ≤
      (((axiDmaTrace params).run inputs).2.taken.map fun req => 1 + 7 * req.numBytes).sum :=
  admitted.count_le AxiDmaTrace.LiveInv AxiDmaTrace.work AxiDmaTrace.given .reset rfl
    (fun _ _ live allows => live.step allows.1 allows.2 several)
    fun _ _ live allows => live.pays allows.1 deep

/-- The next cycles of an eager bus. -/
def eagerInputs {params : AxiDmaParams} : Nat → AxiDmaTrace params → List AxiDmaBackendIn
  | 0, _ => []
  | cycles + 1, trace => trace.eagerIn :: eagerInputs cycles (trace.step trace.eagerIn)

/-- A transfer of three bytes, and then an eager bus. -/
def eagerRun : List AxiDmaBackendIn :=
  let start : AxiDmaBackendIn :=
    { burstReqI := copyReq 1 2 3, validI := true, axiDmaResI := .quiet }
  start :: eagerInputs 8 ((axiDmaTrace smallDma).run [start])

theorem axiDmaBackend_finishes_three :
    (axiDmaTrace smallDma).count AxiDmaTrace.waits eagerRun ≤
        (((axiDmaTrace smallDma).run eagerRun).2.taken.map fun req => 1 + 7 * req.numBytes).sum ∧
      (axiDmaTrace smallDma).count AxiDmaTrace.waits eagerRun = 7 ∧
      ((axiDmaTrace smallDma).run eagerRun).Done :=
  ⟨axiDmaBackend_finishes smallDma (by decide) (by decide) eagerRun (by decide +kernel),
    by decide +kernel, by decide +kernel⟩

/-- Nothing the bus has done can keep a backend from finishing. -/
theorem axiDmaBackend_canFinish (params : AxiDmaParams) (several : 1 < params.axReqFifoDepth)
    (deep : 1 < params.bufferDepth) (inputs : List AxiDmaBackendIn)
    (admitted : (axiDmaTrace params).Admits AxiDmaTrace.Allows inputs) :
    ∃ more, (axiDmaTrace params).AdmitsFrom AxiDmaTrace.Allows ((axiDmaTrace params).run inputs) more ∧
      ((axiDmaTrace params).runFrom ((axiDmaTrace params).run inputs) more).Done ∧
      ((axiDmaTrace params).runFrom ((axiDmaTrace params).run inputs) more).2.taken =
        ((axiDmaTrace params).run inputs).2.taken := by
  obtain ⟨more, admitted, done, same, -⟩ :=
    (AxiDmaTrace.live_of_admits several admitted).exists_done several deep
  exact ⟨more, admitted, done, same⟩

theorem axiDmaBackend_canFinish_three : ∃ more,
    (axiDmaTrace smallDma).AdmitsFrom AxiDmaTrace.Allows
      ((axiDmaTrace smallDma).run (copyRun.take 5)) more ∧
    ((axiDmaTrace smallDma).runFrom ((axiDmaTrace smallDma).run (copyRun.take 5)) more).Done ∧
    ((axiDmaTrace smallDma).runFrom ((axiDmaTrace smallDma).run (copyRun.take 5)) more).2.taken =
      ((axiDmaTrace smallDma).run (copyRun.take 5)).2.taken :=
  axiDmaBackend_canFinish smallDma (by decide) (by decide) (copyRun.take 5) (by decide +kernel)

end Pspin
