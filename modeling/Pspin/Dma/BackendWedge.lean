import Pspin.Dma.BackendProgress

/-! # A transfer without bytes

A transfer without bytes is taken as any other one, so it is in flight from then on, but no write burst
of it will ever be acknowledged.  A serialized transfer behind it waits for the end of the transfer in
flight, and if there is nothing else under way it waits for ever.
-/

namespace Pspin

open Clocked

namespace AxiDmaTrace

variable {params : AxiDmaParams}

/-- Nothing is under way behind the FIFO of transfers. -/
structure Idle (trace : AxiDmaTrace params) : Prop where
  src : trace.1.burst.src.numBytes = 0
  dst : trace.1.burst.dst.numBytes = 0
  reads : trace.reads = []
  writes : trace.writes = []
  answering : trace.2.answering = []

variable {trace : AxiDmaTrace params} {inp : AxiDmaBackendIn}

namespace Idle

variable (idle : trace.Idle) (inv : trace.Inv)

include idle inv

/-- The bus has nothing to answer. -/
theorem bus_idle (permits : trace.Permits inp) : inp.axiDmaResI.bValid = false ∧
    trace.1.rTakes inp = false ∧ trace.1.wGives inp = false := by
  have ars := map_reads inv.reading.paired
  have aws := map_writes inv.writing.paired
  rw [idle.reads, List.map_nil] at ars
  rw [idle.writes, List.map_nil] at aws
  obtain ⟨arOpen, noAr⟩ := List.append_eq_nil_iff.mp ars.symm
  obtain ⟨awOpen, noAw⟩ := List.append_eq_nil_iff.mp aws.symm
  have arOpened : trace.2.arOpened trace.1 inp = [] := by
    rw [AxiDmaHistory.arOpened, arOpen, noAr]
    exact ite_self _
  have awOpened : trace.2.awOpened trace.1 inp = [] := by
    rw [AxiDmaHistory.awOpened, awOpen, noAw]
    exact ite_self _
  refine ⟨?_, ?_, ?_⟩ <;> rw [Bool.eq_false_iff]
  · exact fun valid => permits.answers valid idle.answering
  · intro takes
    rw [AxiDmaBackend.rTakes, AxiDmaDataPath.push, Bool.and_eq_true] at takes
    exact permits.reads takes.1 arOpened
  · exact fun gives => permits.writes gives awOpened

theorem transCompleteO_eq (permits : trace.Permits inp) : trace.1.transCompleteO inp = false := by
  rw [AxiDmaBackend.transCompleteO, AxiDmaDataMover.transCompleteO, (idle.bus_idle inv permits).1,
    Bool.and_false]

theorem pushes_eq (inp : AxiDmaBackendIn) : trace.1.burst.rPush (trace.1.reshaperIn inp) = false ∧
    trace.1.burst.wPush (trace.1.reshaperIn inp) = false := by
  refine ⟨?_, ?_⟩ <;> rw [Bool.eq_false_iff]
  · exact fun push => BurstDecoupled.some_of_rPush inv.burst push idle.src
  · exact fun push => BurstDecoupled.some_of_wPush inv.burst push idle.dst

/-- The backend stays idle unless it starts a transfer with some bytes. -/
theorem step (permits : trace.Permits inp)
    (empty : trace.1.burstReqPop inp = true → trace.1.burstReq.numBytes = 0) :
    (trace.step inp).Idle := by
  obtain ⟨rIdle, wIdle⟩ := idle.pushes_eq inv inp
  obtain ⟨bIdle, takes, gives⟩ := idle.bus_idle inv permits
  have channels : (trace.step inp).1.burst.src.numBytes = 0 ∧
      (trace.step inp).1.burst.dst.numBytes = 0 := by
    have after : (trace.step inp).1.burst =
        trace.1.burst.step params (trace.1.reshaperIn inp) := rfl
    rw [after]
    cases pop : trace.1.burst.readyO params (trace.1.reshaperIn inp) with
    | true =>
      rw [BurstDecoupled.step_of_ready pop]
      exact ⟨empty pop, empty pop⟩
    | false =>
      refine ⟨?_, ?_⟩
      · rcases BurstDecoupled.src_step_of_idle inv.burst pop rIdle with same | ⟨-, zero⟩
        · rw [same, idle.src]
        · rw [zero]
          rfl
      · rcases BurstDecoupled.dst_step_of_idle inv.burst pop wIdle with same | ⟨-, zero⟩
        · rw [same, idle.dst]
        · rw [zero]
          rfl
  refine ⟨channels.1, channels.2, ?_, ?_, ?_⟩
  · rw [inv.reading.reads_step permits, idle.reads, rIdle, takes]
    rfl
  · rw [inv.writing.writes_step permits, idle.writes, wIdle, gives]
    rfl
  · show (if inp.axiDmaResI.bValid then trace.2.answering.tail else trace.2.answering) ++
      (if trace.1.wGives inp && trace.1.wLast inp then
        (trace.2.awOpened trace.1 inp).head?.toList else []) = []
    rw [bIdle, idle.answering, gives]
    rfl

/-- Nothing is read, written or completed. -/
theorem history_step (permits : trace.Permits inp) :
    (trace.step inp).2.fetched = trace.2.fetched ∧ (trace.step inp).2.written = trace.2.written ∧
      (trace.step inp).2.completed = trace.2.completed := by
  obtain ⟨-, takes, gives⟩ := idle.bus_idle inv permits
  refine ⟨?_, ?_, ?_⟩
  · show trace.2.fetched ++ trace.2.reading trace.1 inp = _
    rw [AxiDmaHistory.reading, takes, if_neg Bool.false_ne_true, List.append_nil]
  · show trace.2.written ++ trace.2.writing trace.1 inp = _
    rw [AxiDmaHistory.writing, gives, if_neg Bool.false_ne_true, List.append_nil]
  · show trace.2.completed + (trace.1.transCompleteO inp).toNat = _
    rw [idle.transCompleteO_eq inv permits]
    rfl

end Idle

/-- The first transfer has no bytes, and the second one is serialized. -/
def EmptyThenSerialized (trace : AxiDmaTrace params) (inp : AxiDmaBackendIn) : Prop :=
  trace.1.takes inp = true →
    (trace.2.taken.length = 0 → inp.burstReqI.numBytes = 0) ∧
      (trace.2.taken.length = 1 → inp.burstReqI.serialize = true)

instance (trace : AxiDmaTrace params) (inp : AxiDmaBackendIn) :
    Decidable (trace.EmptyThenSerialized inp) := inferInstanceAs (Decidable (_ → _))

/-- At most the first transfer has left the FIFO, and if it has, it is taken for being in flight. -/
structure Wedging (trace : AxiDmaTrace params) : Prop where
  inv : trace.Inv
  idle : trace.Idle
  first : ∀ req ∈ trace.2.taken[0]?, req.numBytes = 0
  second : ∀ req ∈ trace.2.taken[1]?, req.serialize = true
  waits : (trace.1.inFlightQ = false ∧ trace.2.taken = trace.1.burstRequestFifo.contents) ∨
    (trace.1.inFlightQ = true ∧
      ∃ req, trace.2.taken = req :: trace.1.burstRequestFifo.contents)
  nothing : trace.2.fetched = [] ∧ trace.2.written = [] ∧ trace.2.completed = 0

theorem Wedging.reset : (axiDmaTrace params).reset.Wedging where
  inv := .reset
  idle := ⟨rfl, rfl, rfl, rfl, rfl⟩
  first _ member := by cases member
  second _ member := by cases member
  waits := .inl ⟨rfl, rfl⟩
  nothing := ⟨rfl, rfl, rfl⟩

/-- The transfer that is started is the first one. -/
theorem Wedging.of_burstReqPop (wedging : trace.Wedging) (permits : trace.Permits inp)
    (pop : trace.1.burstReqPop inp = true) : trace.1.inFlightQ = false ∧
      trace.2.taken = trace.1.burstRequestFifo.contents ∧ trace.1.burstReq.numBytes = 0 := by
  obtain ⟨req, rest, isFront⟩ := List.exists_cons_of_ne_nil (some_of_burstReqPop pop)
  have front : trace.1.burstReq = req := FifoV3.dataO_eq_head isFront
  rcases wedging.waits with ⟨idle, same⟩ | ⟨set, first, same⟩
  · refine ⟨idle, same, ?_⟩
    rw [front]
    exact wedging.first req (by rw [same, isFront]; rfl)
  · -- the second one is serialized, so it waits
    have serialize : req.serialize = true := wedging.second req (by rw [same, isFront]; rfl)
    obtain ⟨-, -, valid, -⟩ := BurstDecoupled.readyO_eq_true.mp pop
    have valid : trace.1.burstValid inp = true := valid
    rw [AxiDmaBackend.burstValid, front, serialize, if_pos rfl, set,
      wedging.idle.transCompleteO_eq wedging.inv permits] at valid
    simp at valid

theorem Wedging.step (wedging : trace.Wedging) (permits : trace.Permits inp)
    (empty : trace.EmptyThenSerialized inp) : (trace.step inp).Wedging := by
  have starts := fun pop : trace.1.burstReqPop inp = true => wedging.of_burstReqPop permits pop
  have passes := fifo_passes trace inp fun req => [req]
  rw [Passes, List.flatMap_singleton', List.flatMap_singleton'] at passes
  have taken : (trace.step inp).2.taken =
      trace.2.taken ++ if trace.1.takes inp then [inp.burstReqI] else [] := rfl
  refine ⟨wedging.inv.step permits, wedging.idle.step wedging.inv permits fun pop => (starts pop).2.2,
    ?_, ?_, ?_, ?_⟩
  · intro req member
    rw [taken] at member
    by_cases none : trace.2.taken.length = 0
    · rw [List.eq_nil_of_length_eq_zero none] at member
      cases takes : trace.1.takes inp with
      | false => simp [takes] at member
      | true =>
        obtain rfl : inp.burstReqI = req := by simpa [takes] using member
        exact (empty takes).1 none
    · rw [List.getElem?_append_left (by omega)] at member
      exact wedging.first req member
  · intro req member
    rw [taken] at member
    rcases Nat.lt_trichotomy 1 trace.2.taken.length with several | one | none
    · rw [List.getElem?_append_left several] at member
      exact wedging.second req member
    · rw [List.getElem?_append_right (by omega), ← one] at member
      cases takes : trace.1.takes inp with
      | false => simp [takes] at member
      | true =>
        obtain rfl : inp.burstReqI = req := by simpa [takes] using member
        exact (empty takes).2 one.symm
    · have fresh : trace.2.taken = [] := List.eq_nil_of_length_eq_zero (by omega)
      rw [fresh] at member
      cases takes : trace.1.takes inp <;> simp [takes] at member
  · have flight : (trace.step inp).1.inFlightQ = trace.1.inFlightD inp := rfl
    have idle := wedging.idle.transCompleteO_eq wedging.inv permits
    rw [flight, taken, AxiDmaBackend.inFlightD, idle]
    cases pop : trace.1.burstReqPop inp with
    | true =>
      obtain ⟨-, same, -⟩ := starts pop
      have some : trace.1.burstReqEmpty = false :=
        FifoV3.emptyO_eq_false.mpr (some_of_burstReqPop pop)
      rw [pop, if_pos rfl] at passes
      refine .inr ⟨by rw [some]; rfl, trace.1.burstReq, ?_⟩
      rw [same, passes]
      rfl
    | false =>
      rw [pop, if_neg Bool.false_ne_true, List.nil_append] at passes
      rw [Bool.false_and, if_neg Bool.false_ne_true, if_neg Bool.false_ne_true, ← passes]
      rcases wedging.waits with ⟨notSet, same⟩ | ⟨set, first, same⟩
      · exact .inl ⟨notSet, by rw [same]⟩
      · exact .inr ⟨set, first, by rw [same]; rfl⟩
  · obtain ⟨fetched, written, completed⟩ := wedging.idle.history_step wedging.inv permits
    rw [fetched, written, completed]
    exact wedging.nothing

end AxiDmaTrace

/-- If the first transfer has no bytes and the second one is serialized, the backend never does
    anything, whatever it gets behind them, on a bus that keeps its rules. -/
theorem axiDmaBackend_wedges (params : AxiDmaParams) (inputs : List AxiDmaBackendIn)
    (admitted : (axiDmaTrace params).Admits AxiDmaTrace.Permits inputs)
    (empty : (axiDmaTrace params).Admits AxiDmaTrace.EmptyThenSerialized inputs) :
    ((axiDmaTrace params).run inputs).2.fetched = [] ∧
      ((axiDmaTrace params).run inputs).2.written = [] ∧
      ((axiDmaTrace params).run inputs).2.completed = 0 :=
  ((admitted.and empty).invariant AxiDmaTrace.Wedging .reset fun _ _ wedging allows =>
    wedging.step allows.1 allows.2).nothing

/-- The second transfer moves three bytes, and the bus is eager. -/
def wedgedRun : List AxiDmaBackendIn :=
  let start : List AxiDmaBackendIn :=
    [{ burstReqI := copyReq 0 0 0, validI := true, axiDmaResI := .quiet },
      { burstReqI := { copyReq 1 2 3 with serialize := true }
        validI := true
        axiDmaResI := .quiet }]
  start ++ eagerInputs 10 ((axiDmaTrace smallDma).run start)

theorem axiDmaBackend_wedges_three :
    (((axiDmaTrace smallDma).run wedgedRun).2.fetched = [] ∧
      ((axiDmaTrace smallDma).run wedgedRun).2.written = [] ∧
      ((axiDmaTrace smallDma).run wedgedRun).2.completed = 0) ∧
      ((axiDmaTrace smallDma).run wedgedRun).2.taken.length = 2 :=
  ⟨axiDmaBackend_wedges smallDma wedgedRun (by decide +kernel) (by decide +kernel),
    by decide +kernel⟩

end Pspin
