import Pspin.Clocked.Flow
import Pspin.PktScheduler.MpqEngine

/-! # The HER handshake between the NIC model and `mpq_engine`

`SimControl::run_single` clocks the hardware with the inputs driven before, lets
it settle and only then runs the `posedge` of the modules, which drive the inputs
of the next clock edge.  So `NICInbound` samples `her_ready` for the HER it drove
before and then drives another one, for one clock edge.

Of `NICInbound` this is the path from a completed packet write to the HER port;
statistics, the packet map and the end-of-stream flag are not read on it.
-/

namespace Pspin

open Clocked

/-- The HER port and the HERs whose packets are written. -/
structure NicHers where
  herValidO : Bool
  herO : HerDescr
  readyHers : List HerDescr
  niCtrlStalls : BitVec 32

namespace NicHers

def reset : NicHers where
  herValidO := false
  herO := default
  readyHers := []
  niCtrlStalls := 0

variable (nic : NicHers)

/-- The end of `progress_axi_write_responses`: the packet of a HER is written. -/
def writeCompleted (her : Option HerDescr) : NicHers :=
  { nic with readyHers := nic.readyHers ++ her.toList }

/-- `her_progress_posedge` -/
def herProgressPosedge (herReadyI : Bool) : NicHers :=
  if herReadyI then
    match nic.readyHers with
    | [] => { nic with herValidO := false }
    | her :: readyHers =>
      { nic with herValidO := true, herO := her, readyHers := readyHers }
  else { nic with herValidO := false, niCtrlStalls := nic.niCtrlStalls + 1 }

/-- The HER on offer to the engine. -/
def onWires : List HerDescr := if nic.herValidO then [nic.herO] else []

/-- The HER `her_progress_posedge` takes out of `ready_hers`. -/
def removes (herReadyI : Bool) : List HerDescr :=
  if herReadyI then nic.readyHers.head?.toList else []

end NicHers

/-- The two sides of the HER port.  `active` is `pspin_active`, which no HPU takes
    back once it has left its initial state. -/
structure HerLink (params : MpqEngineParams) where
  nic : NicHers
  active : Bool
  engine : MpqEngine params

/-- What happens around the port from one clock edge to the next. -/
structure HerLinkIn where
  pspinActiveI : Bool
  writeCompleted : Option HerDescr
  feedbackValidI : Bool
  feedbackI : FeedbackDescr
  taskReadyI : Bool
  nicFeedbackReadyI : Bool

namespace HerLink

variable {params : MpqEngineParams}

def reset (cells : Nat → MpqPkt) (metas : params.Idx → MpqMeta) : HerLink params where
  nic := NicHers.reset
  active := false
  engine := MpqEngine.reset cells metas

variable (link : HerLink params) (inp : HerLinkIn)

/-- The inputs of `mpq_engine`, its HER port as driven. -/
def engineIn (nic : NicHers) : MpqEngineIn where
  herValidI := nic.herValidO
  herI := nic.herO
  feedbackValidI := inp.feedbackValidI
  feedbackI := inp.feedbackI
  taskReadyI := inp.taskReadyI
  nicFeedbackReadyI := inp.nicFeedbackReadyI

/-- The engine after the rising edge. -/
def clockedEngine : MpqEngine params := link.engine.step (engineIn inp link.nic)

/-- `her_ready_o` as the modules sample it: the registers are new, the HER is the
    one driven before. -/
def sampledReady : Bool := (link.clockedEngine inp).herReadyO (engineIn inp link.nic)

/-- The modules run: `pspin_active` is high. -/
def runs : Bool := link.active || inp.pspinActiveI

/-- `run_single` -/
def runSingle : HerLink params where
  nic := if link.runs inp then
      (link.nic.writeCompleted inp.writeCompleted).herProgressPosedge (link.sampledReady inp)
    else link.nic
  active := link.runs inp
  engine := link.clockedEngine inp

end HerLink

/-- HERs that became ready, that the NIC removed and that the engine accepted. -/
structure HerLinkHistory where
  ready : List HerDescr
  removed : List HerDescr
  accepted : List HerDescr

namespace HerLinkHistory

variable {params : MpqEngineParams}

def empty : HerLinkHistory where
  ready := []
  removed := []
  accepted := []

def record (link : HerLink params) (history : HerLinkHistory) (inp : HerLinkIn) :
    HerLinkHistory where
  ready := history.ready ++ if link.runs inp then inp.writeCompleted.toList else []
  removed := history.removed ++ if link.runs inp
    then (link.nic.writeCompleted inp.writeCompleted).removes (link.sampledReady inp) else []
  accepted := history.accepted ++
    if link.engine.herNew (HerLink.engineIn inp link.nic) then [link.nic.herO] else []

end HerLinkHistory

/-- Both sides of the port and what crossed it. -/
abbrev HerLinkTrace (params : MpqEngineParams) := HerLink params × HerLinkHistory

def herLinkTrace (params : MpqEngineParams) (cells : Nat → MpqPkt) (metas : params.Idx → MpqMeta) :
    Machine (HerLinkTrace params) HerLinkIn :=
  Machine.observedBy ⟨HerLink.reset cells metas, HerLink.runSingle⟩ HerLinkHistory.empty
    HerLinkHistory.record

namespace HerLinkTrace

variable {params : MpqEngineParams} (trace : HerLinkTrace params)

/-- The engine accepts the HERs the NIC removes, in order; the one removed last is
    on the wires and meets a ready engine. -/
structure AcceptsOnce : Prop where
  removed : trace.2.ready = trace.2.removed ++ trace.1.nic.readyHers
  accepted : trace.2.removed = trace.2.accepted ++ trace.1.nic.onWires
  next : trace.1.nic.herValidO = true → ∀ inp : HerLinkIn,
    trace.1.engine.herReadyO (HerLink.engineIn inp trace.1.nic) = true

/-- When the NIC, seeing ready, removes a HER, the FIFO of that HER's own MPQ is
    not full. -/
def OwnFifoReady (inp : HerLinkIn) : Prop :=
  trace.1.runs inp = true → trace.1.sampledReady inp = true →
    ∀ her ∈ (trace.1.nic.writeCompleted inp.writeCompleted).readyHers.head?,
      (trace.1.clockedEngine inp).fifoEngine.fifoFullO (params.mpqIdx her.msgid) = false

instance (inp : HerLinkIn) : Decidable (trace.OwnFifoReady inp) :=
  inferInstanceAs (Decidable (_ → _ → _))

variable {trace} {inp : HerLinkIn}

def step (trace : HerLinkTrace params) (inp : HerLinkIn) : HerLinkTrace params :=
  (trace.1.runSingle inp, HerLinkHistory.record trace.1 trace.2 inp)

/-- What the NIC removes is what it drives afterwards, if it drives anything. -/
theorem removes_eq_onWires (nic : NicHers) (herReadyI : Bool) :
    (nic.herProgressPosedge herReadyI).onWires = nic.removes herReadyI := by
  unfold NicHers.herProgressPosedge NicHers.removes
  cases herReadyI with
  | false => rfl
  | true => cases nic.readyHers <;> simp [NicHers.onWires]

/-- Nothing is left out between `ready_hers` and the wires. -/
theorem readyHers_eq (nic : NicHers) (herReadyI : Bool) :
    nic.readyHers =
      nic.removes herReadyI ++ (nic.herProgressPosedge herReadyI).readyHers := by
  unfold NicHers.herProgressPosedge NicHers.removes
  cases herReadyI with
  | false => rfl
  | true => cases waiting : nic.readyHers <;> simp

/-- The NIC drives a HER only when it saw ready, and then the front of `ready_hers`. -/
theorem head?_of_drives (nic : NicHers) {herReadyI : Bool}
    (drives : (nic.herProgressPosedge herReadyI).herValidO = true) :
    herReadyI = true ∧ nic.readyHers.head? = some (nic.herProgressPosedge herReadyI).herO := by
  unfold NicHers.herProgressPosedge at drives ⊢
  cases herReadyI with
  | false => cases drives
  | true => cases waiting : nic.readyHers <;> simp [waiting] at drives ⊢

/-- A HER on the wires that meets a ready engine is accepted at the clock edge. -/
theorem AcceptsOnce.accepted_step (once : trace.AcceptsOnce) :
    (trace.step inp).2.accepted = trace.2.removed := by
  rw [once.accepted]
  show trace.2.accepted ++ _ = _
  congr 1
  unfold NicHers.onWires
  cases drives : trace.1.nic.herValidO with
  | true =>
    have new : trace.1.engine.herNew (HerLink.engineIn inp trace.1.nic) = true := by
      rw [MpqEngine.herNew, once.next drives inp, Bool.and_true]
      exact drives
    simp [new]
  | false => simp [MpqEngine.herNew, HerLink.engineIn, drives]

theorem AcceptsOnce.step (once : trace.AcceptsOnce)
    (asleep : trace.1.active = false → trace.1.nic.herValidO = false)
    (fits : trace.OwnFifoReady inp) : (trace.step inp).AcceptsOnce := by
  cases runs : trace.1.runs inp with
  | false =>
    -- Before the HPUs are up nothing was driven yet, and nothing moves.
    have notActive : trace.1.active = false := by
      simp only [HerLink.runs, Bool.or_eq_false_iff] at runs
      exact runs.1
    have still : (trace.step inp).1.nic = trace.1.nic := by
      simp [HerLinkTrace.step, HerLink.runSingle, runs]
    have quiet : trace.1.nic.onWires = [] := by
      simp [NicHers.onWires, asleep notActive]
    refine ⟨?_, ?_, ?_⟩
    · rw [still]
      simpa [HerLinkTrace.step, HerLinkHistory.record, runs] using once.removed
    · rw [once.accepted_step, still, quiet]
      simp [HerLinkTrace.step, HerLinkHistory.record, runs]
    · rw [still, asleep notActive]
      exact nofun
  | true =>
    have moved : (trace.step inp).1.nic = (trace.1.nic.writeCompleted
        inp.writeCompleted).herProgressPosedge (trace.1.sampledReady inp) := by
      simp [HerLinkTrace.step, HerLink.runSingle, runs]
    refine ⟨?_, ?_, ?_⟩
    · rw [moved]
      have kept := readyHers_eq (trace.1.nic.writeCompleted inp.writeCompleted)
        (trace.1.sampledReady inp)
      simp only [HerLinkTrace.step, HerLinkHistory.record, runs, if_true, List.append_assoc, ← kept]
      rw [once.removed, List.append_assoc]
      rfl
    · rw [once.accepted_step, moved, removes_eq_onWires]
      simp [HerLinkTrace.step, HerLinkHistory.record, runs]
    · rw [moved]
      intro drives other
      obtain ⟨ready, front⟩ := head?_of_drives _ drives
      have notFull := fits runs ready _ front
      have clocked : (trace.step inp).1.engine = trace.1.clockedEngine inp := rfl
      rw [clocked]
      simpa [MpqEngine.herReadyO, MpqEngine.newherMpqIdx, HerLink.engineIn] using notFull

/-- A HER removed while its own FIFO is full meets an engine that is not ready. -/
theorem AcceptsOnce.ownFifoReady (once : (trace.step inp).AcceptsOnce) :
    trace.OwnFifoReady inp := by
  intro runs ready her front
  have moved : (trace.step inp).1.nic =
      (trace.1.nic.writeCompleted inp.writeCompleted).herProgressPosedge true := by
    simp [HerLinkTrace.step, HerLink.runSingle, runs, ready]
  have next := once.next
  have clocked : (trace.step inp).1.engine = trace.1.clockedEngine inp := rfl
  rw [moved, clocked] at next
  cases waiting : (trace.1.nic.writeCompleted inp.writeCompleted).readyHers with
  | nil => simp [waiting] at front
  | cons first rest =>
    obtain rfl : first = her := by simpa [waiting] using front
    simp only [NicHers.herProgressPosedge, waiting, if_true] at next
    simpa [MpqEngine.herReadyO, MpqEngine.newherMpqIdx, HerLink.engineIn] using next trivial inp

end HerLinkTrace

section Runs

variable (params : MpqEngineParams) (cells : Nat → MpqPkt) (metas : params.Idx → MpqMeta)

theorem acceptsOnce_of_admits {inputs : List HerLinkIn}
    (admitted : (herLinkTrace params cells metas).Admits HerLinkTrace.OwnFifoReady inputs) :
    ((herLinkTrace params cells metas).run inputs).AcceptsOnce := by
  have invariant := admitted.invariant
    (fun trace => trace.AcceptsOnce ∧ (trace.1.active = false → trace.1.nic.herValidO = false))
    ⟨⟨rfl, rfl, nofun⟩, fun _ => rfl⟩ ?_
  · exact invariant.1
  · intro trace inp ⟨once, asleep⟩ fits
    refine ⟨once.step asleep fits, fun notActive => ?_⟩
    have still : trace.1.runs inp = false := notActive
    have before : trace.1.active = false := by
      simp only [HerLink.runs, Bool.or_eq_false_iff] at still
      exact still.1
    show (trace.1.runSingle inp).nic.herValidO = false
    simpa [HerLink.runSingle, still] using asleep before

/-- Every HER the NIC takes out of `ready_hers` is accepted by the engine exactly
    once, all along a run, if and only if each time it takes one out the FIFO of that
    HER's own MPQ is not full. -/
theorem nicInbound_accepts_once (inputs : List HerLinkIn) :
    (∀ before after, inputs = before ++ after →
      ((herLinkTrace params cells metas).run before).AcceptsOnce) ↔
    (herLinkTrace params cells metas).Admits HerLinkTrace.OwnFifoReady inputs := by
  constructor
  · intro once
    refine Machine.admitsFrom_iff.mpr fun before inp after split => ?_
    have reached := once (before ++ [inp]) after (by simp [split])
    have stepped : (herLinkTrace params cells metas).run (before ++ [inp]) =
        ((herLinkTrace params cells metas).run before).step inp := by
      simp [Machine.run, Machine.runFrom]
      rfl
    rw [stepped] at reached
    exact reached.ownFifoReady
  · intro admitted before after split
    refine acceptsOnce_of_admits params cells metas (Machine.admitsFrom_iff.mpr ?_)
    intro earlier inp later splitBefore
    refine Machine.admitsFrom_iff.mp admitted earlier inp (later ++ after) ?_
    rw [split, splitBefore, List.append_assoc, List.cons_append]

end Runs

/-- Two MPQs and one dynamic cell: the packet of the first message waits for its
    header handler in the static cell of its MPQ; of the second message one packet is
    sent on and one takes the dynamic cell.  The NIC sees the FIFO of the second
    message ready and drives the next packet of the first. -/
theorem nicInbound_loses_her :
    let params : MpqEngineParams := ⟨1, 2, by decide, by decide, by decide⟩
    let handled : MpqMeta := { (default : MpqMeta) with hhAddr := 64 }
    let her (msgid : MsgId) : HerDescr := ⟨msgid, false, 0, 0, handled⟩
    let plain (msgid : MsgId) : HerDescr := ⟨msgid, false, 0, 0, default⟩
    let cycle (completed : Option HerDescr) : HerLinkIn := ⟨true, completed, false, default, true, true⟩
    let inputs := [some (her 0), some (plain 1), some (plain 1), some (her 0), none].map cycle
    let trace := (herLinkTrace params (fun _ => default) (fun _ => default)).run inputs
    trace.2.removed = [her 0, plain 1, plain 1, her 0] ∧
      trace.2.accepted = [her 0, plain 1, plain 1] ∧ ¬trace.AcceptsOnce := by
  intro params handled her plain cycle inputs trace
  have removed : trace.2.removed = [her 0, plain 1, plain 1, her 0] := by decide +kernel
  have accepted : trace.2.accepted = [her 0, plain 1, plain 1] := by decide +kernel
  have quiet : trace.1.nic.onWires = [] := by decide +kernel
  refine ⟨removed, accepted, fun once => ?_⟩
  have lost := once.accepted
  rw [removed, accepted, quiet] at lost
  exact absurd lost (by decide)

end Pspin
