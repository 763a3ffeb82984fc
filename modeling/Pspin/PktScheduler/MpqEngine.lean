import Pspin.Config
import Pspin.CommonCells.RrArbTree
import Pspin.PktScheduler.FifoEngine

/-! # `mpq_engine`

Packets arrive as handler execution requests (HERs) and are queued by message.
Each message queue is a small state machine; the arbiter picks one of those with
a task to send, its metadata and its first packet are read from memory, and one
cycle later the task is offered to the scheduler.
-/

namespace Pspin

open Clocked

/-! ## `mpq_fsm` -/

structure MpqFsmIn where
  herNewI : Bool
  taskSentI : Bool
  feedbackI : Bool
  herNewHasHhI : Bool
  herNewHasThI : Bool
  herNewIsEomI : Bool

namespace MpqFsm

variable (inp : MpqFsmIn) (mpqQ : Mpq)

def poppingHer : Bool := inp.taskSentI && decide (mpqQ.state = .payload)

def updateO : Bool := inp.herNewI || inp.taskSentI || inp.feedbackI

def lengthO : Nat :=
  match inp.herNewI, poppingHer inp mpqQ with
  | true, false => increment mpqCountWidth mpqQ.length
  | false, true => decrement mpqCountWidth mpqQ.length
  | _, _ => mpqQ.length

def inFlightO : Nat :=
  match inp.taskSentI, inp.feedbackI with
  | true, false => increment mpqCountWidth mpqQ.inFlight
  | false, true => decrement mpqCountWidth mpqQ.inFlight
  | _, _ => mpqQ.inFlight

def stateO : MpqState :=
  match mpqQ.state with
  | .free => if inp.herNewI then (if inp.herNewHasHhI then .header else .payload) else .free
  | .header => if inp.taskSentI then .headerRunning else .header
  | .headerRunning => if inp.feedbackI then .payload else .headerRunning
  | .payload =>
    if inp.taskSentI && mpqQ.eomSeen && decide (mpqQ.length = 1) then .payloadDraining else .payload
  | .payloadDraining =>
    if inp.feedbackI && decide (mpqQ.inFlight = 1) then
      (if mpqQ.hasCompletion then .completion else .free)
    else .payloadDraining
  | .completion => if inp.taskSentI then .completionRunning else .completion
  | .completionRunning => if inp.feedbackI then .free else .completionRunning

def hasCompletionO : Bool :=
  match mpqQ.state with
  | .free => if inp.herNewI then inp.herNewHasThI else mpqQ.hasCompletion
  | _ => mpqQ.hasCompletion

def eomSeenO : Bool :=
  -- cleared on the way to Free, after it was set
  if stateO inp mpqQ = .free then false
  else if inp.herNewI && inp.herNewIsEomI then true
  else mpqQ.eomSeen

def mpqO : Mpq where
  state := stateO inp mpqQ
  length := lengthO inp mpqQ
  inFlight := inFlightO inp mpqQ
  hasCompletion := hasCompletionO inp mpqQ
  eomSeen := eomSeenO inp mpqQ

end MpqFsm

/-! ## The engine -/

/-- Parameters within the widths of the fields that index and count with them. -/
structure MpqEngineParams where
  numHerSlots : Nat
  numMpq : Nat
  positive : 0 < numMpq
  indexed : numMpq ≤ 2 ^ cMsgidWidth
  counted : numHerSlots ≤ numMpqCells

/-- `mpq_pkt_t` -/
structure MpqPkt where
  pktAddr : MemAddr
  pktSize : MemSize
deriving DecidableEq, Inhabited, Repr

/-- `mpqeng_state_t` -/
inductive MpqengState where
  | idle
  | ready
  | stalled
deriving DecidableEq, Repr

namespace MpqEngineParams

variable (params : MpqEngineParams)

instance : NeZero params.numMpq := ⟨params.positive.ne'⟩

/-- The parameters of `i_fifo_engine`. -/
def fifoShape : FifoShape where
  numCells := params.numHerSlots
  numFifo := params.numMpq
  numStaticCellsPerFifo := numMpqStaticCells

abbrev Idx := Fin params.numMpq

/-- `msgid[$clog2(NUM_MPQ)-1:0]`.  The slice names an MPQ whenever `NUM_MPQ` is a
    power of two; past the last MPQ this wraps where the source reads nothing. -/
def mpqIdx (msgid : MsgId) : params.Idx :=
  Fin.ofNat params.numMpq (truncate (clog2 params.numMpq) msgid.toNat)

end MpqEngineParams

/-- The registers of `mpq_engine` and of the units in it. -/
structure MpqEngine (params : MpqEngineParams) where
  stateQ : MpqengState
  mpqQ : params.Idx → Mpq
  mpqOutStateQ : MpqState
  selectedMpqQ : params.Idx
  newTaskTriggersFeedbackQ : Bool
  taskQ : HandlerTask
  fifoEngine : FifoEngine params.fifoShape MpqPkt
  mpqMetaMem : TcSram params.Idx MpqMeta
  mpqRrArb : RrArbTree params.numMpq

structure MpqEngineIn where
  herValidI : Bool
  herI : HerDescr
  feedbackValidI : Bool
  feedbackI : FeedbackDescr
  taskReadyI : Bool
  nicFeedbackReadyI : Bool
deriving DecidableEq

namespace MpqEngine

variable {params : MpqEngineParams}

/-- After reset, with some contents of the two memories. -/
def reset (cells : Nat → MpqPkt) (metas : params.Idx → MpqMeta) : MpqEngine params where
  stateQ := .idle
  mpqQ := fun _ => ⟨.free, 0, 0, false, false⟩
  mpqOutStateQ := .free
  selectedMpqQ := 0
  newTaskTriggersFeedbackQ := false
  taskQ := default
  fifoEngine := FifoEngine.reset cells
  mpqMetaMem := TcSram.reset metas 0
  mpqRrArb := RrArbTree.reset

variable (engine : MpqEngine params) (inp : MpqEngineIn)

/-! ### Valid and busy MPQs, arbitration -/

def mpqValid (i : params.Idx) : Bool :=
  decide ((engine.mpqQ i).state = .header) ||
    (decide ((engine.mpqQ i).state = .payload) && decide (0 < (engine.mpqQ i).length)) ||
    decide ((engine.mpqQ i).state = .completion)

def mpqBusy (i : params.Idx) : Bool := decide ((engine.mpqQ i).state ≠ .free)

def arbValid : Bool := engine.mpqRrArb.reqO engine.mpqValid

def tasksentMpqIdx : params.Idx := engine.mpqRrArb.idxO engine.mpqValid

def arbReady : Bool :=
  match engine.stateQ with
  | .idle => engine.arbValid
  | .ready | .stalled => inp.taskReadyI && engine.arbValid

def stateD : MpqengState :=
  match engine.stateQ with
  | .idle => if engine.arbValid then .ready else .idle
  | .ready => if inp.taskReadyI then (if engine.arbValid then .ready else .idle) else .stalled
  | .stalled => if inp.taskReadyI then (if engine.arbValid then .ready else .idle) else .stalled

/-! ### Handshakes -/

def newherMpqIdx : params.Idx := params.mpqIdx inp.herI.msgid

def feedbackMpqIdx : params.Idx := params.mpqIdx inp.feedbackI.msgid

def herReadyO : Bool := !engine.fifoEngine.fifoFullO (newherMpqIdx inp)

def feedbackReadyO : Bool := inp.nicFeedbackReadyI

def nicFeedbackValidO : Bool := inp.feedbackValidI && inp.feedbackI.triggerFeedback

def nicFeedbackO : FeedbackDescr := inp.feedbackI

/-- `her_valid_i && her_ready_o` -/
def herNew : Bool := inp.herValidI && engine.herReadyO inp

/-- `arb_valid && arb_ready` -/
def taskSent : Bool := engine.arbValid && engine.arbReady inp

/-- `feedback_valid_i && feedback_ready_o` -/
def feedbackTaken : Bool := inp.feedbackValidI && feedbackReadyO inp

/-- The NIC gets the feedbacks that are taken and give a packet back. -/
theorem nicFeedback_eq (inp : MpqEngineIn) : (nicFeedbackValidO inp && inp.nicFeedbackReadyI) =
    (feedbackTaken inp && inp.feedbackI.triggerFeedback) := by
  simp only [nicFeedbackValidO, feedbackTaken, feedbackReadyO]
  cases inp.feedbackValidI <;> cases inp.nicFeedbackReadyI <;> simp

/-! ### MPQ update

Three copies of `mpq_fsm` look at the MPQ of the new HER, of the task sent and of
the feedback.
-/

def fsmIn (herNewI taskSentI feedbackI : Bool) : MpqFsmIn where
  herNewI := herNewI
  taskSentI := taskSentI
  feedbackI := feedbackI
  herNewHasHhI := decide (inp.herI.mpqMeta.hhAddr ≠ 0)
  herNewHasThI := decide (inp.herI.mpqMeta.thAddr ≠ 0)
  herNewIsEomI := inp.herI.eom

def newherMpqFsm : MpqFsmIn :=
  fsmIn inp (engine.herNew inp)
    (engine.taskSent inp && decide (engine.tasksentMpqIdx = newherMpqIdx inp))
    (feedbackTaken inp && decide ((feedbackMpqIdx inp : params.Idx) = newherMpqIdx inp))

def tasksentMpqFsm : MpqFsmIn :=
  fsmIn inp (engine.herNew inp && decide (newherMpqIdx inp = engine.tasksentMpqIdx))
    (engine.taskSent inp)
    (feedbackTaken inp && decide (feedbackMpqIdx inp = engine.tasksentMpqIdx))

def feedbackMpqFsm : MpqFsmIn :=
  fsmIn inp (engine.herNew inp && decide ((newherMpqIdx inp : params.Idx) = feedbackMpqIdx inp))
    (engine.taskSent inp && decide (feedbackMpqIdx inp = engine.tasksentMpqIdx))
    (feedbackTaken inp)

/-- An `mpq_fsm` that updates writes its MPQ back. -/
def writeBack (event : MpqFsmIn) (idx : params.Idx) (mpqD : params.Idx → Mpq) :
    params.Idx → Mpq :=
  if MpqFsm.updateO event then Function.update mpqD idx (MpqFsm.mpqO event (engine.mpqQ idx))
  else mpqD

def mpqD : params.Idx → Mpq :=
  engine.writeBack (engine.feedbackMpqFsm inp) (feedbackMpqIdx inp)
    (engine.writeBack (engine.tasksentMpqFsm inp) engine.tasksentMpqIdx
      (engine.writeBack (engine.newherMpqFsm inp) (newherMpqIdx inp) engine.mpqQ))

/-! ### Packets and metadata -/

def newPkt : MpqPkt where
  pktAddr := inp.herI.herAddr
  pktSize := inp.herI.xferSize

def fifoPush : Bool := engine.herNew inp

def fifoPop : Bool :=
  let mpq := engine.mpqQ engine.tasksentMpqIdx
  let next := engine.mpqD inp engine.tasksentMpqIdx
  engine.taskSent inp &&
    -- payload packets but not the eom; the eom too without a completion handler;
    -- the eom when the completion is sent
    (decide (mpq.state = .payload) && decide (next.state = .payload) ||
      decide (mpq.state = .payload) && decide (next.state = .payloadDraining) &&
        !next.hasCompletion ||
      decide (mpq.state = .completion))

def fifoIn : FifoEngineIn params.fifoShape MpqPkt where
  newElI := newPkt inp
  pushI := engine.fifoPush inp
  fifoPushIdI := newherMpqIdx inp
  popI := engine.fifoPop inp
  fifoPopIdI := engine.tasksentMpqIdx

def mpqmetaWrite : Bool := engine.herNew inp && !engine.mpqBusy (newherMpqIdx inp)

def mpqmetaRead : Bool := engine.taskSent inp

/-! ### The task -/

def mpqHead : MpqPkt := engine.fifoEngine.dataO

def mpqmetaReadMpq : MpqMeta := engine.mpqMetaMem.rdataQ

/-- The task of a handler, once metadata and packet are there. -/
def buildTask (msgid : MsgId) (mpqMeta : MpqMeta) (handlerFun : MemAddr) (handlerFunSize : MemSize)
    (pkt : MpqPkt) (triggerFeedback : Bool) : HandlerTask where
  msgid := msgid
  handlerFun := handlerFun
  handlerFunSize := handlerFunSize
  handlerMemAddr := mpqMeta.handlerMemAddr
  handlerMemSize := mpqMeta.handlerMemSize
  hostMemAddr := mpqMeta.hostMemAddr
  hostMemSize := mpqMeta.hostMemSize
  pktAddr := pkt.pktAddr
  pktSize := pkt.pktSize
  triggerFeedback := triggerFeedback
  scratchpadAddr := mpqMeta.scratchpadAddr
  scratchpadSize := mpqMeta.scratchpadSize

/-- `new_task.msgid` is the index of the selected MPQ, zero-extended. -/
def idxMsgid (i : params.Idx) : MsgId := BitVec.ofNat cMsgidWidth i

def newTask : HandlerTask :=
  let mpqMeta := engine.mpqmetaReadMpq
  let build := buildTask (idxMsgid engine.selectedMpqQ) mpqMeta
  match engine.mpqOutStateQ with
  | .header => build mpqMeta.hhAddr mpqMeta.hhSize engine.mpqHead engine.newTaskTriggersFeedbackQ
  | .payload => build mpqMeta.phAddr mpqMeta.phSize engine.mpqHead engine.newTaskTriggersFeedbackQ
  | .completion =>
    build mpqMeta.thAddr mpqMeta.thSize engine.mpqHead engine.newTaskTriggersFeedbackQ
  | _ => build 0 0 ⟨0, 0⟩ false

def taskValidO : Bool := decide (engine.stateQ = .ready) || decide (engine.stateQ = .stalled)

def taskO : HandlerTask := if engine.stateQ = .ready then engine.newTask else engine.taskQ

/-- One clock edge. -/
def step : MpqEngine params where
  stateQ := engine.stateD inp
  mpqQ := engine.mpqD inp
  mpqOutStateQ := if engine.taskSent inp
    then (engine.mpqQ engine.tasksentMpqIdx).state else engine.mpqOutStateQ
  selectedMpqQ := if engine.taskSent inp
    then engine.tasksentMpqIdx else engine.selectedMpqQ
  newTaskTriggersFeedbackQ := if engine.taskSent inp
    then engine.fifoPop inp else engine.newTaskTriggersFeedbackQ
  taskQ := if engine.stateQ = .ready then engine.newTask else engine.taskQ
  fifoEngine := engine.fifoEngine.step (engine.fifoIn inp)
  mpqMetaMem := engine.mpqMetaMem.step (engine.mpqmetaRead inp) engine.tasksentMpqIdx
    (engine.mpqmetaWrite inp) (newherMpqIdx inp) inp.herI.mpqMeta
  mpqRrArb := engine.mpqRrArb.step engine.mpqValid (engine.arbReady inp)

end MpqEngine

/-- `mpq_engine` with some contents of its memories at power-up. -/
def mpqEngine (params : MpqEngineParams) (cells : Nat → MpqPkt) (metas : params.Idx → MpqMeta) :
    Machine (MpqEngine params) MpqEngineIn where
  reset := MpqEngine.reset cells metas
  step := MpqEngine.step

end Pspin
