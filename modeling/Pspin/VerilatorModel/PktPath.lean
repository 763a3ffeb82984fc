import Pspin.PktScheduler.MpqStock
import Pspin.VerilatorModel.PktRing

/-! # The way of a packet through `NICInbound` and `mpq_engine`

`process_packet` gives a packet a place by its length and puts the address into its HER.  The HER
says besides how much of the packet is copied to L1: this is the size that the engine queues, that
a task and its feedback carry, and that `feedback_progress` frees.

Of `NICInbound` these are the two calls that change the ring; the write of the packet, the packet
map and the statistics are not read on the way.
-/

namespace Pspin

open Clocked MpqPlan

/-- `incoming_her_t` without the data, which is `pkt_len` long. -/
structure IncomingHer where
  her : HerDescr
  pktLen : BitVec 32
deriving DecidableEq, Repr

namespace PktRing

variable (params : PktRingParams) (ring : PktRing)

/-- `process_packet`: the packet with the address in its HER, and the ring. -/
def processPacket (incoming : IncomingHer) : Option (IncomingHer × PktRing) :=
  (ring.allocatePktSpace params incoming.pktLen.toNat).map fun granted =>
    ({ incoming with her := { incoming.her with herAddr := BitVec.ofNat 32 granted.1 } }, granted.2)

/-- `feedback_progress` -/
def feedbackProgress (feedback : FeedbackDescr) : PktRing :=
  match ring.freePktSpace params feedback.pktAddr.toNat feedback.pktSize.toNat with
  | none => ring
  | some freed => freed

end PktRing

structure PktPathParams where
  ring : PktRingParams
  mpq : MpqEngineParams

/-- The ring and the engine. -/
structure PktPath (params : PktPathParams) where
  ring : PktRing
  engine : MpqEngine params.mpq

/-- The packet that `progress_incoming_packets` processes, if any, and the ports of the engine. -/
structure PktPathIn where
  incoming : Option IncomingHer
  engineIn : MpqEngineIn

namespace PktPathIn

variable (inp : PktPathIn)

/-- The feedback that the NIC gets. -/
def feedback : Option FeedbackDescr :=
  if MpqEngine.nicFeedbackValidO inp.engineIn && inp.engineIn.nicFeedbackReadyI
  then some (MpqEngine.nicFeedbackO inp.engineIn) else none

end PktPathIn

namespace PktPath

variable {params : PktPathParams} (path : PktPath params) (inp : PktPathIn)

def processed : Option (IncomingHer × PktRing) :=
  inp.incoming.bind (path.ring.processPacket params.ring)

/-- The packet that was given a place. -/
def placed : List IncomingHer := ((path.processed inp).map Prod.fst).toList

def ringProcessed : PktRing := ((path.processed inp).map Prod.snd).getD path.ring

/-- `posedge`, and one clock edge of the engine. -/
def step : PktPath params where
  ring :=
    match inp.feedback with
    | none => path.ringProcessed inp
    | some feedback => (path.ringProcessed inp).feedbackProgress params.ring feedback
  engine := path.engine.step inp.engineIn

end PktPath

def pktPath (params : PktPathParams) (cells : Nat → MpqPkt) (metas : params.mpq.Idx → MpqMeta) :
    Machine (PktPath params) PktPathIn where
  reset := ⟨PktRing.reset, MpqEngine.reset cells metas⟩
  step := PktPath.step

/-- The packets that have a place and got no feedback, their HERs that the engine has not accepted,
    the feedbacks owed for tasks handed out, and the feedbacks that came, each with its packet. -/
structure PktPathHistory where
  live : List IncomingHer
  waiting : List HerDescr
  owed : List FeedbackDescr
  freed : List (Option IncomingHer × FeedbackDescr)

namespace PktPathHistory

def empty : PktPathHistory where
  live := []
  waiting := []
  owed := []
  freed := []

/-- The packet that a feedback answers. -/
def answered (history : PktPathHistory) (feedback : FeedbackDescr) : Option IncomingHer :=
  history.live.find? fun incoming => decide (pktOf incoming.her = feedback.pkt)

/-- The packets that stay. -/
def unanswered (history : PktPathHistory) : Option FeedbackDescr → List IncomingHer
  | none => history.live
  | some feedback =>
    match history.answered feedback with
    | none => history.live
    | some incoming => history.live.erase incoming

variable {params : PktPathParams}

def record (path : PktPath params) (history : PktPathHistory) (inp : PktPathIn) :
    PktPathHistory where
  live := path.placed inp ++ history.unanswered inp.feedback
  waiting := (path.placed inp).map IncomingHer.her ++
    if path.engine.herNew inp.engineIn then history.waiting.erase inp.engineIn.herI
    else history.waiting
  owed :=
    (if MpqEngine.feedbackTaken inp.engineIn then history.owed.erase inp.engineIn.feedbackI
      else history.owed) ++
    if inp.engineIn.taskReadyI then path.engine.offer.map HandlerTask.feedback else []
  freed := history.freed ++ inp.feedback.toList.map fun feedback =>
    (history.answered feedback, feedback)

end PktPathHistory

abbrev PktPathTrace (params : PktPathParams) := PktPath params × PktPathHistory

def pktPathTrace (params : PktPathParams) (cells : Nat → MpqPkt) (metas : params.mpq.Idx → MpqMeta) :
    Machine (PktPathTrace params) PktPathIn :=
  (pktPath params cells metas).observedBy PktPathHistory.empty PktPathHistory.record

end Pspin
