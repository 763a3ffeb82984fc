import Pspin.Dma.AxiDmaBackend
import Pspin.Dma.DataPathLanes

/-! # A DMA backend on the bus

What crosses the ports of a DMA backend: the transfers it took, the bytes it read and wrote and the
addresses the bus gave them, and the transfers it reported complete.  The bus answers reads in their
order, takes data only for a write address it has taken, and acknowledges write bursts it has got in
full, no more of them being under way than the backend can remember.
-/

namespace Pspin

open Clocked

/-- What happened: the bursts that are under way on the bus, with the beats of the first one that are
    done, the bytes that were read and written, and the transfers that were taken and completed. -/
structure AxiDmaHistory where
  taken : List BurstReq
  arOpen : List DescAx
  rBeat : Nat
  fetched : List (Nat × BitVec 8)
  awOpen : List DescAx
  wBeat : Nat
  written : List (Nat × BitVec 8)
  answering : List DescAx
  completed : Nat

namespace AxiDmaBackend

variable {params : AxiDmaParams} (backend : AxiDmaBackend params) (inp : AxiDmaBackendIn)

/-- A transfer is taken. -/
def takes : Bool := inp.validI && backend.readyO

def path : AxiDmaDataPath params := backend.mover.dataPath

def pathIn : AxiDmaDataPathIn := backend.mover.dataPathIn inp.axiDmaResI

/-- A beat is read. -/
def rTakes : Bool := backend.path.push (backend.pathIn inp)

/-- A beat is written. -/
def wGives : Bool := backend.path.writeHappening (backend.pathIn inp)

def arPop : Bool := backend.mover.arEmitterPop inp.axiDmaResI

def awPop : Bool := backend.mover.awEmitterPop inp.axiDmaResI

def wLast : Bool := backend.path.wLastO (backend.pathIn inp)

end AxiDmaBackend

namespace AxiDmaHistory

variable {params : AxiDmaParams}

def empty : AxiDmaHistory where
  taken := []
  arOpen := []
  rBeat := 0
  fetched := []
  awOpen := []
  wBeat := 0
  written := []
  answering := []
  completed := 0

section

variable (backend : AxiDmaBackend params) (history : AxiDmaHistory) (inp : AxiDmaBackendIn)

/-- The read bursts under way, with the one whose address is taken in the cycle. -/
def arOpened : List DescAx :=
  history.arOpen ++ if backend.arPop inp then backend.mover.arEmitter.contents.head?.toList else []

def awOpened : List DescAx :=
  history.awOpen ++ if backend.awPop inp then backend.mover.awEmitter.contents.head?.toList else []

/-- The address of the first lane of the beat that is read. -/
def readAddr : Nat :=
  ((history.arOpened backend inp).headD default).addr + history.rBeat * params.strbWidth

def writeAddr : Nat :=
  ((history.awOpened backend inp).headD default).addr + history.wBeat * params.strbWidth

/-- The bytes of the beat that is read which the data path takes. -/
def reading : List (Nat × BitVec 8) :=
  if backend.rTakes inp then
    (backend.path.readLanes (backend.pathIn inp)).map fun lane =>
      (history.readAddr backend inp + lane, inp.axiDmaResI.rData lane)
  else []

/-- The bytes of the beat that is written whose strobe is set. -/
def writing : List (Nat × BitVec 8) :=
  if backend.wGives inp then
    ((List.range params.strbWidth).filter (backend.path.wStrbO (backend.pathIn inp))).map fun lane =>
      (history.writeAddr backend inp + lane, backend.path.wDataO (backend.pathIn inp) lane)
  else []

def record : AxiDmaHistory :=
  let rDone := backend.rTakes inp && inp.axiDmaResI.rLast
  let wDone := backend.wGives inp && backend.wLast inp
  { taken := history.taken ++ if backend.takes inp then [inp.burstReqI] else []
    arOpen := if rDone then (history.arOpened backend inp).tail else history.arOpened backend inp
    rBeat := if backend.rTakes inp then (if inp.axiDmaResI.rLast then 0 else history.rBeat + 1)
      else history.rBeat
    fetched := history.fetched ++ history.reading backend inp
    awOpen := if wDone then (history.awOpened backend inp).tail else history.awOpened backend inp
    wBeat := if backend.wGives inp then (if backend.wLast inp then 0 else history.wBeat + 1)
      else history.wBeat
    written := history.written ++ history.writing backend inp
    answering := (if inp.axiDmaResI.bValid then history.answering.tail else history.answering) ++
      if wDone then (history.awOpened backend inp).head?.toList else []
    completed := history.completed + (backend.transCompleteO inp).toNat }

end

/-- The bytes that the transfers taken so far ask to move, in order. -/
def moves (params : AxiDmaParams) (history : AxiDmaHistory) : List Move :=
  history.taken.flatMap (BurstReq.moves params)

end AxiDmaHistory

abbrev AxiDmaTrace (params : AxiDmaParams) := AxiDmaBackend params × AxiDmaHistory

/-- The backend with what crosses its ports. -/
def axiDmaTrace (params : AxiDmaParams) : Machine (AxiDmaTrace params) AxiDmaBackendIn :=
  (axiDmaBackend params).observedBy AxiDmaHistory.empty AxiDmaHistory.record

namespace AxiDmaTrace

variable {params : AxiDmaParams}

section

variable (trace : AxiDmaTrace params) (inp : AxiDmaBackendIn)

def step : AxiDmaTrace params := (trace.1.step inp, AxiDmaHistory.record trace.1 trace.2 inp)

/-- What the backend needs of those who give it transfers and of the bus. -/
structure Permits : Prop where
  fits : trace.1.takes inp = true → inp.burstReqI.Fits params
  reads : inp.axiDmaResI.rValid = true → trace.2.arOpened trace.1 inp ≠ []
  rLast : inp.axiDmaResI.rValid = true → inp.axiDmaResI.rLast =
    (trace.2.rBeat == ((trace.2.arOpened trace.1 inp).headD default).len)
  writes : trace.1.wGives inp = true → trace.2.awOpened trace.1 inp ≠ []
  answers : inp.axiDmaResI.bValid = true → trace.2.answering ≠ []
  room : trace.1.awPop inp = true →
    (trace.2.answering ++ trace.2.awOpen).length < params.lastQueueDepth

instance : Decidable (trace.Permits inp) :=
  decidable_of_iff ((trace.1.takes inp = true → inp.burstReqI.Fits params) ∧
    (inp.axiDmaResI.rValid = true → trace.2.arOpened trace.1 inp ≠ []) ∧
    (inp.axiDmaResI.rValid = true → inp.axiDmaResI.rLast =
      (trace.2.rBeat == ((trace.2.arOpened trace.1 inp).headD default).len)) ∧
    (trace.1.wGives inp = true → trace.2.awOpened trace.1 inp ≠ []) ∧
    (inp.axiDmaResI.bValid = true → trace.2.answering ≠ []) ∧
    (trace.1.awPop inp = true →
      (trace.2.answering ++ trace.2.awOpen).length < params.lastQueueDepth))
    ⟨fun h => ⟨h.1, h.2.1, h.2.2.1, h.2.2.2.1, h.2.2.2.2.1, h.2.2.2.2.2⟩,
      fun h => ⟨h.fits, h.reads, h.rLast, h.writes, h.answers, h.room⟩⟩

/-! ## Bursts under way -/

/-- The read bursts that are not done: those on the bus and those whose address waits. -/
def reads : List ReadReq :=
  List.zipWith ReadReq.mk (trace.2.arOpen ++ trace.1.mover.arEmitter.contents)
    trace.1.mover.rEmitter.contents

def writes : List WriteReq :=
  List.zipWith WriteReq.mk (trace.2.awOpen ++ trace.1.mover.awEmitter.contents)
    trace.1.mover.wEmitter.contents

/-- What is left to read: the bursts under way, the transfer that is being cut, and those that wait. -/
def readRest : List (Nat × Nat) :=
  restOf (ReadReq.beat params) ReadReq.len trace.reads trace.2.rBeat ++
    (trace.1.burst.srcRest params ++ trace.1.burstRequestFifo.contents.flatMap fun req =>
      (req.moves params).map (Move.toRead params))

/-- What is left to write. -/
def writeRest : List (Nat × Bool) :=
  restOf (WriteReq.beat params) WriteReq.len trace.writes trace.2.wBeat ++
    (trace.1.burst.dstRest params ++ trace.1.burstRequestFifo.contents.flatMap fun req =>
      (req.moves params).map Move.toWrite)

end

end AxiDmaTrace

end Pspin
