import Pspin.Clocked.Machine
import Pspin.Dma.DmaDataPath

/-! # `axi_dma_backend`

A DMA backend: a FIFO of transfers, the unit that cuts them into bursts, and the data mover, which has
a FIFO for each channel of the bus, the data path between them, and a queue that remembers for each
write burst whether it is the last one of its transfer.  The bus is the environment.

The tracer, the responses of the bus and the AXI fields that are constant are left out.
-/

namespace Pspin

open Clocked

/-! ## `axi_dma_data_mover` -/

structure AxiDmaDataMover (params : AxiDmaParams) where
  arEmitter : FifoV3 DescAx params.axReqFifoDepth
  awEmitter : FifoV3 DescAx params.axReqFifoDepth
  rEmitter : FifoV3 DescR params.axReqFifoDepth
  wEmitter : FifoV3 DescW params.axReqFifoDepth
  dataPath : AxiDmaDataPath params
  lastTransactionQueue : FifoV3 Bool params.lastQueueDepth

/-- `axi_dma_res_i`: what the bus drives. -/
structure AxiDmaRes where
  arReady : Bool
  awReady : Bool
  wReady : Bool
  rValid : Bool
  rLast : Bool
  rData : Nat → BitVec 8
  bValid : Bool

namespace AxiDmaDataMover

variable {params : AxiDmaParams}

def reset : AxiDmaDataMover params where
  arEmitter := FifoV3.reset params.axReqFifoDepth_pos
  awEmitter := FifoV3.reset params.axReqFifoDepth_pos
  rEmitter := FifoV3.reset params.axReqFifoDepth_pos
  wEmitter := FifoV3.reset params.axReqFifoDepth_pos
  dataPath := AxiDmaDataPath.reset
  lastTransactionQueue := FifoV3.reset params.lastQueueDepth_pos

variable (mover : AxiDmaDataMover params) (res : AxiDmaRes)

def currentArReq : DescAx := mover.arEmitter.dataO

def currentAwReq : DescAx := mover.awEmitter.dataO

/-- The connections of the data path. -/
def dataPathIn : AxiDmaDataPathIn where
  rDpValidI := !mover.rEmitter.emptyO
  wDpValidI := !mover.wEmitter.emptyO
  r := mover.rEmitter.dataO
  w := mover.wEmitter.dataO
  rDataI := res.rData
  rValidI := res.rValid
  rLastI := res.rLast
  wReadyI := res.wReady

def rReadyO : Bool := !mover.arEmitter.fullO && !mover.rEmitter.fullO

def wReadyO : Bool := !mover.awEmitter.fullO && !mover.wEmitter.fullO

def arValid : Bool := !mover.arEmitter.emptyO

def awValid : Bool := !mover.awEmitter.emptyO

def arEmitterPop : Bool := res.arReady && mover.arValid

def awEmitterPop : Bool := res.awReady && mover.awValid

def rEmitterPop : Bool := mover.dataPath.rDpReadyO (mover.dataPathIn res)

def wEmitterPop : Bool := mover.dataPath.wDpReadyO (mover.dataPathIn res)

def isLastAw : Bool := mover.lastTransactionQueue.dataO

def transCompleteO : Bool := mover.isLastAw && res.bValid

def dataMoverIdleO : Bool := mover.dataPath.dataPathIdleO (mover.dataPathIn res)

/-- One clock edge. -/
def step (readReqI : ReadReq) (rValidI : Bool) (writeReqI : WriteReq) (wValidI : Bool) :
    AxiDmaDataMover params where
  arEmitter := mover.arEmitter.step readReqI.ar (rValidI && mover.rReadyO) (mover.arEmitterPop res)
  awEmitter := mover.awEmitter.step writeReqI.aw (wValidI && mover.wReadyO) (mover.awEmitterPop res)
  rEmitter := mover.rEmitter.step readReqI.r (rValidI && mover.rReadyO) (mover.rEmitterPop res)
  wEmitter := mover.wEmitter.step writeReqI.w (wValidI && mover.wReadyO) (mover.wEmitterPop res)
  dataPath := mover.dataPath.step (mover.dataPathIn res)
  lastTransactionQueue := mover.lastTransactionQueue.step mover.currentAwReq.last
    (mover.awEmitterPop res) res.bValid

end AxiDmaDataMover

/-! ## The backend -/

structure AxiDmaBackend (params : AxiDmaParams) where
  burstRequestFifo : FifoV3 BurstReq params.transFifoDepth
  burst : BurstDecoupled
  mover : AxiDmaDataMover params
  inFlightQ : Bool

structure AxiDmaBackendIn where
  burstReqI : BurstReq
  validI : Bool
  axiDmaResI : AxiDmaRes

namespace AxiDmaBackend

variable {params : AxiDmaParams}

def reset : AxiDmaBackend params where
  burstRequestFifo := FifoV3.reset params.transFifoDepth_pos
  burst := BurstDecoupled.reset
  mover := AxiDmaDataMover.reset
  inFlightQ := false

variable (backend : AxiDmaBackend params) (inp : AxiDmaBackendIn)

def readyO : Bool := !backend.burstRequestFifo.fullO

def burstReq : BurstReq := backend.burstRequestFifo.dataO

def burstReqEmpty : Bool := backend.burstRequestFifo.emptyO

def transCompleteO : Bool := backend.mover.transCompleteO inp.axiDmaResI

/-- A serialized transfer waits until the one before it is complete. -/
def burstValid : Bool :=
  if backend.burstReq.serialize then
    !backend.burstReqEmpty && (!backend.inFlightQ || backend.transCompleteO inp)
  else !backend.burstReqEmpty

/-- The connections of the reshaper. -/
def reshaperIn : BurstDecoupled.In where
  burstReqI := backend.burstReq
  validI := backend.burstValid inp
  rReadyI := backend.mover.rReadyO
  wReadyI := backend.mover.wReadyO

def burstReqPop : Bool := backend.burst.readyO params (backend.reshaperIn inp)

def backendIdleO : Bool := backend.mover.dataMoverIdleO inp.axiDmaResI

def inFlightD : Bool :=
  if backend.burstReqPop inp && !backend.burstReqEmpty then true
  else if backend.transCompleteO inp then false
  else backend.inFlightQ

/-- One clock edge. -/
def step : AxiDmaBackend params where
  burstRequestFifo := backend.burstRequestFifo.step inp.burstReqI (inp.validI && backend.readyO)
    (backend.burstReqPop inp)
  burst := backend.burst.step params (backend.reshaperIn inp)
  mover := backend.mover.step inp.axiDmaResI (backend.burst.readReqO params)
    (backend.burst.rValidO (backend.reshaperIn inp)) (backend.burst.writeReqO params)
    (backend.burst.wValidO (backend.reshaperIn inp))
  inFlightQ := backend.inFlightD inp

end AxiDmaBackend

def axiDmaBackend (params : AxiDmaParams) : Machine (AxiDmaBackend params) AxiDmaBackendIn where
  reset := AxiDmaBackend.reset
  step := AxiDmaBackend.step

end Pspin
