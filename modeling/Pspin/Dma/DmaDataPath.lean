import Pspin.Clocked.Bursts
import Pspin.CommonCells.FifoV3
import Pspin.Dma.BurstReshaper

/-! # `axi_dma_data_path`

The data of a DMA backend between the read and the write channel of the bus.  A word that is read is
rotated so that its bytes are on the lanes of their targets, and each lane has a FIFO; a word is
written as soon as the lanes it needs have something.  The unit counts the beats of a write burst
by itself, since it need not have as many as the reads it takes its bytes from.

Lanes are numbers below `StrbWidth`.
-/

namespace Pspin

open Clocked

structure AxiDmaDataPath (params : AxiDmaParams) where
  buffer : Nat → FifoV3 (BitVec 8) params.bufferDepth
  isFirstR : Bool
  wNumBeatsQ : Nat
  wCntValidQ : Bool

/-- The inputs: what the emitters request, and the channels of the bus. -/
structure AxiDmaDataPathIn where
  rDpValidI : Bool
  wDpValidI : Bool
  r : DescR
  w : DescW
  rDataI : Nat → BitVec 8
  rValidI : Bool
  rLastI : Bool
  wReadyI : Bool

namespace AxiDmaDataPath

variable {params : AxiDmaParams}

def reset : AxiDmaDataPath params where
  buffer := fun _ => FifoV3.reset params.bufferDepth_pos
  isFirstR := true
  wNumBeatsQ := 0
  wCntValidQ := false

variable (path : AxiDmaDataPath params) (inp : AxiDmaDataPathIn)

/-! ## Read -/

/-- `read_aligned_in_mask` -/
def readAlignedInMask (lane : Nat) : Bool :=
  beatMask inp.r.offset inp.r.tailer path.isFirstR inp.rLastI lane

/-- The lane of the bus whose byte the barrel shifter moves to a lane of the buffer. -/
def unshifted (params : AxiDmaParams) (shift lane : Nat) : Nat := (lane + shift) % params.strbWidth

def bufferIn (params : AxiDmaParams) (inp : AxiDmaDataPathIn) (lane : Nat) : BitVec 8 :=
  inp.rDataI (unshifted params inp.r.shift lane)

def inMask (lane : Nat) : Bool := path.readAlignedInMask inp (unshifted params inp.r.shift lane)

def full : Bool :=
  (List.range params.strbWidth).any fun lane => (path.buffer lane).fullO && path.inMask inp lane

def rReadyO : Bool := !path.full inp

def push : Bool := inp.rValidI && !path.full inp

def bufferPush (lane : Nat) : Bool := path.push inp && path.inMask inp lane

def rDpReadyO : Bool := inp.rDpValidI && inp.rLastI && inp.rValidI && !path.full inp

def isFirstRD : Bool := if inp.rValidI then inp.rLastI else path.isFirstR

/-! ## Write -/

/-- All lanes are empty. -/
def bufferClean : Bool := (List.range params.strbWidth).all fun lane => (path.buffer lane).emptyO

/-- The lanes of a mask have something, and some lane has. -/
def available (mask : Nat → Bool) : Bool :=
  ((List.range params.strbWidth).all fun lane => !mask lane || !(path.buffer lane).emptyO) &&
    !path.bufferClean

def firstPossible : Bool := path.available fun lane => decide (inp.w.offset ≤ lane)

def isFirstW : Bool := if inp.w.isSingle then true else path.firstPossible inp && !path.wCntValidQ

def isLastW : Bool := if inp.w.isSingle then true else path.wCntValidQ && path.wNumBeatsQ == 1

def outMask (lane : Nat) : Bool :=
  beatMask inp.w.offset inp.w.tailer (path.isFirstW inp) (path.isLastW inp) lane

def readyToWrite : Bool := path.available (path.outMask inp)

def writeHappening : Bool := path.readyToWrite inp && inp.wReadyI

def bufferPop (lane : Nat) : Bool := path.writeHappening inp && path.outMask inp lane

def wValidO : Bool := path.readyToWrite inp

def wStrbO (lane : Nat) : Bool := path.readyToWrite inp && path.outMask inp lane

def wDataO (lane : Nat) : BitVec 8 := if path.wStrbO inp lane then (path.buffer lane).dataO else 0

def wLastO : Bool := path.isLastW inp && path.readyToWrite inp

def wDpReadyO : Bool := path.isLastW inp && path.writeHappening inp

def wNumBeatsD : Nat :=
  if inp.w.isSingle then path.wNumBeatsQ
  else if path.wCntValidQ && path.writeHappening inp then decrement 8 path.wNumBeatsQ
  else if path.isFirstW inp && path.writeHappening inp then inp.w.numBeats
  else path.wNumBeatsQ

def wCntValidD : Bool :=
  if inp.w.isSingle then path.wCntValidQ
  else if path.isLastW inp && path.writeHappening inp then false
  else if path.isFirstW inp && path.writeHappening inp then true
  else path.wCntValidQ

def dataPathIdleO : Bool :=
  !(inp.rDpValidI || path.rDpReadyO inp || inp.wDpValidI || path.wDpReadyO inp || !path.bufferClean)

/-- One clock edge. -/
def step : AxiDmaDataPath params where
  buffer := fun lane => (path.buffer lane).step (bufferIn params inp lane) (path.bufferPush inp lane)
    (path.bufferPop inp lane)
  isFirstR := if inp.rValidI && path.rReadyO inp then path.isFirstRD inp else path.isFirstR
  wNumBeatsQ := path.wNumBeatsD inp
  wCntValidQ := path.wCntValidD inp

end AxiDmaDataPath

end Pspin
