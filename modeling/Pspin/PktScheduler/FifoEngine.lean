import Pspin.Clocked.Chain
import Pspin.Clocked.Machine
import Pspin.CommonCells.Lzc
import Pspin.CommonCells.TcSram

/-! # `fifo_engine`

`NUM_FIFO` queues in one pool of linked cells: `NUM_CELLS` cells any queue may
take and `NUM_STATIC_CELLS_PER_FIFO` for each queue that only it may count on.
A queue is a head, a last cell and an empty flag; `free_cells` has a bit set for
every cell in use.  Cells and queues are numbered as in the source, the dynamic
cells first.
-/

namespace Pspin

open Clocked

/-- The parameters of `fifo_engine`. -/
structure FifoShape where
  numCells : Nat
  numFifo : Nat
  numStaticCellsPerFifo : Nat

namespace FifoShape

variable (shape : FifoShape)

def totStaticCells : Nat := shape.numStaticCellsPerFifo * shape.numFifo
def totCells : Nat := shape.totStaticCells + shape.numCells
def cellIdWidth : Nat := clog2 shape.totCells
def occupWidth : Nat := clog2 shape.numStaticCellsPerFifo + 1

end FifoShape

/-- The registers and the data memory of `fifo_engine`. -/
structure FifoEngine (shape : FifoShape) (α : Type) where
  cellsQ : Nat → Cell
  freeCellsQ : Nat → Bool
  fifoHeadQ : Fin shape.numFifo → Nat
  fifoLastQ : Fin shape.numFifo → Nat
  fifoEmptyQ : Fin shape.numFifo → Bool
  fifoStaticOccupQ : Fin shape.numFifo → Nat
  fifoData : TcSram Nat α

structure FifoEngineIn (shape : FifoShape) (α : Type) where
  newElI : α
  pushI : Bool
  fifoPushIdI : Fin shape.numFifo
  popI : Bool
  fifoPopIdI : Fin shape.numFifo

namespace FifoEngine

variable {shape : FifoShape} {α : Type}

def reset (sram : Nat → α) : FifoEngine shape α where
  cellsQ := fun _ => ⟨0, false⟩
  freeCellsQ := fun _ => false
  fifoHeadQ := fun _ => 0
  fifoLastQ := fun _ => 0
  fifoEmptyQ := fun _ => true
  fifoStaticOccupQ := fun _ => 0
  fifoData := TcSram.reset sram 0

variable (fifo : FifoEngine shape α) (inp : FifoEngineIn shape α)

/-! ## Free cells -/

def freeDynamicCellIdx : Nat := lzcCnt shape.numCells fun k => !fifo.freeCellsQ k

def noFreeDynamicCells : Bool := lzcEmpty shape.numCells fun k => !fifo.freeCellsQ k

def freeStaticCellIdxLzc : Nat :=
  lzcCnt shape.totStaticCells fun k => !fifo.freeCellsQ (shape.numCells + k)

def freeStaticCellIdx : Nat :=
  truncate shape.cellIdWidth (fifo.freeStaticCellIdxLzc + shape.numCells)

def fifoFullO (id : Fin shape.numFifo) : Bool :=
  fifo.noFreeDynamicCells && decide (fifo.fifoStaticOccupQ id = shape.numStaticCellsPerFifo)

def dataO : α := fifo.fifoData.rdataQ

/-! ## Occupation -/

def pushingToStatic : Bool :=
  decide (fifo.fifoStaticOccupQ inp.fifoPushIdI < shape.numStaticCellsPerFifo)

def pushCellIdx : Nat :=
  if fifo.pushingToStatic inp then fifo.freeStaticCellIdx else fifo.freeDynamicCellIdx

def popCellIdx : Nat := fifo.fifoHeadQ inp.fifoPopIdI

def poppingFromStatic : Bool := decide (shape.numCells ≤ fifo.fifoHeadQ inp.fifoPopIdI)

def freeCellsD : Nat → Bool :=
  let pushed := if inp.pushI then Function.update fifo.freeCellsQ (fifo.pushCellIdx inp) true
    else fifo.freeCellsQ
  if inp.popI then Function.update pushed (fifo.fifoHeadQ inp.fifoPopIdI) false else pushed

def fifoStaticOccupD : Fin shape.numFifo → Nat :=
  let occup := fifo.fifoStaticOccupQ
  let pushId := inp.fifoPushIdI
  let popId := inp.fifoPopIdI
  if inp.pushI && inp.popI && decide (pushId = popId) then
    -- special case: we are pushing and popping from the same queue
    match fifo.pushingToStatic inp, fifo.poppingFromStatic inp with
    | true, false => Function.update occup pushId (increment shape.occupWidth (occup pushId))
    | false, true => Function.update occup pushId (decrement shape.occupWidth (occup pushId))
    | _, _ => occup
  else
    let pushed := if inp.pushI && fifo.pushingToStatic inp then
        Function.update occup pushId (increment shape.occupWidth (occup pushId))
      else occup
    if inp.popI && fifo.poppingFromStatic inp then
      Function.update pushed popId (decrement shape.occupWidth (occup popId))
    else pushed

/-! ## Pointers -/

/-- The pushed element takes the place of the popped one, the only one of its queue. -/
def replacesOnly : Bool :=
  inp.pushI && inp.popI && decide (inp.fifoPushIdI = inp.fifoPopIdI) &&
    (fifo.cellsQ (fifo.fifoHeadQ inp.fifoPushIdI)).isLast

def fifoLastD : Fin shape.numFifo → Nat :=
  if inp.pushI then Function.update fifo.fifoLastQ inp.fifoPushIdI (fifo.pushCellIdx inp)
  else fifo.fifoLastQ

def cellsD : Nat → Cell :=
  let pushCell := fifo.pushCellIdx inp
  let last := fifo.fifoLastQ inp.fifoPushIdI
  if fifo.replacesOnly inp then setIsLast fifo.cellsQ pushCell true
  else if inp.pushI then
    let marked := setIsLast fifo.cellsQ pushCell true
    if fifo.fifoEmptyQ inp.fifoPushIdI then marked
    else setIsLast (setNext marked last pushCell) last false
  else fifo.cellsQ

def fifoHeadD : Fin shape.numFifo → Nat :=
  let head := fifo.fifoHeadQ
  if fifo.replacesOnly inp then Function.update head inp.fifoPopIdI (fifo.pushCellIdx inp)
  else
    let pushed := if inp.pushI && fifo.fifoEmptyQ inp.fifoPushIdI then
        Function.update head inp.fifoPushIdI (fifo.pushCellIdx inp)
      else head
    if inp.popI then
      Function.update pushed inp.fifoPopIdI (fifo.cellsQ (head inp.fifoPopIdI)).next
    else pushed

def fifoEmptyD : Fin shape.numFifo → Bool :=
  let empty := fifo.fifoEmptyQ
  if fifo.replacesOnly inp then empty
  else
    let pushed := if inp.pushI && empty inp.fifoPushIdI then
        Function.update empty inp.fifoPushIdI false
      else empty
    if inp.popI then
      Function.update pushed inp.fifoPopIdI
        (fifo.cellsQ (fifo.fifoHeadQ inp.fifoPopIdI)).isLast
    else pushed

/-- One clock edge. -/
def step : FifoEngine shape α where
  cellsQ := fifo.cellsD inp
  freeCellsQ := fifo.freeCellsD inp
  fifoHeadQ := fifo.fifoHeadD inp
  fifoLastQ := fifo.fifoLastD inp
  fifoEmptyQ := fifo.fifoEmptyD inp
  fifoStaticOccupQ := fifo.fifoStaticOccupD inp
  fifoData := fifo.fifoData.step true (fifo.popCellIdx inp) inp.pushI (fifo.pushCellIdx inp) inp.newElI

end FifoEngine

/-- `fifo_engine` with some contents of its data memory at power-up. -/
def fifoEngine (shape : FifoShape) {α : Type} (sram : Nat → α) :
    Machine (FifoEngine shape α) (FifoEngineIn shape α) where
  reset := FifoEngine.reset sram
  step := FifoEngine.step

end Pspin
