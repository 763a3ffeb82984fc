import Pspin.PktScheduler.FifoQueues

/-! # The static share of a queue

Fullness is decided from a counter for each queue and from the dynamic part of the bitmap,
and the cell itself is taken from one pool.  The counters count the static cells each queue
holds, and since they add up to no more than there are, a queue below its share finds one free.
-/

namespace Pspin

open Clocked

namespace FifoEngine

variable {shape : FifoShape} {α : Type}

/-- The cells a queue holds, from its head on. -/
def cellsOf (fifo : FifoEngine shape α) (id : Fin shape.numFifo) : List Nat :=
  if fifo.fifoEmptyQ id then [] else chainFrom fifo.cellsQ shape.totCells (fifo.fifoHeadQ id)

/-- A static cell. -/
def isStatic (shape : FifoShape) (cell : Nat) : Bool := decide (shape.numCells ≤ cell)

/-- What is reserved for the queues, of a pool that stores these lists. -/
structure Reserves (fifo : FifoEngine shape α) (queue : Fin shape.numFifo → List α) : Prop where
  holds : ∀ id, (fifo.cellsOf id).map fifo.fifoData.sram = queue id
  occup : ∀ id, fifo.fifoStaticOccupQ id = (fifo.cellsOf id).countP (isStatic shape)
  marked : ∀ cell < shape.totCells, fifo.freeCellsQ cell = true ↔ ∃ id, cell ∈ fifo.cellsOf id
  free : ∀ inp : FifoEngineIn shape α, fifo.fifoFullO inp.fifoPushIdI = false →
    fifo.pushCellIdx inp < shape.totCells ∧ fifo.freeCellsQ (fifo.pushCellIdx inp) = false ∧
      ∀ id, fifo.pushCellIdx inp ∉ fifo.cellsOf id
  share : ∀ id, (queue id).length < shape.numStaticCellsPerFifo → fifo.fifoFullO id = false

section Reserves

variable {fifo : FifoEngine shape α} {chain : Fin shape.numFifo → List Nat}
  {queue : Fin shape.numFifo → List α}

/-- A chain is no longer than the pool. -/
theorem Stores.chain_length_le (stores : fifo.Stores chain queue) (id : Fin shape.numFifo) :
    (chain id).length ≤ shape.totCells := by
  have within : chain id ⊆ List.range shape.totCells := by
    intro cell member
    exact List.mem_range.mpr (stores.bounded id cell member)
  simpa using ((stores.nodup id).subperm within).length_le

theorem Stores.cellsOf_eq (stores : fifo.Stores chain queue) (id : Fin shape.numFifo) :
    fifo.cellsOf id = chain id := by
  rw [cellsOf, stores.empty]
  cases chained : chain id with
  | nil => rfl
  | cons cell rest =>
    have linked : Linked fifo.cellsQ (cell :: rest) := chained ▸ stores.linked id
    have enough : (cell :: rest).length ≤ shape.totCells := chained ▸ stores.chain_length_le id
    rw [stores.head id cell rest chained]
    exact linked.chainFrom_eq enough

theorem Stores.reserves (stores : fifo.Stores chain queue) : fifo.Reserves queue where
  holds id := by
    rw [stores.cellsOf_eq]
    exact stores.data id
  occup id := by
    rw [stores.cellsOf_eq]
    exact stores.occup id
  marked cell inside := by
    simp only [stores.cellsOf_eq]
    exact stores.marked cell inside
  free inp notFull := by
    obtain ⟨inside, free, -⟩ := pushCellIdx_free stores notFull
    refine ⟨inside, free, fun id member => ?_⟩
    rw [stores.cellsOf_eq] at member
    rw [(stores.marked _ inside).mpr ⟨id, member⟩] at free
    cases free
  share id short := by
    have occup : fifo.fifoStaticOccupQ id ≤ (queue id).length := by
      rw [stores.occup, ← stores.data id, List.length_map]
      exact List.countP_le_length
    have unequal : fifo.fifoStaticOccupQ id ≠ shape.numStaticCellsPerFifo := by omega
    rw [fifoFullO, decide_eq_false unequal, Bool.and_false]

end Reserves

end FifoEngine

/-- In every state that a pool reaches by pushes to queues that are not full and pops of queues
    that are not empty: the counters count the static cells held, the bitmap marks the cells
    held, a queue that is not full has a free cell, and below its share none is full. -/
theorem fifoEngine_reserves (shape : FifoShape) {α : Type} (sram : Nat → α)
    (inputs : List (FifoEngineIn shape α))
    (permitted : (fifoEngineBank shape sram).Admits
      (fun state inp => state.1.Permits state.2.queue inp) inputs) :
    ((fifoEngineBank shape sram).run inputs).1.Reserves
      ((fifoEngineBank shape sram).run inputs).2.queue := by
  have represents := permitted.invariant (fun state => state.1.Represents state.2.queue)
    ⟨_, FifoEngine.stores_reset sram⟩ fun _ _ represents permits => represents.step permits
  obtain ⟨chain, stores⟩ := represents
  exact stores.reserves

/-- Queue 0 takes its static cell and both dynamic ones, then one leaves as another arrives. -/
theorem fifoEngine_reserves_others : ∃ inputs : List (FifoEngineIn ⟨2, 2, 1⟩ Nat),
    let state := (fifoEngineBank ⟨2, 2, 1⟩ fun _ => 0).run inputs
    state.1.fifoFullO 0 = true ∧ state.1.fifoFullO 1 = false ∧
      state.1.Reserves state.2.queue := by
  refine ⟨[⟨5, true, 0, false, 0⟩, ⟨6, true, 0, false, 0⟩, ⟨7, true, 0, true, 0⟩,
    ⟨8, true, 0, false, 0⟩], by decide, by decide, fifoEngine_reserves _ _ _ (by decide)⟩

end Pspin
