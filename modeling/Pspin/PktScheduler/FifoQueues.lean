import Pspin.PktScheduler.FifoEngine
import Mathlib.Algebra.BigOperators.Group.Finset.Basic
import Mathlib.Algebra.Order.BigOperators.Group.Finset
import Mathlib.Data.Fintype.Basic
import Mathlib.Order.Interval.Finset.Nat

/-! # `fifo_engine` refines independent queues

The abstract model is one list per queue id.  The refinement relation keeps, for
each id, the chain of cells that spells out its list: chains are linked, disjoint
and made of exactly the cells marked in use, and the static occupation counts the
static cells of a chain.  The step lemma covers every coincidence of a push and a
pop, the replacement of an only element included.
-/

namespace Pspin

open Clocked

/-- One cycle of a list: drop the front if it is popped, then append what is pushed. -/
def turn {β : Type} (popped pushed : Bool) (fresh : β) (list : List β) : List β :=
  (if popped then list.tail else list) ++ (if pushed then [fresh] else [])

theorem map_turn {β γ : Type} {f g : β → γ} {fresh : β} {list : List β}
    (agree : ∀ item ∈ list, g item = f item) (popped pushed : Bool) :
    (turn popped pushed fresh list).map g = turn popped pushed (g fresh) (list.map f) := by
  have same : list.map g = list.map f := List.map_congr_left agree
  cases popped <;> cases pushed <;> simp [turn, same, List.map_tail]

theorem mem_turn {β : Type} {popped pushed : Bool} {fresh item : β} {list : List β}
    (member : item ∈ turn popped pushed fresh list) :
    item ∈ list ∨ (pushed = true ∧ item = fresh) := by
  cases popped <;> cases pushed <;> simp [turn] at member ⊢
  · exact member
  · exact member
  · exact List.mem_of_mem_tail member
  · exact member.imp_left List.mem_of_mem_tail

/-- One list per queue, and the element `data_o` shows, if the id presented in the
    last cycle named a queue that was not empty. -/
structure QueueBank (shape : FifoShape) (α : Type) where
  queue : Fin shape.numFifo → List α
  shown : Option α

namespace FifoEngineIn

variable {shape : FifoShape} {α : Type} (inp : FifoEngineIn shape α)

def pops (id : Fin shape.numFifo) : Bool := inp.popI && decide (inp.fifoPopIdI = id)

def pushes (id : Fin shape.numFifo) : Bool := inp.pushI && decide (inp.fifoPushIdI = id)

end FifoEngineIn

namespace QueueBank

variable {shape : FifoShape} {α : Type}

def empty : QueueBank shape α where
  queue := fun _ => []
  shown := none

def step (bank : QueueBank shape α) (inp : FifoEngineIn shape α) : QueueBank shape α where
  queue := fun id => turn (inp.pops id) (inp.pushes id) inp.newElI (bank.queue id)
  shown := (bank.queue inp.fifoPopIdI).head?

end QueueBank

namespace FifoEngine

variable {shape : FifoShape} {α : Type}

/-- `chain` is how the pool stores the lists `queue`. -/
structure Stores (fifo : FifoEngine shape α) (chain : Fin shape.numFifo → List Nat)
    (queue : Fin shape.numFifo → List α) : Prop where
  linked : ∀ id, Linked fifo.cellsQ (chain id)
  head : ∀ id cell rest, chain id = cell :: rest → fifo.fifoHeadQ id = cell
  last : ∀ id, chain id ≠ [] → (chain id).getLast? = some (fifo.fifoLastQ id)
  empty : ∀ id, fifo.fifoEmptyQ id = (chain id).isEmpty
  nodup : ∀ id, (chain id).Nodup
  disjoint : ∀ id other cell, cell ∈ chain id → cell ∈ chain other → id = other
  bounded : ∀ id, ∀ cell ∈ chain id, cell < shape.totCells
  marked : ∀ cell < shape.totCells, fifo.freeCellsQ cell = true ↔ ∃ id, cell ∈ chain id
  data : ∀ id, (chain id).map fifo.fifoData.sram = queue id
  occup : ∀ id, fifo.fifoStaticOccupQ id = (chain id).countP fun cell => shape.numCells ≤ cell
  occup_le : ∀ id, fifo.fifoStaticOccupQ id ≤ shape.numStaticCellsPerFifo

/-- The state of the pool represents these lists. -/
def Represents (fifo : FifoEngine shape α) (queue : Fin shape.numFifo → List α) : Prop :=
  ∃ chain, fifo.Stores chain queue

/-- A push needs a queue that is not full, a pop one that is not empty. -/
def Permits (fifo : FifoEngine shape α) (queue : Fin shape.numFifo → List α)
    (inp : FifoEngineIn shape α) : Prop :=
  (inp.pushI = true → fifo.fifoFullO inp.fifoPushIdI = false) ∧
  (inp.popI = true → queue inp.fifoPopIdI ≠ [])

instance (fifo : FifoEngine shape α) (queue : Fin shape.numFifo → List α)
    (inp : FifoEngineIn shape α) : Decidable (fifo.Permits queue inp) :=
  have : Decidable (queue inp.fifoPopIdI ≠ []) :=
    decidable_of_iff ((queue inp.fifoPopIdI).isEmpty = false) (by simp)
  inferInstanceAs (Decidable (_ ∧ _))

theorem stores_reset (sram : Nat → α) :
    (reset sram : FifoEngine shape α).Stores (fun _ => []) (fun _ => []) where
  linked _ := trivial
  head _ _ _ holds := by cases holds
  last _ nonempty := absurd rfl nonempty
  empty _ := rfl
  nodup _ := List.nodup_nil
  disjoint _ _ _ member := by cases member
  bounded _ _ member := by cases member
  marked _ _ := by simp [reset]
  data _ := rfl
  occup _ := rfl
  occup_le _ := Nat.zero_le _

/-! ## The cell a push takes -/

section PushCell

variable {fifo : FifoEngine shape α} {chain : Fin shape.numFifo → List Nat}
  {queue : Fin shape.numFifo → List α} {inp : FifoEngineIn shape α}

/-- A queue below its static share finds a free static cell: with all of them in
    use the queues would hold more static cells than their shares add up to. -/
theorem exists_free_static (stores : fifo.Stores chain queue) {id : Fin shape.numFifo}
    (below : fifo.fifoStaticOccupQ id < shape.numStaticCellsPerFifo) :
    ∃ k < shape.totStaticCells, fifo.freeCellsQ (shape.numCells + k) = false := by
  by_contra full
  simp only [not_exists, not_and, Bool.not_eq_false] at full
  let statics (other : Fin shape.numFifo) : Finset Nat :=
    ((chain other).filter fun cell => shape.numCells ≤ cell).toFinset
  have covered : Finset.Ico shape.numCells shape.totCells ⊆ Finset.univ.biUnion statics := by
    intro cell member
    obtain ⟨low, high⟩ := Finset.mem_Ico.mp member
    obtain ⟨k, rfl⟩ := Nat.exists_eq_add_of_le low
    have used := full k (by simp only [FifoShape.totCells] at high; omega)
    obtain ⟨other, inChain⟩ := (stores.marked _ high).mp used
    simp only [statics, Finset.mem_biUnion, Finset.mem_univ, List.mem_toFinset, true_and]
    exact ⟨other, List.mem_filter.mpr ⟨inChain, by simp⟩⟩
  have card (other : Fin shape.numFifo) : (statics other).card ≤ fifo.fifoStaticOccupQ other := by
    rw [stores.occup, List.countP_eq_length_filter]
    exact List.toFinset_card_le _
  have tooMany : shape.totStaticCells < shape.totStaticCells :=
    calc shape.totStaticCells
        = (Finset.Ico shape.numCells shape.totCells).card := by
          simp [FifoShape.totCells]
      _ ≤ (Finset.univ.biUnion statics).card := Finset.card_le_card covered
      _ ≤ ∑ other, (statics other).card := Finset.card_biUnion_le
      _ ≤ ∑ other, fifo.fifoStaticOccupQ other := Finset.sum_le_sum fun other _ => card other
      _ < ∑ _other : Fin shape.numFifo, shape.numStaticCellsPerFifo :=
          Finset.sum_lt_sum (fun other _ => stores.occup_le other) ⟨id, Finset.mem_univ _, below⟩
      _ = shape.totStaticCells := by
          simp [FifoShape.totStaticCells, Nat.mul_comm]
  exact lt_irrefl _ tooMany

/-- The cell of a permitted push is free, in the pool, and static exactly when the
    queue is below its static share. -/
theorem pushCellIdx_free (stores : fifo.Stores chain queue)
    (notFull : fifo.fifoFullO inp.fifoPushIdI = false) :
    fifo.pushCellIdx inp < shape.totCells ∧ fifo.freeCellsQ (fifo.pushCellIdx inp) = false ∧
      decide (shape.numCells ≤ fifo.pushCellIdx inp) = fifo.pushingToStatic inp := by
  unfold pushCellIdx
  cases static : fifo.pushingToStatic inp with
  | true =>
    have below : fifo.fifoStaticOccupQ inp.fifoPushIdI < shape.numStaticCellsPerFifo := by
      simpa [pushingToStatic] using static
    obtain ⟨k, bound, free⟩ := exists_free_static stores below
    have found : lzcEmpty shape.totStaticCells
        (fun k => !fifo.freeCellsQ (shape.numCells + k)) = false :=
      lzcEmpty_eq_false.mpr ⟨k, bound, by simp [free]⟩
    have index : fifo.freeStaticCellIdx = fifo.freeStaticCellIdxLzc + shape.numCells := by
      have inPool : fifo.freeStaticCellIdxLzc + shape.numCells < shape.totCells := by
        have := lzcCnt_lt found
        simp only [FifoShape.totCells, freeStaticCellIdxLzc]; omega
      exact truncate_of_lt (inPool.trans_le (le_two_pow_clog2 _))
    have free' := lzcCnt_set found
    have bound' := lzcCnt_lt found
    simp only [if_true, index, freeStaticCellIdxLzc, FifoShape.totCells]
    refine ⟨by omega, ?_, by simp⟩
    rw [Nat.add_comm]
    simpa using free'
  | false =>
    have share : fifo.fifoStaticOccupQ inp.fifoPushIdI = shape.numStaticCellsPerFifo := by
      have := stores.occup_le inp.fifoPushIdI
      simp only [pushingToStatic, decide_eq_false_iff_not] at static
      omega
    have found : lzcEmpty shape.numCells (fun k => !fifo.freeCellsQ k) = false := by
      simpa [fifoFullO, noFreeDynamicCells, share] using notFull
    have free' := lzcCnt_set found
    have bound' := lzcCnt_lt found
    simp only [Bool.false_eq_true, if_false, freeDynamicCellIdx, FifoShape.totCells]
    exact ⟨by omega, by simpa using free', by simpa using bound'⟩

end PushCell

/-! ## One cycle -/

section Cycle

variable {fifo : FifoEngine shape α} {chain : Fin shape.numFifo → List Nat}
  {queue : Fin shape.numFifo → List α} {inp : FifoEngineIn shape α}

theorem push_fresh (stores : fifo.Stores chain queue) (permits : fifo.Permits queue inp)
    (pushing : inp.pushI = true) (id : Fin shape.numFifo) : fifo.pushCellIdx inp ∉ chain id := by
  obtain ⟨bound, free, -⟩ := pushCellIdx_free stores (permits.1 pushing)
  intro member
  have used := (stores.marked _ bound).mpr ⟨id, member⟩
  rw [free] at used
  cases used

theorem chain_ne_nil (stores : fifo.Stores chain queue) {id : Fin shape.numFifo}
    (nonempty : queue id ≠ []) : chain id ≠ [] := by
  intro none
  exact nonempty (by rw [← stores.data id, none]; rfl)

/-- The replacement case is a push and a pop on a queue of one cell. -/
theorem replacesOnly_iff (stores : fifo.Stores chain queue) (permits : fifo.Permits queue inp) :
    fifo.replacesOnly inp = true ↔
      inp.pushes inp.fifoPopIdI = true ∧ inp.popI = true ∧
        ∃ cell, chain inp.fifoPopIdI = [cell] := by
  simp only [replacesOnly, FifoEngineIn.pushes, Bool.and_eq_true, decide_eq_true_eq]
  constructor
  · rintro ⟨⟨⟨pushing, popping⟩, same⟩, last⟩
    refine ⟨⟨pushing, same⟩, popping, ?_⟩
    rw [same] at last
    cases chained : chain inp.fifoPopIdI with
    | nil => exact absurd chained (chain_ne_nil stores (permits.2 popping))
    | cons cell rest =>
      have linked : Linked fifo.cellsQ (cell :: rest) := chained ▸ stores.linked inp.fifoPopIdI
      rw [stores.head _ _ _ chained, linked.isLast_head] at last
      rw [List.isEmpty_iff.mp last]
      exact ⟨cell, rfl⟩
  · rintro ⟨⟨pushing, same⟩, popping, cell, chained⟩
    refine ⟨⟨⟨pushing, popping⟩, same⟩, ?_⟩
    have linked : Linked fifo.cellsQ [cell] := chained ▸ stores.linked inp.fifoPopIdI
    rw [same, stores.head _ _ _ chained, linked.isLast_head]
    rfl

/-- A queue nothing is pushed to keeps its cells. -/
theorem cellsD_agree (stores : fifo.Stores chain queue) (permits : fifo.Permits queue inp)
    {id : Fin shape.numFifo} (quiet : inp.pushes id = false) {cell : Nat} (member : cell ∈ chain id) :
    fifo.cellsD inp cell = fifo.cellsQ cell := by
  cases pushing : inp.pushI with
  | false => simp [cellsD, replacesOnly, pushing]
  | true =>
    have other : inp.fifoPushIdI ≠ id := by simpa [FifoEngineIn.pushes, pushing] using quiet
    have notFresh : cell ≠ fifo.pushCellIdx inp := by
      rintro rfl
      exact push_fresh stores permits pushing id member
    have notLast : fifo.fifoEmptyQ inp.fifoPushIdI = false → cell ≠ fifo.fifoLastQ inp.fifoPushIdI := by
      rintro nonempty rfl
      have chained : chain inp.fifoPushIdI ≠ [] := by
        simpa [stores.empty, List.isEmpty_eq_false_iff] using nonempty
      have inOther := List.mem_of_getLast? (stores.last _ chained)
      exact other (stores.disjoint _ _ _ inOther member)
    simp only [cellsD, pushing, if_true]
    split
    · rw [setIsLast_of_ne _ _ notFresh]
    · split
      · rw [setIsLast_of_ne _ _ notFresh]
      next nonempty =>
        have apart := notLast (by simpa using nonempty)
        rw [setIsLast_of_ne _ _ apart, setNext_of_ne _ _ apart, setIsLast_of_ne _ _ notFresh]

/-- The cell an element is pushed into ends its queue. -/
theorem cellsD_fresh (stores : fifo.Stores chain queue) (permits : fifo.Permits queue inp)
    (pushing : inp.pushI = true) : (fifo.cellsD inp (fifo.pushCellIdx inp)).isLast = true := by
  simp only [cellsD, pushing, if_true]
  split
  · simp
  · split
    · simp
    next nonempty =>
      have chained : chain inp.fifoPushIdI ≠ [] := by
        simpa [stores.empty, List.isEmpty_iff] using nonempty
      have notLast : fifo.pushCellIdx inp ≠ fifo.fifoLastQ inp.fifoPushIdI := by
        intro same
        exact push_fresh stores permits pushing _
          (same ▸ List.mem_of_getLast? (stores.last _ chained))
      rw [setIsLast_of_ne _ _ notLast, setNext_of_ne _ _ notLast]
      simp

/-- What remains of a queue an element is pushed to is redirected to the new cell. -/
theorem linked_pushed (stores : fifo.Stores chain queue) (permits : fifo.Permits queue inp)
    (pushing : inp.pushI = true) {rest : List Nat} (chained : rest ≠ [])
    (suffix : ∃ before, chain inp.fifoPushIdI = before ++ rest)
    (linked : Linked fifo.cellsQ rest) (keeps : fifo.replacesOnly inp = false) :
    Linked (fifo.cellsD inp) (rest ++ [fifo.pushCellIdx inp]) := by
  obtain ⟨before, split⟩ := suffix
  have whole : chain inp.fifoPushIdI ≠ [] := by simp [split, chained]
  have nonempty : fifo.fifoEmptyQ inp.fifoPushIdI = false := by
    simp [stores.empty, List.isEmpty_eq_false_iff, whole]
  have last : rest.getLast? = some (fifo.fifoLastQ inp.fifoPushIdI) := by
    have := stores.last _ whole
    rwa [split, List.getLast?_append_of_ne_nil _ chained] at this
  have fresh := push_fresh stores permits pushing inp.fifoPushIdI
  have notFresh : ∀ cell ∈ rest, cell ≠ fifo.pushCellIdx inp := by
    rintro cell member rfl
    exact fresh (by simp [split, member])
  have cells : fifo.cellsD inp =
      setIsLast (setNext (setIsLast fifo.cellsQ (fifo.pushCellIdx inp) true)
        (fifo.fifoLastQ inp.fifoPushIdI) (fifo.pushCellIdx inp))
        (fifo.fifoLastQ inp.fifoPushIdI) false := by
    simp [cellsD, keeps, pushing, nonempty]
  apply linked.append (split ▸ stores.nodup inp.fifoPushIdI).of_append_right last
  · intro cell member ne
    rw [cells, setIsLast_of_ne _ _ ne, setNext_of_ne _ _ ne,
      setIsLast_of_ne _ _ (notFresh cell member)]
  · simp [cells]
  · exact cellsD_fresh stores permits pushing

theorem linked_step (stores : fifo.Stores chain queue) (permits : fifo.Permits queue inp)
    (id : Fin shape.numFifo) :
    Linked (fifo.cellsD inp)
      (turn (inp.pops id) (inp.pushes id) (fifo.pushCellIdx inp) (chain id)) := by
  have linked := stores.linked id
  cases pushed : inp.pushes id with
  | false =>
    have kept : Linked (fifo.cellsD inp) (chain id) :=
      linked.congr fun cell member => cellsD_agree stores permits pushed member
    cases popped : inp.pops id with
    | false => simpa [turn] using kept
    | true =>
      cases chained : chain id with
      | nil => trivial
      | cons cell rest => simpa [turn] using (chained ▸ kept).tail
  | true =>
    obtain ⟨pushing, rfl⟩ : inp.pushI = true ∧ inp.fifoPushIdI = id := by
      simpa [FifoEngineIn.pushes] using pushed
    have ended := cellsD_fresh stores permits pushing
    cases popped : inp.pops inp.fifoPushIdI with
    | false =>
      have keeps : fifo.replacesOnly inp = false := by
        rw [← Bool.not_eq_true, replacesOnly_iff stores permits]
        rintro ⟨same, popping, -⟩
        simp [FifoEngineIn.pops, FifoEngineIn.pushes, popping] at popped same
        exact popped same.2.symm
      by_cases chained : chain inp.fifoPushIdI = []
      · simpa [turn, chained, Linked] using ended
      · simpa [turn] using linked_pushed stores permits pushing chained ⟨[], rfl⟩ linked keeps
    | true =>
      obtain ⟨popping, same⟩ : inp.popI = true ∧ inp.fifoPopIdI = inp.fifoPushIdI := by
        simpa [FifoEngineIn.pops] using popped
      cases chained : chain inp.fifoPushIdI with
      | nil => exact absurd chained (chain_ne_nil stores (same ▸ permits.2 popping))
      | cons cell rest =>
        -- the only cell leaves while another one comes: there is nothing to link it to
        by_cases only : rest = []
        · simpa [turn, only, Linked] using ended
        · have keeps : fifo.replacesOnly inp = false := by
            rw [← Bool.not_eq_true, replacesOnly_iff stores permits]
            rintro ⟨-, -, single, alone⟩
            rw [same, chained] at alone
            exact only (List.cons.inj alone).2
          have tailLinked := (chained ▸ linked).tail
          simpa [turn] using
            linked_pushed stores permits pushing only ⟨[cell], by simp [chained]⟩ tailLinked keeps

/-! ## The registers of one queue

What a cycle makes of the registers of a queue depends only on whether it is
popped and whether it is pushed to.
-/

theorem fifoHeadD_eq (id : Fin shape.numFifo) :
    fifo.fifoHeadD inp id =
      if inp.pushes id && (if inp.pops id then (fifo.cellsQ (fifo.fifoHeadQ id)).isLast
          else fifo.fifoEmptyQ id) then fifo.pushCellIdx inp
      else if inp.pops id then (fifo.cellsQ (fifo.fifoHeadQ id)).next
      else fifo.fifoHeadQ id := by
  simp only [fifoHeadD, replacesOnly, FifoEngineIn.pushes, FifoEngineIn.pops]
  grind [Function.update_apply]

theorem fifoEmptyD_eq (id : Fin shape.numFifo) :
    fifo.fifoEmptyD inp id =
      if inp.pops id then
        if inp.pushes id && (fifo.cellsQ (fifo.fifoHeadQ id)).isLast then fifo.fifoEmptyQ id
        else (fifo.cellsQ (fifo.fifoHeadQ id)).isLast
      else if inp.pushes id then false else fifo.fifoEmptyQ id := by
  simp only [fifoEmptyD, replacesOnly, FifoEngineIn.pushes, FifoEngineIn.pops]
  grind [Function.update_apply]

theorem fifoLastD_eq (id : Fin shape.numFifo) :
    fifo.fifoLastD inp id = if inp.pushes id then fifo.pushCellIdx inp else fifo.fifoLastQ id := by
  simp only [fifoLastD, FifoEngineIn.pushes]
  grind [Function.update_apply]

theorem fifoStaticOccupD_eq (id : Fin shape.numFifo) :
    fifo.fifoStaticOccupD inp id =
      match inp.pushes id && fifo.pushingToStatic inp, inp.pops id && fifo.poppingFromStatic inp with
      | true, false => increment shape.occupWidth (fifo.fifoStaticOccupQ id)
      | false, true => decrement shape.occupWidth (fifo.fifoStaticOccupQ id)
      | _, _ => fifo.fifoStaticOccupQ id := by
  simp only [fifoStaticOccupD, FifoEngineIn.pushes, FifoEngineIn.pops]
  obtain pushing | pushing := Bool.eq_false_or_eq_true (fifo.pushingToStatic inp) <;>
    obtain popping | popping := Bool.eq_false_or_eq_true (fifo.poppingFromStatic inp) <;>
    simp only [pushing, popping] <;> grind [Function.update_apply]

theorem nonempty_of_pops (permits : fifo.Permits queue inp) {id : Fin shape.numFifo}
    (popped : inp.pops id = true) : queue id ≠ [] := by
  obtain ⟨popping, rfl⟩ : inp.popI = true ∧ inp.fifoPopIdI = id := by
    simpa [FifoEngineIn.pops] using popped
  exact permits.2 popping

theorem fresh_of_pushes (stores : fifo.Stores chain queue) (permits : fifo.Permits queue inp)
    {id : Fin shape.numFifo} (pushed : inp.pushes id = true) (other : Fin shape.numFifo) :
    fifo.pushCellIdx inp ∉ chain other := by
  have pushing : inp.pushI = true := by
    simp only [FifoEngineIn.pushes, Bool.and_eq_true] at pushed
    exact pushed.1
  exact push_fresh stores permits pushing other

theorem head_step (stores : fifo.Stores chain queue) (permits : fifo.Permits queue inp)
    (id : Fin shape.numFifo) (cell : Nat) (rest : List Nat)
    (chained : turn (inp.pops id) (inp.pushes id) (fifo.pushCellIdx inp) (chain id) = cell :: rest) :
    fifo.fifoHeadD inp id = cell := by
  have linked := stores.linked id
  have head := stores.head id
  rw [fifoHeadD_eq, stores.empty id]
  cases popped : inp.pops id with
  | false =>
    cases before : chain id with
    | nil => cases pushed : inp.pushes id <;> simp_all [turn]
    | cons first others => cases pushed : inp.pushes id <;> simp_all [turn]
  | true =>
    cases before : chain id with
    | nil => exact absurd before (chain_ne_nil stores (nonempty_of_pops permits popped))
    | cons first others =>
      rw [before] at linked
      rw [head first others before, linked.isLast_head]
      cases others with
      | nil => cases pushed : inp.pushes id <;> simp_all [turn]
      | cons second others =>
        rw [linked.next_head]
        cases pushed : inp.pushes id <;> simp_all [turn]

theorem last_step (stores : fifo.Stores chain queue) (id : Fin shape.numFifo)
    (nonempty : turn (inp.pops id) (inp.pushes id) (fifo.pushCellIdx inp) (chain id) ≠ []) :
    (turn (inp.pops id) (inp.pushes id) (fifo.pushCellIdx inp) (chain id)).getLast? =
      some (fifo.fifoLastD inp id) := by
  rw [fifoLastD_eq]
  cases pushed : inp.pushes id with
  | true => simp [turn]
  | false =>
    cases popped : inp.pops id with
    | false =>
      simp only [turn, popped, pushed, Bool.false_eq_true, if_false, List.append_nil] at nonempty ⊢
      exact stores.last id nonempty
    | true =>
      cases before : chain id with
      | nil => simp [turn, popped, pushed, before] at nonempty
      | cons first others =>
        have tailNonempty : others ≠ [] := by simpa [turn, popped, pushed, before] using nonempty
        have last := stores.last id (by simp [before])
        obtain ⟨second, others, rfl⟩ := List.exists_cons_of_ne_nil tailNonempty
        simpa [turn, before, List.getLast?_cons_cons] using last

theorem empty_step (stores : fifo.Stores chain queue) (permits : fifo.Permits queue inp)
    (id : Fin shape.numFifo) :
    fifo.fifoEmptyD inp id =
      (turn (inp.pops id) (inp.pushes id) (fifo.pushCellIdx inp) (chain id)).isEmpty := by
  have linked := stores.linked id
  rw [fifoEmptyD_eq, stores.empty id]
  cases popped : inp.pops id with
  | false => cases pushed : inp.pushes id <;> simp [turn]
  | true =>
    cases before : chain id with
    | nil => exact absurd before (chain_ne_nil stores (nonempty_of_pops permits popped))
    | cons first others =>
      rw [before] at linked
      rw [stores.head id first others before, linked.isLast_head]
      cases pushed : inp.pushes id <;> cases others <;> simp [turn]

theorem nodup_step (stores : fifo.Stores chain queue) (permits : fifo.Permits queue inp)
    (id : Fin shape.numFifo) :
    (turn (inp.pops id) (inp.pushes id) (fifo.pushCellIdx inp) (chain id)).Nodup := by
  have nodup := stores.nodup id
  have kept : (if inp.pops id then (chain id).tail else chain id).Nodup := by
    split
    · exact nodup.tail
    · exact nodup
  cases pushed : inp.pushes id with
  | false => simpa [turn] using kept
  | true =>
    have fresh := fresh_of_pushes stores permits pushed id
    have freshKept : fifo.pushCellIdx inp ∉ if inp.pops id then (chain id).tail else chain id := by
      split
      · exact fun member => fresh (List.mem_of_mem_tail member)
      · exact fresh
    simp only [turn, if_true]
    exact kept.append (List.nodup_singleton _) (by simpa using freshKept)

theorem disjoint_step (stores : fifo.Stores chain queue) (permits : fifo.Permits queue inp)
    (id other : Fin shape.numFifo) (cell : Nat)
    (member : cell ∈ turn (inp.pops id) (inp.pushes id) (fifo.pushCellIdx inp) (chain id))
    (memberOther : cell ∈
      turn (inp.pops other) (inp.pushes other) (fifo.pushCellIdx inp) (chain other)) :
    id = other := by
  rcases mem_turn member with old | ⟨pushed, rfl⟩
  · rcases mem_turn memberOther with oldOther | ⟨pushed, rfl⟩
    · exact stores.disjoint _ _ _ old oldOther
    · exact absurd old (fresh_of_pushes stores permits pushed id)
  · rcases mem_turn memberOther with oldOther | ⟨pushedOther, -⟩
    · exact absurd oldOther (fresh_of_pushes stores permits pushed other)
    · simp only [FifoEngineIn.pushes, Bool.and_eq_true, decide_eq_true_eq] at pushed pushedOther
      exact pushed.2.symm.trans pushedOther.2

theorem marked_step (stores : fifo.Stores chain queue) (permits : fifo.Permits queue inp)
    (cell : Nat) (bound : cell < shape.totCells) :
    fifo.freeCellsD inp cell = true ↔
      ∃ id, cell ∈ turn (inp.pops id) (inp.pushes id) (fifo.pushCellIdx inp) (chain id) := by
  by_cases dropped : inp.popI = true ∧ cell = fifo.fifoHeadQ inp.fifoPopIdI
  · -- the popped cell heads its own queue and was not handed out again
    obtain ⟨popping, rfl⟩ := dropped
    obtain ⟨head, rest, chained⟩ :=
      List.exists_cons_of_ne_nil (chain_ne_nil stores (permits.2 popping))
    have isHead := stores.head _ _ _ chained
    have popped : inp.pops inp.fifoPopIdI = true := by simp [FifoEngineIn.pops, popping]
    rw [isHead]
    simp only [freeCellsD, popping, if_true, isHead, Function.update_self, Bool.false_eq_true,
      false_iff, not_exists]
    intro id member
    have inChain : head ∈ chain inp.fifoPopIdI := by simp [chained]
    have notFresh : inp.pushes id = true → head ≠ fifo.pushCellIdx inp := by
      rintro pushed rfl
      exact fresh_of_pushes stores permits pushed _ inChain
    have isOld : head ∈ chain id := (mem_turn member).resolve_right fun ⟨pushed, same⟩ =>
      notFresh pushed same
    obtain rfl := stores.disjoint _ _ _ inChain isOld
    have nodup := stores.nodup inp.fifoPopIdI
    rw [chained, List.nodup_cons] at nodup
    rw [turn, popped, chained] at member
    cases pushed : inp.pushes inp.fifoPopIdI with
    | false => simp [pushed, nodup.1] at member
    | true => simp [pushed, nodup.1, notFresh pushed] at member
  -- any other cell stays what it was, or is the one that is handed out
  · have keeps : fifo.freeCellsD inp cell =
        (fifo.freeCellsQ cell || (inp.pushI && decide (cell = fifo.pushCellIdx inp))) := by
      simp only [freeCellsD]
      grind [Function.update_apply]
    rw [keeps, Bool.or_eq_true, stores.marked cell bound]
    constructor
    · rintro (⟨id, member⟩ | taken)
      · refine ⟨id, ?_⟩
        cases popped : inp.pops id with
        | false => simp [turn, member]
        | true =>
          obtain ⟨popping, rfl⟩ : inp.popI = true ∧ inp.fifoPopIdI = id := by
            simpa [FifoEngineIn.pops] using popped
          cases chained : chain inp.fifoPopIdI with
          | nil => simp [chained] at member
          | cons head rest =>
            have ne : cell ≠ head := fun same =>
              dropped ⟨popping, same.trans (stores.head _ _ _ chained).symm⟩
            simp only [chained, List.mem_cons, ne, false_or] at member
            simp [turn, member]
      · simp only [Bool.and_eq_true, decide_eq_true_eq] at taken
        exact ⟨inp.fifoPushIdI, by simp [turn, FifoEngineIn.pushes, taken.1, taken.2]⟩
    · rintro ⟨id, member⟩
      rcases mem_turn member with old | ⟨pushed, rfl⟩
      · exact .inl ⟨id, old⟩
      · simp only [FifoEngineIn.pushes, Bool.and_eq_true] at pushed
        exact .inr (by simp [pushed.1])

theorem data_step (stores : fifo.Stores chain queue) (permits : fifo.Permits queue inp)
    (id : Fin shape.numFifo) :
    (turn (inp.pops id) (inp.pushes id) (fifo.pushCellIdx inp) (chain id)).map
        (fifo.step inp).fifoData.sram =
      turn (inp.pops id) (inp.pushes id) inp.newElI (queue id) := by
  have agree : ∀ cell ∈ chain id, (fifo.step inp).fifoData.sram cell = fifo.fifoData.sram cell := by
    intro cell member
    cases pushing : inp.pushI with
    | false => simp [step, pushing]
    | true =>
      have ne : cell ≠ fifo.pushCellIdx inp := by
        rintro rfl
        exact push_fresh stores permits pushing id member
      simp [step, pushing, ne]
  rw [map_turn agree, stores.data]
  cases pushed : inp.pushes id with
  | false => simp [turn]
  | true =>
    have pushing : inp.pushI = true := by
      simp only [FifoEngineIn.pushes, Bool.and_eq_true] at pushed
      exact pushed.1
    simp [turn, step, pushing]

/-- The static cells of a queue are counted without wrapping, its share never exceeded. -/
theorem occup_step (stores : fifo.Stores chain queue) (permits : fifo.Permits queue inp)
    (id : Fin shape.numFifo) :
    fifo.fifoStaticOccupD inp id =
        (turn (inp.pops id) (inp.pushes id) (fifo.pushCellIdx inp) (chain id)).countP
          (fun cell => shape.numCells ≤ cell) ∧
      fifo.fifoStaticOccupD inp id ≤ shape.numStaticCellsPerFifo := by
  have count := stores.occup id
  have share := stores.occup_le id
  have fits : 0 < shape.numStaticCellsPerFifo → shape.numStaticCellsPerFifo <
      2 ^ (clog2 shape.numStaticCellsPerFifo + 1) := lt_two_pow_clog2_succ
  have popsStatic : inp.pops id = true → ∃ cell rest, chain id = cell :: rest ∧
      fifo.poppingFromStatic inp = decide (shape.numCells ≤ cell) := by
    intro popped
    obtain ⟨cell, rest, chained⟩ :=
      List.exists_cons_of_ne_nil (chain_ne_nil stores (nonempty_of_pops permits popped))
    refine ⟨cell, rest, chained, ?_⟩
    simp only [FifoEngineIn.pops, Bool.and_eq_true, decide_eq_true_eq] at popped
    rw [poppingFromStatic, popped.2, stores.head _ _ _ chained]
  have pushesStatic : inp.pushes id = true →
      decide (shape.numCells ≤ fifo.pushCellIdx inp) = fifo.pushingToStatic inp ∧
      (fifo.pushingToStatic inp = true →
        fifo.fifoStaticOccupQ id < shape.numStaticCellsPerFifo) := by
    intro pushed
    simp only [FifoEngineIn.pushes, Bool.and_eq_true, decide_eq_true_eq] at pushed
    obtain ⟨pushing, rfl⟩ := pushed
    refine ⟨(pushCellIdx_free stores (permits.1 pushing)).2.2, ?_⟩
    simp [pushingToStatic]
  -- the counter has one bit more than the share needs
  have inc : fifo.fifoStaticOccupQ id < shape.numStaticCellsPerFifo →
      increment shape.occupWidth (fifo.fifoStaticOccupQ id) = fifo.fifoStaticOccupQ id + 1 := by
    intro below
    exact increment_of_lt (lt_of_le_of_lt below (fits (by omega)))
  have dec : 0 < fifo.fifoStaticOccupQ id →
      decrement shape.occupWidth (fifo.fifoStaticOccupQ id) = fifo.fifoStaticOccupQ id - 1 := by
    intro positive
    exact decrement_of_pos positive (lt_of_le_of_lt share (fits (by omega)))
  rw [fifoStaticOccupD_eq]
  -- a queue may lose its head and gain a cell in one cycle
  cases popped : inp.pops id with
  | false =>
    cases pushed : inp.pushes id with
    | false => simpa [turn, count] using share
    | true =>
      obtain ⟨static, below⟩ := pushesStatic pushed
      cases pushing : fifo.pushingToStatic inp with
      | false => simpa [turn, static, pushing, count] using share
      | true =>
        have room := below pushing
        simp [turn, static, pushing, inc room, ← count]
        exact room
  | true =>
    obtain ⟨cell, rest, chained, headStatic⟩ := popsStatic popped
    rw [chained, List.countP_cons] at count
    cases pushed : inp.pushes id with
    | false =>
      cases popping : fifo.poppingFromStatic inp with
      | false =>
        rw [popping] at headStatic
        simp [← headStatic] at count
        simpa [turn, chained, count] using share
      | true =>
        rw [popping] at headStatic
        simp [← headStatic] at count
        have dropped := dec (by omega)
        simp only [turn, chained, dropped, Bool.and_self, Bool.false_and, if_true, List.tail_cons,
          Bool.false_eq_true, if_false, List.append_nil]
        omega
    | true =>
      obtain ⟨static, below⟩ := pushesStatic pushed
      cases pushing : fifo.pushingToStatic inp <;> cases popping : fifo.poppingFromStatic inp <;>
        rw [popping] at headStatic <;> simp [← headStatic] at count <;>
        simp [turn, chained, static, pushing]
      · exact ⟨count, share⟩
      · rw [dec (by omega)]; omega
      · have room := below pushing
        rw [inc room]; omega
      · exact ⟨count, share⟩

/-- A permitted cycle of the pool is a cycle of the lists. -/
theorem Stores.step (stores : fifo.Stores chain queue) (permits : fifo.Permits queue inp) :
    (fifo.step inp).Stores
      (fun id => turn (inp.pops id) (inp.pushes id) (fifo.pushCellIdx inp) (chain id))
      (fun id => turn (inp.pops id) (inp.pushes id) inp.newElI (queue id)) where
  linked := linked_step stores permits
  head := head_step stores permits
  last := last_step stores
  empty := empty_step stores permits
  nodup := nodup_step stores permits
  disjoint := disjoint_step stores permits
  bounded id cell member := by
    rcases mem_turn member with old | ⟨pushed, rfl⟩
    · exact stores.bounded id cell old
    · simp only [FifoEngineIn.pushes, Bool.and_eq_true] at pushed
      exact (pushCellIdx_free stores (permits.1 pushed.1)).1
  marked := marked_step stores permits
  data := data_step stores permits
  occup id := (occup_step stores permits id).1
  occup_le id := (occup_step stores permits id).2

theorem Represents.step (represents : fifo.Represents queue) (permits : fifo.Permits queue inp) :
    (fifo.step inp).Represents
      (fun id => turn (inp.pops id) (inp.pushes id) inp.newElI (queue id)) := by
  obtain ⟨chain, stores⟩ := represents
  exact ⟨_, stores.step permits⟩

/-- The cell presented on `fifo_pop_id_i` is read in time: the element at the front
    of its queue is on `data_o` after the edge. -/
theorem Represents.dataO_step (represents : fifo.Represents queue) {item : α}
    (front : (queue inp.fifoPopIdI).head? = some item) : (fifo.step inp).dataO = item := by
  obtain ⟨chain, stores⟩ := represents
  have data := stores.data inp.fifoPopIdI
  cases chained : chain inp.fifoPopIdI with
  | nil => simp [← data, chained] at front
  | cons cell rest =>
    have head := stores.head _ _ _ chained
    rw [← data, chained] at front
    simpa [FifoEngine.step, dataO, popCellIdx, head] using front

/-- A queue is as empty as its flag says. -/
theorem Represents.empty_iff (represents : fifo.Represents queue) (id : Fin shape.numFifo) :
    fifo.fifoEmptyQ id = true ↔ queue id = [] := by
  obtain ⟨chain, stores⟩ := represents
  rw [stores.empty, ← stores.data id]
  simp

/-- A queue holds at most all dynamic cells and its own static ones. -/
theorem Represents.length_le (represents : fifo.Represents queue) (id : Fin shape.numFifo) :
    (queue id).length ≤ shape.numCells + shape.numStaticCellsPerFifo := by
  obtain ⟨chain, stores⟩ := represents
  have dynamic : ((chain id).filter fun cell => cell < shape.numCells).length ≤ shape.numCells := by
    have nodup := (stores.nodup id).filter fun cell => decide (cell < shape.numCells)
    have within : ((chain id).filter fun cell => cell < shape.numCells) ⊆
        List.range shape.numCells := by
      intro cell member
      simpa using (List.mem_filter.mp member).2
    simpa using (nodup.subperm within).length_le
  have static := stores.occup id ▸ stores.occup_le id
  have split := List.length_eq_countP_add_countP (fun cell => decide (shape.numCells ≤ cell))
    (l := chain id)
  rw [← stores.data id, List.length_map, split]
  have rest : (chain id).countP (fun cell => ¬decide (shape.numCells ≤ cell) = true) =
      ((chain id).filter fun cell => cell < shape.numCells).length := by
    rw [List.countP_eq_length_filter]
    congr 2
    funext cell
    simp
  omega

end Cycle

end FifoEngine

/-! ## The refinement -/

/-- The pool next to the lists it stands for. -/
def fifoEngineBank (shape : FifoShape) {α : Type} (sram : Nat → α) :
    Machine (FifoEngine shape α × QueueBank shape α) (FifoEngineIn shape α) :=
  (fifoEngine shape sram).observedBy QueueBank.empty fun _ bank inp => bank.step inp

/-- Every sequence of cycles that respects full and empty keeps the pool and the
    lists together, and `data_o` shows the front of the queue asked for. -/
theorem fifoEngine_refines_queues (shape : FifoShape) {α : Type} (sram : Nat → α)
    (inputs : List (FifoEngineIn shape α))
    (permitted : (fifoEngineBank shape sram).Admits
      (fun state inp => state.1.Permits state.2.queue inp) inputs) :
    let state := (fifoEngineBank shape sram).run inputs
    state.1.Represents state.2.queue ∧
      ∀ item, state.2.shown = some item → state.1.dataO = item := by
  refine permitted.invariant
    (fun state => state.1.Represents state.2.queue ∧
      ∀ item, state.2.shown = some item → state.1.dataO = item) ?_ ?_
  · exact ⟨⟨_, FifoEngine.stores_reset sram⟩, by simp [fifoEngineBank, QueueBank.empty]⟩
  · rintro ⟨fifo, bank⟩ inp ⟨represents, -⟩ permits
    exact ⟨represents.step permits, fun item front => represents.dataO_step front⟩

/-- The only element of queue 1 is popped while its successor is pushed, with queue 0 in use. -/
theorem fifoEngine_refines_queues_replacement :
    ∃ inputs : List (FifoEngineIn ⟨2, 2, 1⟩ Nat), inputs.length = 5 ∧
      let state := (fifoEngineBank ⟨2, 2, 1⟩ fun _ => 0).run inputs
      state.2.queue 1 = [9] ∧ state.2.queue 0 = [5, 6] ∧
      state.1.Represents state.2.queue ∧
        ∀ item, state.2.shown = some item → state.1.dataO = item := by
  refine ⟨[⟨5, true, 0, false, 0⟩, ⟨6, true, 0, false, 0⟩, ⟨7, true, 1, false, 0⟩,
    ⟨9, true, 1, true, 1⟩, ⟨0, false, 0, false, 1⟩], rfl, by decide, by decide,
    fifoEngine_refines_queues _ _ _ ?_⟩
  decide

end Pspin
