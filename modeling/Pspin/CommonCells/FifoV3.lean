import Pspin.Clocked.Bits
import Pspin.Clocked.Flow
import Mathlib.Data.Nat.ModEq
import Mathlib.Data.List.Basic

/-! # `fifo_v3`

The FIFO of `common_cells` with `FALL_THROUGH = 0` and `DEPTH > 0`: a memory, two
pointers that wrap at `DEPTH` and a fill count.  The pointer invariant is part of
the type, so the only thing the units above need is what a cycle does to
`contents`.
-/

namespace Pspin

structure FifoV3 (α : Type) (depth : Nat) where
  memQ : Nat → α
  readPointerQ : Nat
  writePointerQ : Nat
  statusCntQ : Nat
  readPointerQ_lt : readPointerQ < depth
  statusCntQ_le : statusCntQ ≤ depth
  writePointerQ_eq : writePointerQ = (readPointerQ + statusCntQ) % depth

namespace FifoV3

variable {α : Type} {depth : Nat}

def reset [Inhabited α] (positive : 0 < depth) : FifoV3 α depth where
  memQ := fun _ => default
  readPointerQ := 0
  writePointerQ := 0
  statusCntQ := 0
  readPointerQ_lt := positive
  statusCntQ_le := Nat.zero_le depth
  writePointerQ_eq := (Nat.zero_mod depth).symm

def fullO (fifo : FifoV3 α depth) : Bool := fifo.statusCntQ == depth

def emptyO (fifo : FifoV3 α depth) : Bool := fifo.statusCntQ == 0

/-- `status_cnt_q` without its top bit: a full FIFO of a power of two shows 0. -/
def usageO (fifo : FifoV3 α depth) : Nat := Clocked.truncate (Clocked.clog2 depth) fifo.statusCntQ

def dataO (fifo : FifoV3 α depth) : α := fifo.memQ fifo.readPointerQ

/-- A pointer moves on by one and wraps at the depth. -/
def advance (depth pointer : Nat) : Nat := if pointer = depth - 1 then 0 else pointer + 1

theorem advance_eq {pointer : Nat} (inside : pointer < depth) :
    advance depth pointer = (pointer + 1) % depth := by
  unfold advance
  split
  next last => rw [last, Nat.sub_add_cancel (by omega), Nat.mod_self]
  next => rw [Nat.mod_eq_of_lt (by omega)]

/-- The memory with one cell written. -/
def writeCell (mem : Nat → α) (cell : Nat) (data : α) : Nat → α :=
  fun other => if other = cell then data else mem other

@[simp] theorem writeCell_self (mem : Nat → α) (cell : Nat) (data : α) :
    writeCell mem cell data cell = data := if_pos rfl

/-- One clock edge. -/
def step (fifo : FifoV3 α depth) (dataI : α) (pushI popI : Bool) : FifoV3 α depth :=
  let pushing := pushI && !fifo.fullO
  let popping := popI && !fifo.emptyO
  { memQ := if pushing then writeCell fifo.memQ fifo.writePointerQ dataI else fifo.memQ
    writePointerQ := if pushing then advance depth fifo.writePointerQ else fifo.writePointerQ
    readPointerQ := if popping then advance depth fifo.readPointerQ else fifo.readPointerQ
    statusCntQ :=
      -- the count is stable if we push and pop at the same time
      if pushing && popping then fifo.statusCntQ
      else if popping then fifo.statusCntQ - 1
      else if pushing then fifo.statusCntQ + 1
      else fifo.statusCntQ
    readPointerQ_lt := by
      have inside := fifo.readPointerQ_lt
      split
      · rw [advance_eq inside]; exact Nat.mod_lt _ (by omega)
      · exact inside
    statusCntQ_le := by
      have bound := fifo.statusCntQ_le
      simp only [pushing, popping, fullO, emptyO, Bool.and_eq_true, Bool.not_eq_true', beq_eq_false_iff_ne]
      split_ifs <;> omega
    writePointerQ_eq := by
      have inside := fifo.readPointerQ_lt
      have write := fifo.writePointerQ_eq
      have written : advance depth fifo.writePointerQ =
          (fifo.readPointerQ + fifo.statusCntQ + 1) % depth := by
        rw [advance_eq (write ▸ Nat.mod_lt _ (by omega)), write, Nat.mod_add_mod]
      have nonempty : popping = true → 0 < fifo.statusCntQ := by
        simp only [popping, emptyO, Bool.and_eq_true, Bool.not_eq_true', beq_eq_false_iff_ne]
        omega
      cases pushed : pushing <;> cases popped : popping <;>
        simp only [Bool.and_true, Bool.and_false, Bool.false_eq_true, if_true, if_false,
          advance_eq inside, written, Nat.mod_add_mod]
      · exact write
      · have := nonempty popped
        rw [write]; congr 1; omega
      · rfl
      · congr 1; omega }

/-- What the FIFO holds, oldest first. -/
def contents (fifo : FifoV3 α depth) : List α :=
  (List.range fifo.statusCntQ).map fun k => fifo.memQ ((fifo.readPointerQ + k) % depth)

@[simp] theorem contents_reset [Inhabited α] (positive : 0 < depth) :
    (reset positive : FifoV3 α depth).contents = [] := rfl

@[simp] theorem length_contents (fifo : FifoV3 α depth) :
    fifo.contents.length = fifo.statusCntQ := by
  simp [contents]

theorem length_contents_le (fifo : FifoV3 α depth) : fifo.contents.length ≤ depth := by
  simpa using fifo.statusCntQ_le

@[simp] theorem fullO_eq_true {fifo : FifoV3 α depth} :
    fifo.fullO = true ↔ fifo.contents.length = depth := by
  simp [fullO]

@[simp] theorem fullO_eq_false {fifo : FifoV3 α depth} :
    fifo.fullO = false ↔ fifo.contents.length < depth := by
  have bound := fifo.statusCntQ_le
  simp only [fullO, beq_eq_false_iff_ne, length_contents]
  omega

@[simp] theorem emptyO_eq_true {fifo : FifoV3 α depth} :
    fifo.emptyO = true ↔ fifo.contents = [] := by
  rw [← List.length_eq_zero_iff]
  simp [emptyO]

@[simp] theorem emptyO_eq_false {fifo : FifoV3 α depth} :
    fifo.emptyO = false ↔ fifo.contents ≠ [] := by
  rw [← Bool.not_eq_true, emptyO_eq_true]

/-- The window of `count` cells from `first` on, around the ring. -/
def window (mem : Nat → α) (depth first count : Nat) : List α :=
  (List.range count).map fun k => mem ((first + k) % depth)

theorem contents_eq_window (fifo : FifoV3 α depth) :
    fifo.contents = window fifo.memQ depth fifo.readPointerQ fifo.statusCntQ := rfl

theorem window_succ (mem : Nat → α) {first : Nat} (inside : first < depth) (count : Nat) :
    window mem depth first (count + 1) =
      mem first :: window mem depth (advance depth first) count := by
  simp only [window, List.range_succ_eq_map, List.map_cons, List.map_map, Nat.add_zero,
    Nat.mod_eq_of_lt inside, advance_eq inside, List.cons.injEq, true_and]
  apply List.map_congr_left
  intro k _
  simp only [Function.comp_apply, Nat.mod_add_mod]
  congr 2
  omega

/-- Writing behind a window that leaves room extends it. -/
theorem window_update (mem : Nat → α) (first : Nat) {count : Nat} (room : count < depth)
    (data : α) :
    window (writeCell mem ((first + count) % depth) data) depth first (count + 1) =
      window mem depth first count ++ [data] := by
  simp only [window, List.range_succ, List.map_append, List.map_cons, List.map_nil,
    writeCell_self]
  congr 1
  apply List.map_congr_left
  intro k member
  have below := List.mem_range.mp member
  refine if_neg fun same => ?_
  -- both offsets are below the depth, so equal residues mean equal offsets
  have congruent : Nat.ModEq depth (first + k) (first + count) := same
  have equal := (Nat.ModEq.add_left_cancel' first congruent).eq_of_lt_of_lt (by omega) room
  omega

theorem dataO_eq_head {fifo : FifoV3 α depth} {data : α} {rest : List α}
    (holds : fifo.contents = data :: rest) : fifo.dataO = data := by
  have inside := fifo.readPointerQ_lt
  cases count : fifo.statusCntQ with
  | zero => simp [contents, count] at holds
  | succ count' =>
    rw [contents_eq_window, count, window_succ _ inside] at holds
    exact (List.cons.inj holds).1

/-- A cycle pops the front and appends the pushed element; pushes into a full
    FIFO and pops of an empty one do nothing. -/
theorem contents_step (fifo : FifoV3 α depth) (dataI : α) (pushI popI : Bool) :
    (fifo.step dataI pushI popI).contents =
      (if popI then fifo.contents.tail else fifo.contents) ++
        (if pushI && !fifo.fullO then [dataI] else []) := by
  have inside := fifo.readPointerQ_lt
  have write := fifo.writePointerQ_eq
  have room : fifo.fullO = false → fifo.statusCntQ < depth := by simp
  -- the window that starts one further holds the same positions
  have shift (count : Nat) : (fifo.readPointerQ + (count + 1)) % depth =
      (advance depth fifo.readPointerQ + count) % depth := by
    rw [advance_eq inside, Nat.mod_add_mod]; congr 1; omega
  cases count : fifo.statusCntQ with
  | zero =>
    have empty : fifo.contents = [] := by simp [contents, count]
    cases pushed : pushI && !fifo.fullO with
    | false => simp [contents_eq_window, step, emptyO, count, pushed, window]
    | true =>
      have target : fifo.writePointerQ = fifo.readPointerQ % depth := by simpa [count] using write
      cases popI <;>
        simp [contents_eq_window, step, emptyO, count, pushed, target, window]
  | succ count' =>
    cases pushed : pushI && !fifo.fullO with
    | false =>
      cases popI <;>
        simp [contents_eq_window, step, emptyO, count, pushed, window_succ _ inside]
    | true =>
      have notFull : fifo.fullO = false := by simp_all
      have roomLeft : count' + 1 < depth := count ▸ room notFull
      cases popI with
      | false =>
        have written := window_update fifo.memQ fifo.readPointerQ roomLeft dataI
        simpa [contents_eq_window, step, emptyO, count, pushed, write] using written
      | true =>
        have written := window_update fifo.memQ (advance depth fifo.readPointerQ)
          (show count' < depth by omega) dataI
        rw [← shift] at written
        simpa [contents_eq_window, step, emptyO, count, pushed, write, window_succ _ inside]
          using written

/-- The same for a FIFO that is not pushed full. -/
theorem contents_step_of_room {fifo : FifoV3 α depth} {pushI : Bool}
    (room : pushI = true → fifo.fullO = false) (dataI : α) (popI : Bool) :
    (fifo.step dataI pushI popI).contents =
      (if popI then fifo.contents.tail else fifo.contents) ++ if pushI then [dataI] else [] := by
  rw [contents_step]
  cases pushI with
  | false => rfl
  | true => rw [room rfl]; rfl

/-- The front of a FIFO that is not popped stays. -/
theorem front_waits {fifo : FifoV3 α depth} (some : fifo.emptyO = false) (dataI : α) (pushI : Bool) :
    (fifo.step dataI pushI false).emptyO = false ∧ (fifo.step dataI pushI false).dataO = fifo.dataO := by
  obtain ⟨front, rest, isFront⟩ := List.exists_cons_of_ne_nil (emptyO_eq_false.mp some)
  have after : (fifo.step dataI pushI false).contents =
      front :: (rest ++ if pushI && !fifo.fullO then [dataI] else []) := by
    rw [contents_step, isFront]
    rfl
  refine ⟨?_, ?_⟩
  · rw [emptyO_eq_false, after]
    exact List.cons_ne_nil _ _
  · rw [dataO_eq_head after, dataO_eq_head isFront]

/-- What entered a FIFO and what left it, when it is never pushed full nor popped empty. -/
theorem flows_step {fifo : FifoV3 α depth} {entered left : List α}
    (flows : Clocked.Flows entered left fifo.contents) {dataI : α} {pushI popI : Bool}
    (room : pushI = true → fifo.fullO = false) (some : popI = true → fifo.contents ≠ []) :
    Clocked.Flows (entered ++ if pushI then [dataI] else [])
      (left ++ if popI then [fifo.dataO] else []) (fifo.step dataI pushI popI).contents := by
  have next := flows.step popI (if pushI then [dataI] else [])
  have pushes : (pushI && !fifo.fullO) = pushI := by
    cases pushed : pushI with
    | false => rfl
    | true => rw [room pushed]; rfl
  have leaves : (if popI then [fifo.dataO] else []) =
      if popI then fifo.contents.head?.toList else [] := by
    cases popped : popI with
    | false => rfl
    | true =>
      obtain ⟨front, rest, isFront⟩ := List.exists_cons_of_ne_nil (some popped)
      simp [dataO_eq_head isFront, isFront]
  rw [contents_step, pushes, leaves]
  exact next

end FifoV3

end Pspin
