import Pspin.CommonCells.Lzc

/-! # `rr_arb_tree`

The round-robin arbiter with `ExtPrio = 0`, `AxiVldRdy = 1`, `LockIn = 1` and
`FairArb = 1`, the only configuration the packet scheduler uses.  While its
output waits for a grant the arbiter decides on the request vector it latched,
not on the one at its inputs; a grant reaches the chosen input whether or not
that input still requests.
-/

namespace Pspin

open Clocked Clocked.Tournament

/-- Registers of the arbiter: the lock, the latched requests, the priority. -/
structure RrArbTree (numIn : Nat) where
  lockQ : Bool
  reqQ : Fin numIn → Bool
  rrQ : Nat

namespace RrArbTree

variable {numIn : Nat}

def reset : RrArbTree numIn where
  lockQ := false
  reqQ := fun _ => false
  rrQ := 0

/-- A vector over the inputs, read with zeros past its end. -/
def pad (vector : Fin numIn → Bool) (k : Nat) : Bool :=
  if inside : k < numIn then vector ⟨k, inside⟩ else false

def reqD (arb : RrArbTree numIn) (reqI : Fin numIn → Bool) : Fin numIn → Bool :=
  -- a single input is passed through, without a lock
  if numIn = 1 then reqI else if arb.lockQ then arb.reqQ else reqI

/-- `sel` of a node: the right side if the left one is idle, or if both request
    and the priority bit of this level is set. -/
def sel (numIn rrQ height position : Nat) (left right : Bool) : Bool :=
  (!left || right && rrQ.testBit height) &&
    (right || decide (height ≠ 0) || decide (2 * position + 1 < numIn))

def root (arb : RrArbTree numIn) (reqI : Fin numIn → Bool) : Bool × Nat :=
  node (pad (arb.reqD reqI)) id (sel numIn arb.rrQ) (clog2 numIn) 0

def reqO (arb : RrArbTree numIn) (reqI : Fin numIn → Bool) : Bool := (arb.root reqI).1

/-- The arbitrated index; it means nothing while no input requests. -/
def idxO [NeZero numIn] (arb : RrArbTree numIn) (reqI : Fin numIn → Bool) : Fin numIn :=
  Fin.ofNat numIn (arb.root reqI).2

def gntO (arb : RrArbTree numIn) (reqI : Fin numIn → Bool) (gntI : Bool) (i : Fin numIn) : Bool :=
  gntI && decide ((arb.root reqI).2 = i)

def nextIdx (arb : RrArbTree numIn) (reqI : Fin numIn → Bool) : Nat :=
  let upperMask k := decide (arb.rrQ < k) && pad (arb.reqD reqI) k
  let lowerMask k := decide (k ≤ arb.rrQ) && pad (arb.reqD reqI) k
  if lzcEmpty numIn upperMask then lzcCnt numIn lowerMask else lzcCnt numIn upperMask

/-- One clock edge, with the requests and the grant of the cycle. -/
def step (arb : RrArbTree numIn) (reqI : Fin numIn → Bool) (gntI : Bool) : RrArbTree numIn where
  lockQ := arb.reqO reqI && !gntI
  reqQ := arb.reqD reqI
  rrQ := if gntI && arb.reqO reqI then arb.nextIdx reqI else arb.rrQ

@[simp] theorem step_lockQ (arb : RrArbTree numIn) (reqI : Fin numIn → Bool) (gntI : Bool) :
    (arb.step reqI gntI).lockQ = (arb.reqO reqI && !gntI) := rfl

@[simp] theorem step_reqQ (arb : RrArbTree numIn) (reqI : Fin numIn → Bool) (gntI : Bool) :
    (arb.step reqI gntI).reqQ = arb.reqD reqI := rfl

theorem sel_prefersRequests (numIn rrQ : Nat) : PrefersRequests (sel numIn rrQ) := by
  intro height position left right requests
  cases left <;> cases right <;> simp_all [sel]

theorem pad_eq_true {vector : Fin numIn → Bool} {k : Nat} :
    pad vector k = true ↔ ∃ i : Fin numIn, k = i ∧ vector i = true := by
  unfold pad
  split
  next inside =>
    constructor
    · intro set
      exact ⟨⟨k, inside⟩, rfl, set⟩
    · rintro ⟨i, rfl, set⟩
      exact set
  next outside =>
    simp only [Bool.false_eq_true, false_iff]
    rintro ⟨i, rfl, -⟩
    exact outside i.isLt

variable {arb : RrArbTree numIn} {reqI : Fin numIn → Bool}

theorem reqO_eq_true : arb.reqO reqI = true ↔ ∃ i, arb.reqD reqI i = true := by
  simp only [reqO, root, node_request, pad_eq_true]
  constructor
  · rintro ⟨-, -, i, -, set⟩
    exact ⟨i, set⟩
  · rintro ⟨i, set⟩
    exact ⟨i, covers_root (le_two_pow_clog2 numIn) i.isLt, i, rfl, set⟩

/-- The winner of a decision is an input that requests, by its own index. -/
theorem root_winner (requested : arb.reqO reqI = true) :
    ∃ i : Fin numIn, (arb.root reqI).2 = i ∧ arb.reqD reqI i = true := by
  obtain ⟨k, -, padded, forwarded⟩ :=
    node_winner (sel_prefersRequests numIn arb.rrQ) (clog2 numIn) 0 requested
  obtain ⟨i, rfl, set⟩ := pad_eq_true.mp padded
  exact ⟨i, forwarded, set⟩

section Chosen

variable [NeZero numIn]

theorem root_eq_idxO (requested : arb.reqO reqI = true) :
    (arb.root reqI).2 = arb.idxO reqI := by
  obtain ⟨i, index, -⟩ := root_winner requested
  rw [idxO, index, Fin.val_ofNat, Nat.mod_eq_of_lt i.isLt]

theorem reqD_idxO (requested : arb.reqO reqI = true) :
    arb.reqD reqI (arb.idxO reqI) = true := by
  obtain ⟨i, index, set⟩ := root_winner requested
  have same : arb.idxO reqI = i := Fin.ext ((root_eq_idxO requested).symm.trans index)
  rw [same]
  exact set

theorem gntO_eq_true (requested : arb.reqO reqI = true) {gntI : Bool} {i : Fin numIn} :
    arb.gntO reqI gntI i = true ↔ gntI = true ∧ arb.idxO reqI = i := by
  simp only [gntO, Bool.and_eq_true, decide_eq_true_eq, root_eq_idxO requested, Fin.val_inj]

end Chosen

/-! ## Requests that wait

The lock is meant for inputs that keep requesting until they are granted.  Then
the latched requests are requests still, and a decision is about the inputs.  An
input that wants a grant and does not show it all the time breaks this.
-/

/-- While the arbiter is locked it decides on some of the inputs that want a grant. -/
def Latched (arb : RrArbTree numIn) (wants : Fin numIn → Bool) : Prop :=
  arb.lockQ = true → (∃ i, arb.reqQ i = true) ∧ ∀ i, arb.reqQ i = true → wants i = true

namespace Latched

variable {wants : Fin numIn → Bool}

theorem reset (reqI : Fin numIn → Bool) : (RrArbTree.reset : RrArbTree numIn).Latched reqI := by
  rintro ⟨⟩

theorem mono {wants' : Fin numIn → Bool} (latched : arb.Latched wants)
    (weaker : ∀ i, wants i = true → wants' i = true) : arb.Latched wants' :=
  fun locked => ⟨(latched locked).1, fun i set => weaker i ((latched locked).2 i set)⟩

/-- The arbiter decides on inputs that want a grant, if only these request. -/
theorem wants_of_reqD (latched : arb.Latched wants)
    (within : ∀ i, reqI i = true → wants i = true) {i : Fin numIn}
    (set : arb.reqD reqI i = true) : wants i = true := by
  unfold reqD at set
  split at set
  · exact within i set
  · split at set
    next locked => exact (latched locked).2 i set
    next => exact within i set

theorem reqO_of_reqI (latched : arb.Latched wants) {i : Fin numIn} (set : reqI i = true) :
    arb.reqO reqI = true := by
  rw [reqO_eq_true]
  unfold reqD
  split
  · exact ⟨i, set⟩
  · split
    next locked => exact (latched locked).1
    next => exact ⟨i, set⟩

theorem step (latched : arb.Latched wants) (within : ∀ i, reqI i = true → wants i = true)
    {gntI : Bool} {wants' : Fin numIn → Bool}
    (waits : gntI = false → ∀ i, wants i = true → wants' i = true) :
    (arb.step reqI gntI).Latched wants' := by
  intro locked
  simp only [step_lockQ, Bool.and_eq_true, Bool.not_eq_true'] at locked
  obtain ⟨requested, refused⟩ := locked
  exact ⟨reqO_eq_true.mp requested,
    fun i set => waits refused i (latched.wants_of_reqD within set)⟩

variable [NeZero numIn]

theorem reqI_idxO (latched : arb.Latched reqI) (requested : arb.reqO reqI = true) :
    reqI (arb.idxO reqI) = true :=
  latched.wants_of_reqD (fun _ => id) (reqD_idxO requested)

/-- An input that requests is granted when the output is, if it is the one chosen, and if
    the one chosen requests. -/
theorem granted_eq_of_chosen (latched : arb.Latched wants) {gntI : Bool}
    (chosen : arb.reqO reqI = true → gntI = true → reqI (arb.idxO reqI) = true) (i : Fin numIn) :
    (reqI i && arb.gntO reqI gntI i) =
      (arb.reqO reqI && gntI && decide (arb.idxO reqI = i)) := by
  cases requested : arb.reqO reqI with
  | true =>
    have granted : arb.gntO reqI gntI i = true ↔ gntI = true ∧ arb.idxO reqI = i :=
      gntO_eq_true requested
    rw [Bool.eq_iff_iff, Bool.and_eq_true, granted]
    simp only [Bool.true_and, Bool.and_eq_true, decide_eq_true_eq]
    constructor
    · exact fun both => both.2
    · rintro ⟨grants, rfl⟩
      exact ⟨chosen requested grants, grants, rfl⟩
  | false =>
    have idle : reqI i = false := by
      rw [← Bool.not_eq_true] at requested ⊢
      exact fun set => requested (latched.reqO_of_reqI set)
    simp [idle]

theorem granted_eq (latched : arb.Latched reqI) (gntI : Bool) (i : Fin numIn) :
    (reqI i && arb.gntO reqI gntI i) =
      (arb.reqO reqI && gntI && decide (arb.idxO reqI = i)) :=
  latched.granted_eq_of_chosen (fun requested _ => latched.reqI_idxO requested) i

end Latched

/-! ## Two inputs

With two inputs and an output that is granted in every cycle, an input that requests is served in
the cycle or, if it keeps requesting, in the next one.
-/

structure TakesTurns (arb : RrArbTree 2) : Prop where
  unlocked : arb.lockQ = false
  priority : arb.rrQ < 2

namespace TakesTurns

theorem reset : (RrArbTree.reset : RrArbTree 2).TakesTurns where
  unlocked := rfl
  priority := Nat.two_pos

/-- The requests of two inputs. -/
def pair (first second : Bool) (i : Fin 2) : Bool := if i.val = 0 then first else second

theorem pair_eq (reqI : Fin 2 → Bool) : pair (reqI 0) (reqI 1) = reqI := by
  funext i
  rcases Fin.exists_fin_two.mp ⟨i, rfl⟩ with rfl | rfl
  · rfl
  · rfl

/-- An arbiter that is not locked, at a priority. -/
def freeAt (rrQ : Nat) : RrArbTree 2 := { RrArbTree.reset with rrQ := rrQ }

variable {arb : RrArbTree 2} (turns : arb.TakesTurns)

include turns

theorem reqD_eq (reqI : Fin 2 → Bool) : arb.reqD reqI = (freeAt arb.rrQ).reqD reqI := by
  simp [reqD, freeAt, turns.unlocked, RrArbTree.reset]

theorem root_eq (reqI : Fin 2 → Bool) : arb.root reqI = (freeAt arb.rrQ).root reqI := by
  rw [root, turns.reqD_eq]
  rfl

theorem nextIdx_eq (reqI : Fin 2 → Bool) : arb.nextIdx reqI = (freeAt arb.rrQ).nextIdx reqI := by
  rw [nextIdx, turns.reqD_eq]
  rfl

theorem step (reqI : Fin 2 → Bool) : (arb.step reqI true).TakesTurns where
  unlocked := by simp
  priority := by
    have bounded : ∀ (first second : Bool) (rrQ : Fin 2),
        (freeAt rrQ).reqO (pair first second) = true → (freeAt rrQ).nextIdx (pair first second) < 2 := by
      decide
    have next := bounded (reqI 0) (reqI 1) ⟨arb.rrQ, turns.priority⟩
    rw [pair_eq] at next
    simp only [RrArbTree.step, Bool.true_and]
    split
    next requested =>
      rw [turns.nextIdx_eq]
      rw [reqO, turns.root_eq] at requested
      exact next requested
    next => exact turns.priority

/-- An input that is passed over is served in the next cycle. -/
theorem served {reqI : Fin 2 → Bool} {i : Fin 2} (set : reqI i = true) :
    arb.idxO reqI = i ∨ ∀ reqI', reqI' i = true → (arb.step reqI true).idxO reqI' = i := by
  have passed : ∀ (first second : Bool) (rrQ i : Fin 2), pair first second i = true →
      (freeAt rrQ).reqO (pair first second) = true ∧ ((freeAt rrQ).idxO (pair first second) = i ∨
        (freeAt rrQ).nextIdx (pair first second) = i) := by decide
  have first : ∀ (first second : Bool) (i : Fin 2), pair first second i = true →
      (freeAt i).idxO (pair first second) = i := by decide
  have now := passed (reqI 0) (reqI 1) ⟨arb.rrQ, turns.priority⟩ i
  rw [pair_eq] at now
  obtain ⟨requested, chosen | next⟩ := now set
  · left
    rw [idxO, turns.root_eq]
    exact chosen
  · right
    intro reqI' set'
    have later := first (reqI' 0) (reqI' 1) i
    rw [pair_eq] at later
    have priority : (arb.step reqI true).rrQ = i := by
      have requests : arb.reqO reqI = true := by
        rw [reqO, turns.root_eq]
        exact requested
      simp only [RrArbTree.step, Bool.true_and, if_pos requests, turns.nextIdx_eq]
      exact next
    rw [idxO, (turns.step reqI).root_eq, priority]
    exact later set'

end TakesTurns

end RrArbTree

end Pspin
