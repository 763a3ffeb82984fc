import Mathlib.Data.Nat.Basic
import Mathlib.Tactic.Ring

/-! # Selection trees

A binary tree of two-input selectors: leaf `k` may request, an inner node
forwards one of its two sides.  Leading-zero counters and tree arbiters are both
such trees and differ in the choice a node makes.  Node `position` at `height`
covers the leaves from `position * 2 ^ height` on, `2 ^ height` of them.

Two facts carry over to every tree: a node requests exactly when one of its
leaves does, and, if nodes prefer a requesting side, the leaf a requesting node
forwards requests.  If nodes prefer the left side, that leaf is the first one.
-/

namespace Pspin.Clocked.Tournament

variable (request : Nat → Bool) (label : Nat → Nat) (choose : Nat → Nat → Bool → Bool → Bool)

/-- Request and forwarded label of a node.  `choose` is told height and position
    of the two sides' common parent and which sides request; `true` takes the
    right side. -/
def node : Nat → Nat → Bool × Nat
  | 0, position => (request position, label position)
  | height + 1, position =>
    let left := node height (2 * position)
    let right := node height (2 * position + 1)
    (left.1 || right.1, if choose height position left.1 right.1 then right.2 else left.2)

/-- A node never forwards an idle side while the other one requests. -/
def PrefersRequests : Prop :=
  ∀ height position left right, (left || right) = true →
    (if choose height position left right then right else left) = true

/-- A node whose left side requests forwards the left side. -/
def PrefersLeft : Prop :=
  ∀ height position right, choose height position true right = false

/-- Leaf `k` is below node `position` at `height`. -/
def Covers (height position k : Nat) : Prop :=
  position * 2 ^ height ≤ k ∧ k < (position + 1) * 2 ^ height

theorem covers_leaf {position k : Nat} : Covers 0 position k ↔ k = position := by
  simp only [Covers, pow_zero, mul_one]; omega

theorem covers_succ {height position k : Nat} :
    Covers (height + 1) position k ↔
      Covers height (2 * position) k ∨ Covers height (2 * position + 1) k := by
  have split : position * 2 ^ (height + 1) = 2 * position * 2 ^ height := by ring
  have middle : (2 * position + 1) * 2 ^ height = 2 * position * 2 ^ height + 2 ^ height := by ring
  have right : (position + 1) * 2 ^ (height + 1) = (2 * position + 1 + 1) * 2 ^ height := by ring
  have last : (2 * position + 1 + 1) * 2 ^ height = (2 * position + 1) * 2 ^ height + 2 ^ height := by
    ring
  have positive := Nat.two_pow_pos height
  simp only [Covers]
  omega

theorem covers_root {width height k : Nat} (wide : width ≤ 2 ^ height) (bound : k < width) :
    Covers height 0 k := by
  simp only [Covers]; omega

/-- A node requests exactly when a leaf below it does. -/
theorem node_request (height position : Nat) :
    (node request label choose height position).1 = true ↔
      ∃ k, Covers height position k ∧ request k = true := by
  induction height generalizing position with
  | zero => simp [node, covers_leaf]
  | succ height inductionHypothesis =>
    simp only [node, Bool.or_eq_true, inductionHypothesis, covers_succ]
    constructor
    · rintro (⟨k, covers, requests⟩ | ⟨k, covers, requests⟩)
      · exact ⟨k, .inl covers, requests⟩
      · exact ⟨k, .inr covers, requests⟩
    · rintro ⟨k, covers | covers, requests⟩
      · exact .inl ⟨k, covers, requests⟩
      · exact .inr ⟨k, covers, requests⟩

variable {request label choose}

/-- The leaf a requesting node forwards requests. -/
theorem node_winner (prefers : PrefersRequests choose) (height position : Nat)
    (requests : (node request label choose height position).1 = true) :
    ∃ k, Covers height position k ∧ request k = true ∧
      (node request label choose height position).2 = label k := by
  induction height generalizing position with
  | zero => exact ⟨position, covers_leaf.mpr rfl, requests, rfl⟩
  | succ height inductionHypothesis =>
    have picked := prefers height position _ _ requests
    simp only [node, covers_succ]
    split at picked
    next rightTaken =>
      obtain ⟨k, covers, request, forwarded⟩ := inductionHypothesis _ picked
      exact ⟨k, .inr covers, request, by rw [if_pos rightTaken, forwarded]⟩
    next leftTaken =>
      obtain ⟨k, covers, request, forwarded⟩ := inductionHypothesis _ picked
      exact ⟨k, .inl covers, request, by rw [if_neg leftTaken, forwarded]⟩

/-- With a preference for the left side the forwarded leaf is the first that requests. -/
theorem node_winner_least (prefers : PrefersRequests choose) (prefersLeft : PrefersLeft choose)
    (height position : Nat) (requests : (node request label choose height position).1 = true) :
    ∃ k, Covers height position k ∧ request k = true ∧
      (∀ j, Covers height position j → request j = true → k ≤ j) ∧
      (node request label choose height position).2 = label k := by
  induction height generalizing position with
  | zero =>
    refine ⟨position, covers_leaf.mpr rfl, requests, ?_, rfl⟩
    intro j covers _
    exact (covers_leaf.mp covers).ge
  | succ height inductionHypothesis =>
    simp only [node, covers_succ]
    cases leftRequests : (node request label choose height (2 * position)).1 with
    -- every leaf on the left comes before those on the right
    | true =>
      obtain ⟨k, covers, request, least, forwarded⟩ := inductionHypothesis _ leftRequests
      refine ⟨k, .inl covers, request, ?_, by simp [prefersLeft height position, forwarded]⟩
      rintro j (inLeft | inRight) requestsToo
      · exact least j inLeft requestsToo
      · exact (covers.2.trans_le (by simpa [Covers] using inRight.1)).le
    | false =>
      have rightRequests : (node request label choose height (2 * position + 1)).1 = true := by
        simpa [node, leftRequests] using requests
      have picked := prefers height position false true rfl
      obtain ⟨k, covers, request, least, forwarded⟩ := inductionHypothesis _ rightRequests
      refine ⟨k, .inr covers, request, ?_, ?_⟩
      · rintro j (inLeft | inRight) requestsToo
        · have idle := (node_request _ label choose height (2 * position)).mpr ⟨j, inLeft, requestsToo⟩
          rw [leftRequests] at idle; cases idle
        · exact least j inRight requestsToo
      · rw [rightRequests, if_pos, forwarded]
        split at picked
        next taken => exact taken
        next => cases picked

end Pspin.Clocked.Tournament
