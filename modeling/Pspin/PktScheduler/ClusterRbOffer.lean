import Pspin.PktScheduler.ClusterRbSafe

/-! # The space on offer

A ring offers `free_space_o` and grants by a fit test of its own.  The two differ in two
places: room that ends exactly at the head is offered and not granted, and behind the head
the fit test subtracts the pointers the other way round and grants more than is offered.
-/

namespace Pspin

open Clocked

/-- A ring by itself. -/
def ClusterRb.ring (slots ptrBits : Nat) : Machine (ClusterRb slots ptrBits) ClusterRbIn :=
  ⟨reset, step⟩

/-- `cluster_rb` with some number of slots. -/
def clusterRb (slots : Nat) : Machine (ClusterRb slots (slotPtrBits slots)) ClusterRbIn :=
  ClusterRb.ring slots (slotPtrBits slots)

namespace ClusterRb

variable {slots ptrBits : Nat} {rb : ClusterRb slots ptrBits} {inp : ClusterRbIn}

/-- Every request of a size is granted exactly when the size is on offer. -/
def OfferKept (rb : ClusterRb slots ptrBits) (size : Nat) : Prop :=
  ∀ inp : ClusterRbIn, inp.allocValidI = true → inp.allocSizeI = size →
    (rb.allocReadyO inp = true ↔ size ≤ rb.freeSpaceO)

/-- The only place left is before the head and would be filled up to it. -/
def RefusesOffer (rb : ClusterRb slots ptrBits) (size : Nat) : Prop :=
  rb.equalFull = false ∧ rb.headPtrQ ≤ rb.tailPtrQ ∧ rb.tailPtrQ ≤ slots ∧
    slots - rb.tailPtrQ < (size + 63) / 64 ∧ (size + 63) / 64 = rb.headPtrQ

/-- The tail is behind the head and does not have the room. -/
def GrantsBeyond (rb : ClusterRb slots ptrBits) (size : Nat) : Prop :=
  rb.tailPtrQ < rb.headPtrQ ∧ rb.headPtrQ - rb.tailPtrQ < (size + 63) / 64

instance (rb : ClusterRb slots ptrBits) (size : Nat) : Decidable (rb.RefusesOffer size) :=
  inferInstanceAs (Decidable (_ ∧ _))

instance (rb : ClusterRb slots ptrBits) (size : Nat) : Decidable (rb.GrantsBeyond size) :=
  inferInstanceAs (Decidable (_ ∧ _))

/-- Pointers no further than where they wrap. -/
structure Wraps (rb : ClusterRb slots ptrBits) : Prop where
  head_le : rb.headPtrQ ≤ 2 ^ clog2 slots
  tail_le : rb.tailPtrQ ≤ 2 ^ clog2 slots

section Wraps

variable (wraps : rb.Wraps)
include wraps

/-- What is on offer, by where the pointers are. -/
theorem Wraps.freeSlots_eq : rb.freeSlots =
    if rb.equalFull then 0
    else if rb.headPtrQ ≤ rb.tailPtrQ then max rb.freeSlotsToEnd rb.headPtrQ
    else rb.headPtrQ - rb.tailPtrQ := by
  have head := wraps.head_le
  have wide : 2 ^ slotSizeBits slots = 2 ^ clog2 slots + 2 ^ clog2 slots := by
    rw [slotSizeBits, pow_succ, Nat.mul_two]
  have positive := Nat.two_pow_pos (clog2 slots)
  -- the pointers fit the width they are subtracted in
  have toHead : rb.freeSlotsToHead = rb.headPtrQ := truncate_of_lt (by omega)
  rw [freeSlots, toHead]
  by_cases before : rb.headPtrQ ≤ rb.tailPtrQ
  · rw [if_pos before, if_pos before]
    have larger : (if rb.freeSlotsToEnd > rb.headPtrQ then rb.freeSlotsToEnd else rb.headPtrQ) =
        max rb.freeSlotsToEnd rb.headPtrQ := by
      split <;> omega
    rw [larger]
  · rw [if_neg before, if_neg before, subtract_of_le (by omega) (by omega)]

/-- Up to the end there is what the fit test says, or more than any request. -/
theorem Wraps.toEnd_cases (word : slots < 2 ^ 32) :
    (rb.tailPtrQ ≤ slots ∧ rb.freeSlotsToEnd = slots - rb.tailPtrQ ∧
        rb.roomToEnd = slots - rb.tailPtrQ) ∨
      (slots < rb.tailPtrQ ∧ slots ≤ rb.freeSlotsToEnd ∧ slots ≤ rb.roomToEnd) := by
  have tail := wraps.tail_le
  have bound := le_two_pow_clog2 slots
  have wide : 2 ^ slotSizeBits slots = 2 ^ clog2 slots + 2 ^ clog2 slots := by
    rw [slotSizeBits, pow_succ, Nat.mul_two]
  have positive := Nat.two_pow_pos (clog2 slots)
  by_cases inside : rb.tailPtrQ ≤ slots
  · exact .inl ⟨inside, subtract_of_le inside (by omega), if_pos inside⟩
  -- a tail beyond the end wraps the difference to more than the ring
  · have small : 2 ^ clog2 slots ≤ 2 ^ 32 :=
      Nat.pow_le_pow_right (by decide) (clog2_le (by omega))
    refine .inr ⟨by omega, ?_, ?_⟩
    · rw [freeSlotsToEnd, subtract_of_lt (by omega) (by omega)]
      omega
    · rw [roomToEnd, if_neg inside]
      omega

/-- What is granted, by where the pointers are. -/
theorem Wraps.ready_iff (requested : inp.allocValidI = true)
    (inside : pushSize slots inp ≤ slots) : rb.allocReadyO inp = true ↔
      rb.equalFull = false ∧ (rb.headPtrQ ≤ rb.tailPtrQ →
        pushSize slots inp ≤ rb.roomToEnd ∨ pushSize slots inp < rb.headPtrQ) := by
  have head := wraps.head_le
  have bound := le_two_pow_clog2 slots
  rw [allocReadyO, pushEn, dataFits, requested, Bool.and_true, fit]
  cases full : rb.equalFull with
  | true => simp
  | false =>
    by_cases before : rb.headPtrQ ≤ rb.tailPtrQ
    · simp only [before, if_true, Bool.false_eq_true, if_false, true_implies, true_and, ge_iff_le]
      split_ifs with toEnd toHead
      · simp [toEnd]
      · simp [toHead]
      · simp [toEnd, toHead]
    · -- the difference is taken the wrong way round and wraps to more than the ring
      have wide : 2 * 2 ^ clog2 slots ≤ 2 ^ max ptrBits (slotSizeBits slots) := by
        rw [Nat.mul_comm, ← pow_succ]
        exact Nat.pow_le_pow_right (by decide) (le_max_right _ _)
      have room : pushSize slots inp ≤
          subtract (max ptrBits (slotSizeBits slots)) rb.tailPtrQ rb.headPtrQ := by
        rw [subtract_of_lt (by omega) (by omega)]
        omega
      simp [before, room]

/-- Offer and grant agree but for the two places. -/
theorem Wraps.offerKept_iff (word : slots < 2 ^ 32) {size : Nat} (some : 0 < size)
    (small : size ≤ slots * pktBuffMemSlotSize) :
    rb.OfferKept size ↔ ¬(rb.RefusesOffer size ∨ rb.GrantsBeyond size) := by
  rw [pktBuffMemSlotSize] at small
  -- both sides count in slots
  have inSlots : ∀ inp : ClusterRbIn, inp.allocSizeI = size → pushSize slots inp = (size + 63) / 64 := by
    intro inp same
    rw [pushSize, same]
    exact slotsOf_eq small
  have offered : size ≤ rb.freeSpaceO ↔ (size + 63) / 64 ≤ rb.freeSlots := by
    rw [freeSpaceO, pktBuffMemSlotSize]
    omega
  have fits : rb.OfferKept size ↔ ((rb.equalFull = false ∧ (rb.headPtrQ ≤ rb.tailPtrQ →
      (size + 63) / 64 ≤ rb.roomToEnd ∨ (size + 63) / 64 < rb.headPtrQ)) ↔
        (size + 63) / 64 ≤ rb.freeSlots) := by
    have ready : ∀ inp : ClusterRbIn, inp.allocValidI = true → inp.allocSizeI = size →
        (rb.allocReadyO inp = true ↔ rb.equalFull = false ∧ (rb.headPtrQ ≤ rb.tailPtrQ →
          (size + 63) / 64 ≤ rb.roomToEnd ∨ (size + 63) / 64 < rb.headPtrQ)) := by
      intro inp requested same
      rw [← inSlots inp same]
      exact wraps.ready_iff requested (by rw [inSlots inp same]; omega)
    rw [← offered]
    constructor
    · intro kept
      rw [← ready (request size) rfl rfl]
      exact kept (request size) rfl rfl
    · intro agree inp requested same
      rw [ready inp requested same]
      exact agree
  rw [fits, wraps.freeSlots_eq, RefusesOffer, GrantsBeyond]
  cases full : rb.equalFull with
  | true =>
    have meet : rb.headPtrQ = rb.tailPtrQ := by
      simp only [equalFull, Bool.and_eq_true, decide_eq_true_eq] at full
      exact full.1
    simp [meet]
    omega
  | false =>
    by_cases before : rb.headPtrQ ≤ rb.tailPtrQ
    · rcases wraps.toEnd_cases word with ⟨inside, offer, room⟩ | ⟨outside, offer, room⟩
      · simp only [before, inside, offer, room, if_true, Bool.false_eq_true, if_false, true_implies,
          true_and]
        omega
      · simp only [before, if_true, Bool.false_eq_true, if_false, true_implies, true_and]
        omega
    · simp only [before, if_false, Bool.false_eq_true, false_implies, false_and, and_false, false_or,
        and_true, true_iff]
      omega

end Wraps

/-- The pointers of a ring of one slot stay in it, whatever is asked. -/
theorem lone_pointers {rb : ClusterRb 1 2} (order : rb.headPtrQ ≤ rb.tailPtrQ)
    (last : rb.tailPtrQ ≤ 1) :
    rb.headPtrD inp ≤ rb.tailPtrD inp ∧ rb.tailPtrD inp ≤ 1 := by
  have head : rb.headPtrD inp ≤ rb.tailPtrQ := headPtrD_le order last
  rw [tailPtrD]
  cases quiet : rb.quiet inp with
  | true =>
    rw [headPtrD, quiet]
    exact ⟨le_refl _, Nat.zero_le _⟩
  | false =>
    cases enabled : rb.pushEn inp with
    | false => exact ⟨head, last⟩
    | true =>
      have fits := enabled
      simp only [pushEn, dataFits, Bool.and_eq_true] at fits
      have inRing := lone_inRing order last
      have room : rb.padding inp = 0 ∧ pushSize 1 inp ≤ 1 - rb.tailPtrQ := by
        rw [padding, fit_eq inRing, if_pos order]
        rw [fit_eq inRing, if_pos order] at fits
        cases full : rb.equalFull with
        | true => simp [full] at fits
        | false =>
          by_cases toEnd : pushSize 1 inp ≤ 1 - rb.tailPtrQ
          · simp [toEnd]
          · -- a size before the head is zero, and that fits anywhere
            simp only [full, toEnd, if_false, Bool.false_eq_true] at fits
            split_ifs at fits with toHead
            · omega
            · cases fits.1
      rw [if_neg Bool.false_ne_true, if_pos rfl, room.1, Nat.add_zero, truncate_of_lt (by omega)]
      omega

theorem wraps_run (slots : Nat) (inputs : List ClusterRbIn) :
    ((clusterRb slots).run inputs).Wraps := by
  have free := (clusterRb slots).admits_true inputs
  -- a ring of one slot has pointers that are one bit too wide
  by_cases single : slots = 1
  · subst single
    obtain ⟨order, last⟩ := free.invariant (fun rb => rb.headPtrQ ≤ rb.tailPtrQ ∧ rb.tailPtrQ ≤ 1)
      ⟨le_refl _, Nat.zero_le _⟩ fun rb inp pointers _ => lone_pointers pointers.1 pointers.2
    exact ⟨order.trans last, last⟩
  · refine free.invariant Wraps ⟨Nat.zero_le _, Nat.zero_le _⟩ fun rb inp wraps _ => ?_
    have cut : ∀ value, truncate (slotPtrBits slots) value ≤ 2 ^ clog2 slots := by
      intro value
      rw [slotPtrBits, if_neg single]
      exact (truncate_lt _ _).le
    constructor
    · change rb.headPtrD inp ≤ _
      rw [headPtrD]
      split
      · exact Nat.zero_le _
      · exact cut _
    · change rb.tailPtrD inp ≤ _
      rw [tailPtrD]
      split
      · exact Nat.zero_le _
      · split
        · exact cut _
        · exact wraps.tail_le

/-- In every state that a ring reaches, a size up to the ring's is granted exactly when it is on
    offer, but for room that ends at the head and for a tail behind the head. -/
theorem clusterRb_offer_iff (slots : Nat) (word : slots < 2 ^ 32) (inputs : List ClusterRbIn)
    (size : Nat) (some : 0 < size) (small : size ≤ slots * pktBuffMemSlotSize) :
    OfferKept ((clusterRb slots).run inputs) size ↔
      ¬(RefusesOffer ((clusterRb slots).run inputs) size ∨
        GrantsBeyond ((clusterRb slots).run inputs) size) :=
  (wraps_run slots inputs).offerKept_iff word some small

/-- Three of four slots are granted, and the first two are freed. -/
def headway : List ClusterRbIn := [request 128, request 64, release ⟨0, 128⟩, idle]

/-- The head has moved on to the third slot and the tail to the fourth: a request of one slot is kept
    and one of the two slots before the head is not. -/
theorem clusterRb_offer_iff_headway : OfferKept ((clusterRb 4).run headway) 64 ∧
    ¬OfferKept ((clusterRb 4).run headway) 128 := by
  constructor
  · refine (clusterRb_offer_iff 4 (by decide) headway 64 (by decide) (by decide)).mpr ?_
    rintro (refuses | beyond)
    · exact absurd refuses (by decide +kernel)
    · exact absurd beyond (by decide +kernel)
  · intro kept
    refine (clusterRb_offer_iff 4 (by decide) headway 128 (by decide) (by decide)).mp kept ?_
    exact Or.inl (by decide +kernel)

instance (state : ClusterRb slots ptrBits × List RbAlloc) (inp : ClusterRbIn) :
    Decidable (Rule state inp) :=
  inferInstanceAs (Decidable (_ ∧ _))

/-- Three of four slots are granted, the first is freed and the last is granted. -/
def aroundEnd : List ClusterRbIn :=
  [request 64, request 128, release ⟨0, 64⟩, idle, request 64]

/-- Two slots before the head are offered and not granted; one slot is offered behind it, and two
    are granted. -/
theorem clusterRb_breaks_offer :
    ((traced 4 2).Admits Rule headway ∧ ¬OfferKept ((clusterRb 4).run headway) 128) ∧
      (traced 4 2).Admits Rule aroundEnd ∧ ¬OfferKept ((clusterRb 4).run aroundEnd) 128 := by
  refine ⟨⟨by decide +kernel, fun kept => ?_⟩, by decide +kernel, fun kept => ?_⟩
  · have ready := (kept (request 128) rfl rfl).mpr (by decide +kernel)
    revert ready
    decide +kernel
  · have offered := (kept (request 128) rfl rfl).mp (by decide +kernel)
    revert offered
    decide +kernel

end ClusterRb

end Pspin
