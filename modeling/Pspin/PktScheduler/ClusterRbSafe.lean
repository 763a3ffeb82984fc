import Pspin.Clocked.Machine
import Pspin.PktScheduler.ClusterRbLive

/-! # The safety of a ring buffer

A ring with the allocations it granted and that were not freed.  Its pointers wrap at a power
of two and the ring ends at `NumSlots`: it is safe for every user that keeps to the space on
offer exactly when the two are the same.
-/

namespace Pspin

open Clocked

/-- An allocation in bytes. -/
structure RbAlloc where
  index : Nat
  size : Nat
deriving DecidableEq, Repr

/-- The slots of an allocation. -/
def RbAlloc.region (alloc : RbAlloc) : Region :=
  ⟨alloc.index / pktBuffMemSlotSize, (alloc.size + pktBuffMemSlotSize - 1) / pktBuffMemSlotSize⟩

namespace ClusterRb

variable {slots ptrBits : Nat}

section Safe

variable (rb : ClusterRb slots ptrBits) (live : List RbAlloc) (inp : ClusterRbIn)

/-- The allocation that a cycle grants. -/
def granted : List RbAlloc :=
  if rb.allocReadyO inp then [⟨rb.allocIndexO inp, inp.allocSizeI⟩] else []

/-- The allocation that a cycle frees. -/
def freed : RbAlloc := ⟨inp.freeIndexI, inp.freeSizeI⟩

def afterFree : List RbAlloc := if inp.freeValidI then live.erase (freed inp) else live

/-- Requests keep to the space on offer, and frees give back live allocations. -/
def Rule (state : ClusterRb slots ptrBits × List RbAlloc) (inp : ClusterRbIn) : Prop :=
  (inp.allocValidI = true → 0 < inp.allocSizeI ∧ inp.allocSizeI ≤ state.1.freeSpaceO) ∧
    (inp.freeValidI = true → freed inp ∈ state.2)

/-- The bitmap is the union of the live allocations, and these lie in the ring and between head
    and tail. -/
structure Safe : Prop where
  union : ∀ i < slots, rb.bitmapQ i = true ↔ ∃ alloc ∈ live, alloc.region.Contains i
  inside : ∀ alloc ∈ live, alloc.region.start + alloc.region.size ≤ slots
  between : ∀ alloc ∈ live, ∀ i, alloc.region.Contains i → InArc rb.headPtrQ rb.tailPtrQ i

/-- A cycle grants no live slot and moves the head over none. -/
structure SafeStep : Prop where
  grants : ∀ alloc ∈ rb.granted inp, ∀ i, alloc.region.Contains i →
    ∀ other ∈ live, ¬other.region.Contains i
  passes : ∀ k < rb.headPtrIncrReal, ∀ alloc ∈ live,
    ¬alloc.region.Contains ((rb.headPtrQ + k) % slots)
  resets : rb.quiet inp = true → live = []

end Safe

/-- A ring and the live allocations. -/
def traced (slots ptrBits : Nat) :
    Machine (ClusterRb slots ptrBits × List RbAlloc) ClusterRbIn :=
  Machine.observedBy ⟨reset, step⟩ [] fun rb live inp => rb.granted inp ++ afterFree live inp

/-- Whatever a user does that keeps to the rule. -/
def AlwaysSafe (slots ptrBits : Nat) : Prop :=
  ∀ inputs, (traced slots ptrBits).Admits Rule inputs →
    Safe ((traced slots ptrBits).run inputs).1 ((traced slots ptrBits).run inputs).2 ∧
      ∀ inp, Rule ((traced slots ptrBits).run inputs) inp →
        SafeStep ((traced slots ptrBits).run inputs).1 ((traced slots ptrBits).run inputs).2 inp

/-! ## Pointers that wrap where the ring ends -/

section PowerOfTwo

variable {slotBits : Nat} {rb : ClusterRb (numSlots slotBits) slotBits} {live : List RbAlloc}
  {inp : ClusterRbIn}

/-- The regions of the live allocations are those of the ring, and start at slots. -/
structure Holds (rb : ClusterRb (numSlots slotBits) slotBits) (live : List RbAlloc) : Prop where
  inv : rb.Inv (live.map RbAlloc.region)
  sized : ∀ alloc ∈ live, 0 < alloc.size ∧ alloc.size ≤ numSlots slotBits * pktBuffMemSlotSize

theorem Holds.safe (holds : Holds rb live) : Safe rb live where
  union := by
    intro i below
    rw [holds.inv.layout.marks i below]
    simp
  inside := by
    intro alloc among
    exact holds.inv.layout.inside _ (List.mem_map_of_mem among)
  between := by
    intro alloc among i contains
    have below : i < numSlots slotBits :=
      Nat.lt_of_lt_of_le contains.2 (holds.inv.layout.inside _ (List.mem_map_of_mem among))
    refine holds.inv.in_arc i below ((holds.inv.layout.marks i below).mpr ?_)
    exact ⟨_, List.mem_map_of_mem among, contains⟩

/-- A slot that is not marked is in no live allocation. -/
theorem Holds.not_contains (holds : Holds rb live) {i : Nat} (below : i < numSlots slotBits)
    (unset : rb.bitmapQ i = false) {alloc : RbAlloc} (among : alloc ∈ live) :
    ¬alloc.region.Contains i := by
  intro contains
  have set := (holds.safe.union i below).mpr ⟨alloc, among, contains⟩
  rw [unset] at set
  cases set

/-- A slot is in use exactly when an allocation is live. -/
theorem Holds.anySet_iff (holds : Holds rb live) : rb.anySet = true ↔ live ≠ [] := by
  constructor
  · rintro some rfl
    obtain ⟨i, below, set⟩ : ∃ i < numSlots slotBits, rb.bitmapQ i = true := by
      simpa [anySet] using some
    obtain ⟨alloc, among, -⟩ := (holds.safe.union i below).mp set
    cases among
  · intro some
    obtain ⟨alloc, among⟩ := List.exists_mem_of_ne_nil live some
    have nonempty := holds.inv.layout.nonempty _ (List.mem_map_of_mem among)
    have inside := holds.safe.inside _ among
    by_contra none
    have start : alloc.region.Contains alloc.region.start := ⟨le_refl _, by omega⟩
    rw [Bool.not_eq_true] at none
    exact holds.not_contains (by omega) (not_anySet none _ (by omega)) among start

/-- A request that keeps to the space on offer, in slots. -/
theorem Holds.pushSize_eq (holds : Holds rb live) (rule : Rule (rb, live) inp)
    (valid : inp.allocValidI = true) :
    pushSize (numSlots slotBits) inp = (inp.allocSizeI + 63) / 64 ∧
      0 < pushSize (numSlots slotBits) inp ∧ pushSize (numSlots slotBits) inp ≤ rb.freeSlots := by
  obtain ⟨some, small⟩ := rule.1 valid
  have size : pushSize (numSlots slotBits) inp = (inp.allocSizeI + 63) / 64 :=
    slotsOf_eq (small.trans (freeSpaceO_le holds.inv.inRing))
  change inp.allocSizeI ≤ rb.freeSlots * pktBuffMemSlotSize at small
  rw [pktBuffMemSlotSize] at small
  omega

/-- What is granted is what the ring pushes. -/
theorem Holds.granted_region (holds : Holds rb live) (rule : Rule (rb, live) inp) :
    (rb.granted inp).map RbAlloc.region = rb.pushed inp := by
  rw [granted, allocReadyO, pushed]
  cases enabled : rb.pushEn inp with
  | false => rfl
  | true =>
    have valid : inp.allocValidI = true := by
      simp only [pushEn, Bool.and_eq_true] at enabled
      exact enabled.2
    obtain ⟨size, some, -⟩ := holds.pushSize_eq rule valid
    rw [decide_eq_true some, if_pos rfl, Bool.and_self, if_pos rfl, List.map_singleton,
      RbAlloc.region, pushRegion, size, allocIndexO,
      Nat.mul_div_cancel _ (by decide : 0 < pktBuffMemSlotSize)]
    rfl

/-- What is freed is what the ring pops. -/
theorem Holds.popRegion_eq (holds : Holds rb live) (freeing : freed inp ∈ live) :
    popRegion slotBits inp = (freed inp).region ∧ 0 < popSize (numSlots slotBits) inp := by
  obtain ⟨some, small⟩ := holds.sized _ freeing
  have inside := holds.safe.inside _ freeing
  have size : popSize (numSlots slotBits) inp = (inp.freeSizeI + 63) / 64 := slotsOf_eq small
  have start : popIdx slotBits inp = inp.freeIndexI / pktBuffMemSlotSize := by
    apply truncate_of_lt
    simp only [RbAlloc.region, freed, pktBuffMemSlotSize, numSlots] at some inside ⊢
    omega
  simp only [freed] at some
  refine ⟨?_, by omega⟩
  rw [popRegion, size, start]
  rfl

theorem Holds.frees (holds : Holds rb live) (rule : Rule (rb, live) inp) :
    Frees slotBits inp (live.map RbAlloc.region) ∧
      ((afterFree live inp).map RbAlloc.region).Perm
        (afterPop slotBits inp (live.map RbAlloc.region)) := by
  cases freeing : inp.freeValidI with
  | false =>
    obtain ⟨frees, same⟩ := frees_idle (live.map RbAlloc.region) freeing
    refine ⟨frees, ?_⟩
    rw [same, afterFree, freeing, if_neg Bool.false_ne_true]
  | true =>
    have member := rule.2 freeing
    obtain ⟨region, some⟩ := holds.popRegion_eq member
    have among : popRegion slotBits inp ∈ live.map RbAlloc.region := by
      rw [region]
      exact List.mem_map_of_mem member
    obtain ⟨frees, erased⟩ := frees_member freeing among some
    refine ⟨frees, ?_⟩
    rw [erased, afterFree, freeing, if_pos rfl, region]
    have split := ((List.perm_cons_erase member).map RbAlloc.region).erase (freed inp).region
    rw [List.map_cons, List.erase_cons_head] at split
    exact split.symm

theorem Holds.step (holds : Holds rb live) (rule : Rule (rb, live) inp) :
    Holds (rb.step inp) (rb.granted inp ++ afterFree live inp) where
  inv := by
    obtain ⟨frees, same⟩ := holds.frees rule
    have next := holds.inv.step frees fun valid => (holds.pushSize_eq rule valid).2.2
    rw [List.map_append, holds.granted_region rule]
    exact next.perm (same.symm.append_left _)
  sized := by
    intro alloc among
    rcases List.mem_append.mp among with new | old
    · rw [granted] at new
      split at new
      next ready =>
        obtain rfl := List.mem_singleton.mp new
        have valid : inp.allocValidI = true := by
          simp only [allocReadyO, pushEn, Bool.and_eq_true] at ready
          exact ready.2
        obtain ⟨some, small⟩ := rule.1 valid
        exact ⟨some, small.trans (freeSpaceO_le holds.inv.inRing)⟩
      next => cases new
    · refine holds.sized alloc ?_
      rw [afterFree] at old
      split at old
      · exact List.mem_of_mem_erase old
      · exact old

theorem Holds.safeStep (holds : Holds rb live) (rule : Rule (rb, live) inp) :
    SafeStep rb live inp where
  grants := by
    intro alloc new i contains other among
    have region : alloc.region ∈ rb.pushed inp := by
      rw [← holds.granted_region rule]
      exact List.mem_map_of_mem new
    rw [pushed] at region
    split at region
    next enabled =>
      obtain same := List.mem_singleton.mp region
      simp only [Bool.and_eq_true, pushEn] at enabled
      obtain ⟨inside, free⟩ := push_free holds.inv enabled.1.1
        (holds.pushSize_eq rule enabled.1.2).2.2
      rw [same] at contains
      exact holds.not_contains (Nat.lt_of_lt_of_le contains.2 inside) (free i contains) among
    next => cases region
  passes := by
    intro k passed alloc among
    obtain ⟨most, unset⟩ := headPtrIncrReal_spec holds.inv.inRing
    have head := holds.inv.head_lt
    have tail := holds.inv.tail_lt
    rw [headPtrIncrMax_eq holds.inv.inRing] at most
    have below : k < numSlots slotBits := by
      split at most <;> omega
    exact holds.not_contains (Nat.mod_lt _ (Nat.two_pow_pos _)) (unset k passed below) among
  resets := by
    intro quiet
    simp only [ClusterRb.quiet, equalEmpty, Bool.and_eq_true, Bool.not_eq_true'] at quiet
    by_contra some
    have inUse := holds.anySet_iff.mpr some
    rw [quiet.2.2] at inUse
    cases inUse

/-- A ring whose pointers wrap where it ends. -/
theorem alwaysSafe_numSlots (slotBits : Nat) : AlwaysSafe (numSlots slotBits) slotBits := by
  intro inputs admitted
  have holds := admitted.invariant (fun state => Holds state.1 state.2)
    ⟨inv_reset, fun _ among => by cases among⟩ fun _ _ holds rule => holds.step rule
  exact ⟨holds.safe, fun inp rule => holds.safeStep rule⟩

end PowerOfTwo

/-! ## A ring of one slot -/

section OneSlot

variable {rb : ClusterRb 1 2} {live : List RbAlloc} {inp : ClusterRbIn}

/-- A ring of one slot is clear, its pointers anywhere up to the end, or taken from reset on. -/
inductive Lone : ClusterRb 1 2 → List RbAlloc → Prop
  | clear {rb : ClusterRb 1 2} (unset : rb.bitmapQ 0 = false) (order : rb.headPtrQ ≤ rb.tailPtrQ)
      (last : rb.tailPtrQ ≤ 1) : Lone rb []
  | taken {rb : ClusterRb 1 2} {size : Nat} (some : 0 < size) (small : size ≤ 64)
      (set : rb.bitmapQ 0 = true) (head : rb.headPtrQ = 0) (tail : rb.tailPtrQ = 1) :
      Lone rb [⟨0, size⟩]

theorem lone_inRing (order : rb.headPtrQ ≤ rb.tailPtrQ) (last : rb.tailPtrQ ≤ 1) : rb.InRing where
  some := Nat.one_pos
  head_le := order.trans last
  tail_le := last

/-- The head stays behind the tail. -/
theorem headPtrD_le (order : rb.headPtrQ ≤ rb.tailPtrQ) (last : rb.tailPtrQ ≤ 1) :
    rb.headPtrD inp ≤ rb.tailPtrQ := by
  have inRing := lone_inRing order last
  have most := (headPtrIncrReal_spec inRing).1
  rw [headPtrIncrMax_eq inRing, if_pos order] at most
  rw [headPtrD]
  split
  · exact Nat.zero_le _
  · rw [truncate_of_lt (by omega)]
    omega

theorem notFull_of_unset (unset : rb.bitmapQ 0 = false) : rb.equalFull = false := by
  simp [equalFull, anySet, unset]

/-- A clear ring grants its slot from reset only. -/
theorem lone_push (unset : rb.bitmapQ 0 = false) (order : rb.headPtrQ ≤ rb.tailPtrQ)
    (last : rb.tailPtrQ ≤ 1) (rule : Rule (rb, live) inp) (enabled : rb.pushEn inp = true) :
    rb.tailPtrQ = 0 ∧ pushSize 1 inp = 1 ∧ rb.padding inp = 0 ∧
      0 < inp.allocSizeI ∧ inp.allocSizeI ≤ 64 := by
  have inRing := lone_inRing order last
  have notFull := notFull_of_unset unset
  simp only [pushEn, dataFits, Bool.and_eq_true] at enabled
  obtain ⟨some, offered⟩ := rule.1 enabled.2
  have small : inp.allocSizeI ≤ 1 * pktBuffMemSlotSize := offered.trans (freeSpaceO_le inRing)
  have size : pushSize 1 inp = (inp.allocSizeI + 63) / 64 := slotsOf_eq small
  rw [pktBuffMemSlotSize] at small
  have one : pushSize 1 inp = 1 := by omega
  have fits := enabled.1
  rw [fit_eq inRing, notFull, if_neg Bool.false_ne_true, if_pos order, one] at fits
  by_cases room : 1 - rb.tailPtrQ ≥ 1
  · refine ⟨by omega, one, ?_, some, by omega⟩
    rw [padding, fit_eq inRing, notFull, if_neg Bool.false_ne_true, if_pos order, one, if_pos room]
  · rw [if_neg room, if_neg (by omega)] at fits
    cases fits

/-- A taken ring offers nothing. -/
theorem lone_idle (head : rb.headPtrQ = 0) (tail : rb.tailPtrQ = 1)
    (rule : Rule (rb, live) inp) : inp.allocValidI = false := by
  by_contra valid
  obtain ⟨some, offered⟩ := rule.1 (by simpa using valid)
  have inRing := @lone_inRing rb (by omega) (by omega)
  have nothing : rb.freeSpaceO = 0 := by
    rw [freeSpaceO, freeSlots_eq inRing, head, tail]
    simp
  exact absurd (Nat.lt_of_lt_of_le some offered) (by rw [nothing]; exact Nat.lt_irrefl 0)

/-- The head does not pass the slot of a taken ring. -/
theorem lone_head_stays (set : rb.bitmapQ 0 = true) (head : rb.headPtrQ = 0) (inRing : rb.InRing) :
    rb.headPtrIncrReal = 0 := by
  obtain ⟨-, unset⟩ := headPtrIncrReal_spec inRing
  by_contra moved
  have free := unset 0 (by omega) Nat.one_pos
  rw [head, set] at free
  cases free

/-- A taken ring grants nothing and its pointers stay. -/
theorem lone_taken_step (set : rb.bitmapQ 0 = true) (head : rb.headPtrQ = 0)
    (tail : rb.tailPtrQ = 1) (rule : Rule (rb, live) inp) :
    rb.pushEn inp = false ∧ rb.headPtrD inp = 0 ∧ rb.tailPtrD inp = 1 := by
  have inRing := @lone_inRing rb (by omega) (by omega)
  have enabled : rb.pushEn inp = false := by rw [pushEn, lone_idle head tail rule, Bool.and_false]
  have busy : rb.quiet inp = false := by
    rw [quiet, equalEmpty, head, tail]
    simp
  refine ⟨enabled, ?_, ?_⟩
  · rw [headPtrD, busy, head, lone_head_stays set head inRing]
    rfl
  · rw [tailPtrD, busy, enabled, tail]
    rfl

theorem Lone.step (lone : Lone rb live) (rule : Rule (rb, live) inp) :
    Lone (rb.step inp) (rb.granted inp ++ afterFree live inp) := by
  cases lone with
  | clear unset order last =>
    have idle : inp.freeValidI = false := by
      by_contra freeing
      have member := rule.2 (by simpa using freeing)
      cases member
    have kept : afterFree [] inp = [] := by rw [afterFree, idle, if_neg Bool.false_ne_true]
    -- an empty ring of one slot may have its head behind its tail for a cycle
    have head : rb.headPtrD inp ≤ rb.tailPtrQ := headPtrD_le order last
    rw [kept, List.append_nil, granted, allocReadyO]
    cases enabled : rb.pushEn inp with
    | true =>
      obtain ⟨tail, size, pad, some, small⟩ := lone_push unset order last rule enabled
      have idx : rb.pushIdx inp = 0 := by rw [pushIdx, tail, pad]; rfl
      rw [if_pos rfl, allocIndexO, idx, Nat.zero_mul]
      refine .taken some small ?_ ?_ ?_
      · change rb.bitmapD inp 0 = true
        rw [bitmapD, unset, enabled, idx, size, popEn, idle]
        rfl
      · change rb.headPtrD inp = 0
        omega
      · change rb.tailPtrD inp = 1
        rw [tailPtrD, quiet, enabled, tail, pad, size]
        rfl
    | false =>
      rw [if_neg Bool.false_ne_true]
      refine .clear ?_ ?_ ?_
      · change rb.bitmapD inp 0 = false
        rw [bitmapD, unset, enabled, popEn, idle]
        rfl
      · change rb.headPtrD inp ≤ rb.tailPtrD inp
        rw [tailPtrD, enabled]
        cases quiet : rb.quiet inp with
        | true => rw [headPtrD, quiet]; rfl
        | false => exact head
      · change rb.tailPtrD inp ≤ 1
        rw [tailPtrD, enabled]
        split
        · exact Nat.zero_le _
        · exact last
  | @taken size some small set head tail =>
    obtain ⟨enabled, headStays, tailStays⟩ := lone_taken_step set head tail rule
    rw [granted, allocReadyO, enabled, if_neg Bool.false_ne_true, List.nil_append, afterFree]
    cases freeing : inp.freeValidI with
    | false =>
      refine .taken some small ?_ headStays tailStays
      change rb.bitmapD inp 0 = true
      rw [bitmapD, set, enabled, popEn, freeing]
      rfl
    | true =>
      have same := List.mem_singleton.mp (rule.2 freeing)
      obtain ⟨index, bytes⟩ := RbAlloc.mk.inj same
      have count : popSize 1 inp = 1 := by
        rw [popSize, bytes, slotsOf_eq (by rw [pktBuffMemSlotSize]; omega)]
        omega
      rw [if_pos rfl, same, List.erase_cons_head]
      refine .clear ?_ (by change rb.headPtrD inp ≤ rb.tailPtrD inp; omega) tailStays.le
      change rb.bitmapD inp 0 = false
      rw [bitmapD, set, enabled, popEn, freeing, popIdx, index, count]
      rfl

theorem region_of_slot {size : Nat} (some : 0 < size) (small : size ≤ 64) :
    RbAlloc.region ⟨0, size⟩ = ⟨0, 1⟩ := by
  have one : (size + 63) / 64 = 1 := by omega
  rw [RbAlloc.region, pktBuffMemSlotSize, Nat.zero_div]
  exact congrArg (Region.mk 0) one

theorem Lone.safe (lone : Lone rb live) : Safe rb live := by
  cases lone with
  | clear unset order last =>
    refine ⟨?_, by simp, by simp⟩
    intro i below
    rw [Nat.lt_one_iff.mp below, unset]
    simp
  | taken some small set head tail =>
    have region := region_of_slot some small
    refine ⟨?_, ?_, ?_⟩
    · intro i below
      rw [Nat.lt_one_iff.mp below, set]
      simp [region, Region.Contains]
    · intro alloc among
      rw [List.mem_singleton.mp among, region]
      exact le_refl 1
    · intro alloc among i contains
      rw [List.mem_singleton.mp among, region] at contains
      rw [head, tail, Nat.lt_one_iff.mp contains.2]
      simp [InArc]

theorem Lone.safeStep (lone : Lone rb live) (rule : Rule (rb, live) inp) :
    SafeStep rb live inp := by
  cases lone with
  | clear => exact ⟨by simp, by simp, by simp⟩
  | taken some small set head tail =>
    have inRing := @lone_inRing rb (by omega) (by omega)
    refine ⟨?_, ?_, ?_⟩
    · intro alloc new
      rw [granted, allocReadyO, pushEn, lone_idle head tail rule, Bool.and_false] at new
      cases new
    · intro k passed
      rw [lone_head_stays set head inRing] at passed
      cases passed
    · intro quiet
      rw [ClusterRb.quiet, equalEmpty, head, tail] at quiet
      simp at quiet

theorem alwaysSafe_one : AlwaysSafe 1 2 := by
  intro inputs admitted
  have lone := admitted.invariant (fun state => Lone state.1 state.2)
    (.clear rfl (le_refl _) (Nat.zero_le _)) fun _ _ lone rule => lone.step rule
  exact ⟨lone.safe, fun inp rule => lone.safeStep rule⟩

end OneSlot

/-! ## Pointers that wrap behind the end -/

section Wider

variable {slots ptrBits : Nat}

/-- A ring whose slots from `low` to `high` are in use. -/
def span (slots ptrBits low high head tail : Nat) : ClusterRb slots ptrBits where
  bitmapQ i := decide (low ≤ i) && decide (i < high)
  headPtrQ := head
  tailPtrQ := tail

section Fields

variable (slots ptrBits low high head tail : Nat)

@[simp] theorem span_bitmapQ (i : Nat) : (span slots ptrBits low high head tail).bitmapQ i =
    (decide (low ≤ i) && decide (i < high)) := rfl

@[simp] theorem span_headPtrQ : (span slots ptrBits low high head tail).headPtrQ = head := rfl

@[simp] theorem span_tailPtrQ : (span slots ptrBits low high head tail).tailPtrQ = tail := rfl

end Fields

def request (size : Nat) : ClusterRbIn where
  allocValidI := true
  allocSizeI := size
  freeValidI := false
  freeIndexI := 0
  freeSizeI := 0

def release (alloc : RbAlloc) : ClusterRbIn where
  allocValidI := false
  allocSizeI := 0
  freeValidI := true
  freeIndexI := alloc.index
  freeSizeI := alloc.size

def idle : ClusterRbIn where
  allocValidI := false
  allocSizeI := 0
  freeValidI := false
  freeIndexI := 0
  freeSizeI := 0

variable {low high head tail size : Nat}

/-- The head counts the free slots before the first one in use. -/
theorem headPtrIncr_eq {rb : ClusterRb slots ptrBits} (inRing : rb.InRing) {d : Nat}
    (below : d < slots) (set : rb.bitmapQ ((rb.headPtrQ + d) % slots) = true)
    (unset : ∀ k < d, rb.bitmapQ ((rb.headPtrQ + k) % slots) = false) : rb.headPtrIncr = d := by
  have some : lzcEmpty slots rb.bitmapShifted = false := lzcEmpty_eq_false.mpr ⟨d, below, set⟩
  obtain ⟨bound, here, before⟩ := lzcCnt_spec some
  have count : lzcCnt slots rb.bitmapShifted = d := by
    rcases Nat.lt_trichotomy (lzcCnt slots rb.bitmapShifted) d with less | same | more
    · have free := unset _ less
      rw [bitmapShifted] at here
      rw [here] at free
      cases free
    · exact same
    · have free := before d more
      rw [bitmapShifted, set] at free
      cases free
  rw [headPtrIncr, some, count]
  exact truncate_of_lt (fits_slotSize inRing below.le)

/-- The slots up to `b` and those from `b` on. -/
theorem xor_next {a b c : Nat} (first : a ≤ b) (second : b ≤ c) (i : Nat) :
    Bool.xor (decide (a ≤ i) && decide (i < b)) (decide (b ≤ i) && decide (i < c)) =
      (decide (a ≤ i) && decide (i < c)) := by
  by_cases before : i < b
  · simp [before, Nat.not_le.mpr before, Nat.lt_of_lt_of_le before second]
  · simp [before, Nat.not_lt.mp before, first.trans (Nat.not_lt.mp before)]

/-- The slots up to `c` without those up to `b`. -/
theorem xor_first {a b c : Nat} (first : a ≤ b) (second : b ≤ c) (i : Nat) :
    Bool.xor (decide (a ≤ i) && decide (i < c)) (decide (a ≤ i) && decide (i < b)) =
      (decide (b ≤ i) && decide (i < c)) := by
  rw [← xor_next first second i, Bool.xor_comm, ← Bool.xor_assoc, Bool.xor_self, Bool.false_xor]

theorem request_pushSize (room : (size + 63) / 64 ≤ slots) :
    pushSize slots (request size) = (size + 63) / 64 := by
  refine slotsOf_eq ?_
  rw [pktBuffMemSlotSize]
  change size ≤ slots * 64
  omega

/-- A ring in use from the start up to the tail. -/
theorem span_inRing (some : 0 < slots) (headInside : head ≤ slots) (tailInside : tail ≤ slots) :
    (span slots ptrBits low high head tail).InRing := ⟨some, headInside, tailInside⟩

theorem span_headStays (some : 0 < slots) (inside : tail ≤ slots) :
    (span slots ptrBits 0 tail 0 tail).headPtrIncrReal = 0 := by
  have inRing : (span slots ptrBits 0 tail 0 tail).InRing :=
    span_inRing some (Nat.zero_le _) inside
  obtain ⟨most, unset⟩ := headPtrIncrReal_spec inRing
  rw [headPtrIncrMax_eq inRing] at most
  by_contra moved
  by_cases used : 0 < tail
  · have free := unset 0 (by omega) some
    simp [used] at free
  · simp only [span_headPtrQ, span_tailPtrQ, ge_iff_le, Nat.zero_le, if_true] at most
    omega

/-- A request at the tail of a ring in use from the start. -/
theorem span_request (wider : slots < 2 ^ ptrBits) (some : 0 < size)
    (room : tail + (size + 63) / 64 ≤ slots) :
    (span slots ptrBits 0 tail 0 tail).step (request size) =
        span slots ptrBits 0 (tail + (size + 63) / 64) 0 (tail + (size + 63) / 64) ∧
      (span slots ptrBits 0 tail 0 tail).granted (request size) = [⟨tail * 64, size⟩] ∧
      size ≤ (span slots ptrBits 0 tail 0 tail).freeSpaceO := by
  have inRing : (span slots ptrBits 0 tail 0 tail).InRing :=
    span_inRing (by omega) (Nat.zero_le _) (by omega)
  have count := request_pushSize (show (size + 63) / 64 ≤ slots by omega)
  -- head and tail meet only while nothing is allocated
  have notFull : (span slots ptrBits 0 tail 0 tail).equalFull = false := by
    by_cases used : tail = 0
    · simp [equalFull, anySet, span, used]
    · simp [equalFull, span, Ne.symm used]
  have fits : (span slots ptrBits 0 tail 0 tail).fit (request size) = (true, 0) := by
    rw [fit_eq inRing, notFull, if_neg Bool.false_ne_true, span_headPtrQ, span_tailPtrQ,
      if_pos (Nat.zero_le _), count, if_pos (by omega)]
  have enabled : (span slots ptrBits 0 tail 0 tail).pushEn (request size) = true := by
    rw [pushEn, dataFits, fits]
    rfl
  have pad : (span slots ptrBits 0 tail 0 tail).padding (request size) = 0 := by
    rw [padding, fits]
  have idx : (span slots ptrBits 0 tail 0 tail).pushIdx (request size) = tail := by
    rw [pushIdx, pad]
    exact truncate_of_lt (by rw [span_tailPtrQ]; omega)
  refine ⟨?_, ?_, ?_⟩
  -- bitmap, head and tail
  · refine congr (congr (congrArg ClusterRb.mk ?_) ?_) ?_
    · funext i
      rw [bitmapD, enabled, idx, count, popEn]
      have none : (request size).freeValidI = false := rfl
      rw [none, Bool.false_and, Bool.false_and, Bool.or_false, Bool.true_and, span_bitmapQ]
      exact xor_next (Nat.zero_le _) (Nat.le_add_right _ _) i
    · rw [headPtrD, span_headStays inRing.some (by omega), span_headPtrQ]
      split
      · rfl
      · exact truncate_of_lt (Nat.two_pow_pos _)
    · rw [tailPtrD, quiet, enabled, pad, count]
      exact truncate_of_lt (by rw [span_tailPtrQ]; omega)
  · rw [granted, allocReadyO, enabled, if_pos rfl, allocIndexO, idx]
    rfl
  · rw [freeSpaceO, freeSlots_eq inRing, notFull, if_neg Bool.false_ne_true, span_headPtrQ, span_tailPtrQ,
      if_pos (Nat.zero_le _), pktBuffMemSlotSize]
    split_ifs <;> omega

/-- The first two slots of a ring in use throughout are freed. -/
theorem span_release (many : 2 < slots) :
    (span slots ptrBits 0 slots 0 slots).step (release ⟨0, 128⟩) =
      span slots ptrBits 2 slots 0 slots := by
  have enabled : (span slots ptrBits 0 slots 0 slots).pushEn (release ⟨0, 128⟩) = false :=
    Bool.and_false _
  have count : popSize slots (release ⟨0, 128⟩) = 2 :=
    slotsOf_eq (by change 128 ≤ slots * 64; omega)
  have idx : popIdx ptrBits (release ⟨0, 128⟩) = 0 := truncate_of_lt (Nat.two_pow_pos _)
  have busy : (span slots ptrBits 0 slots 0 slots).quiet (release ⟨0, 128⟩) = false := by
    rw [quiet, enabled]
    rfl
  refine congr (congr (congrArg ClusterRb.mk ?_) ?_) ?_
  · funext i
    rw [bitmapD, enabled, idx, count]
    exact xor_first (Nat.zero_le _) many.le i
  · rw [headPtrD, busy, span_headStays (by omega) (le_refl _)]
    exact truncate_of_lt (Nat.two_pow_pos _)
  · rw [tailPtrD, busy, enabled]
    rfl

/-- Then the head moves to the third slot. -/
theorem span_idle (wider : slots < 2 ^ ptrBits) (many : 2 < slots) :
    (span slots ptrBits 2 slots 0 slots).step idle = span slots ptrBits 2 slots 2 slots := by
  have inRing : (span slots ptrBits 2 slots 0 slots).InRing :=
    span_inRing (by omega) (Nat.zero_le _) (le_refl _)
  have enabled : (span slots ptrBits 2 slots 0 slots).pushEn idle = false := Bool.and_false _
  have busy : (span slots ptrBits 2 slots 0 slots).quiet idle = false := by
    rw [quiet, equalEmpty, span_headPtrQ, span_tailPtrQ, decide_eq_false (by omega)]
    simp
  have incr : (span slots ptrBits 2 slots 0 slots).headPtrIncr = 2 := by
    refine headPtrIncr_eq inRing many ?_ fun k before => ?_
    · simp [Nat.mod_eq_of_lt many, many]
    · simp [Nat.mod_eq_of_lt (before.trans many), before]
  refine congr (congr (congrArg ClusterRb.mk ?_) ?_) ?_
  · funext i
    rw [bitmapD, enabled]
    exact Bool.xor_false _
  · rw [headPtrD, busy, if_neg Bool.false_ne_true, headPtrIncrReal, incr, headPtrIncrMax_eq inRing,
      span_headPtrQ, span_tailPtrQ, if_pos (Nat.zero_le _), Nat.sub_zero, if_pos many]
    exact truncate_of_lt (by omega)
  · rw [tailPtrD, busy, enabled]
    rfl

/-- The tail stands at the end of the ring, and there a slot is granted. -/
theorem span_overrun (wider : slots < 2 ^ ptrBits) (many : 2 < slots) :
    (span slots ptrBits 2 slots 2 slots).granted (request 64) = [⟨slots * 64, 64⟩] ∧
      64 ≤ (span slots ptrBits 2 slots 2 slots).freeSpaceO := by
  have inRing : (span slots ptrBits 2 slots 2 slots).InRing :=
    span_inRing (by omega) many.le (le_refl _)
  have count := request_pushSize (show (64 + 63) / 64 ≤ slots by omega)
  have notFull : (span slots ptrBits 2 slots 2 slots).equalFull = false := by
    rw [equalFull, span_headPtrQ, span_tailPtrQ, decide_eq_false (by omega), Bool.false_and]
  have fits : (span slots ptrBits 2 slots 2 slots).fit (request 64) = (true, 0) := by
    rw [fit_eq inRing, notFull, if_neg Bool.false_ne_true, span_headPtrQ, span_tailPtrQ,
      if_pos many.le, count, Nat.sub_self, if_neg (by omega), if_pos (by omega)]
  have idx : (span slots ptrBits 2 slots 2 slots).pushIdx (request 64) = slots := by
    rw [pushIdx, padding, fits]
    exact truncate_of_lt wider
  constructor
  · have ready : (span slots ptrBits 2 slots 2 slots).allocReadyO (request 64) = true := by
      rw [allocReadyO, pushEn, dataFits, fits]
      rfl
    rw [granted, ready, if_pos rfl, allocIndexO, idx]
    rfl
  · rw [freeSpaceO, freeSlots_eq inRing, notFull, if_neg Bool.false_ne_true, span_headPtrQ,
      span_tailPtrQ, if_pos many.le, Nat.sub_self, if_neg (by omega), pktBuffMemSlotSize]
    omega

theorem reset_eq_span : (reset : ClusterRb slots ptrBits) = span slots ptrBits 0 0 0 0 := by
  refine congr (congr (congrArg ClusterRb.mk ?_) rfl) rfl
  funext i
  exact (Bool.and_false _).symm

/-- Fill a ring in two, free the first part, wait, and ask for a slot. -/
def overrun (slots : Nat) : List ClusterRbIn :=
  [request 128, request ((slots - 2) * 64), release ⟨0, 128⟩, idle, request 64]

/-- A cycle of the traced ring. -/
theorem traced_step (rb : ClusterRb slots ptrBits) (live : List RbAlloc) (inp : ClusterRbIn) :
    (traced slots ptrBits).step (rb, live) inp = (rb.step inp, rb.granted inp ++ afterFree live inp) :=
  rfl

/-- A ring that ends before its pointers wrap grants a slot past its end. -/
theorem not_alwaysSafe (wider : slots < 2 ^ ptrBits) (many : 2 < slots) :
    ¬AlwaysSafe slots ptrBits := by
  intro always
  have part : ((slots - 2) * 64 + 63) / 64 = slots - 2 := by omega
  have whole : 2 + (slots - 2) = slots := by omega
  -- what the two requests that fill the ring are granted
  obtain ⟨first, granted1, offered1⟩ :=
    @span_request slots ptrBits 0 128 wider (by omega) (by omega)
  obtain ⟨second, granted2, offered2⟩ :=
    @span_request slots ptrBits 2 ((slots - 2) * 64) wider (by omega) (by omega)
  rw [part, whole] at second
  obtain ⟨granted5, offered5⟩ := span_overrun wider many
  -- fill the ring, give the first packet back, and let the head move on
  have step1 : (traced slots ptrBits).step (span slots ptrBits 0 0 0 0, []) (request 128) =
      (span slots ptrBits 0 2 0 2, [⟨0, 128⟩]) := by
    rw [traced_step, first, granted1]
    rfl
  have step2 : (traced slots ptrBits).step (span slots ptrBits 0 2 0 2, [⟨0, 128⟩])
      (request ((slots - 2) * 64)) =
        (span slots ptrBits 0 slots 0 slots, [⟨2 * 64, (slots - 2) * 64⟩, ⟨0, 128⟩]) := by
    rw [traced_step, second, granted2]
    rfl
  have step3 : (traced slots ptrBits).step
      (span slots ptrBits 0 slots 0 slots, [⟨2 * 64, (slots - 2) * 64⟩, ⟨0, 128⟩])
        (release ⟨0, 128⟩) =
          (span slots ptrBits 2 slots 0 slots, [⟨2 * 64, (slots - 2) * 64⟩]) := by
    rw [traced_step, span_release many, granted, if_neg (by simp [allocReadyO, pushEn, release])]
    simp [afterFree, release, freed]
  have step4 : (traced slots ptrBits).step
      (span slots ptrBits 2 slots 0 slots, [⟨2 * 64, (slots - 2) * 64⟩]) idle =
        (span slots ptrBits 2 slots 2 slots, [⟨2 * 64, (slots - 2) * 64⟩]) := by
    rw [traced_step, span_idle wider many, granted, if_neg (by simp [allocReadyO, pushEn, idle])]
    rfl
  have start : (traced slots ptrBits).reset = (span slots ptrBits 0 0 0 0, []) := by
    rw [← reset_eq_span]
    rfl
  have admitted : (traced slots ptrBits).Admits Rule (overrun slots) := by
    rw [Machine.Admits, overrun, start]
    refine ⟨⟨fun _ => ⟨by simp [request], offered1⟩, by simp [request]⟩, ?_⟩
    rw [step1]
    refine ⟨⟨fun _ => ⟨?_, offered2⟩, by simp [request]⟩, ?_⟩
    · change 0 < (slots - 2) * 64
      omega
    rw [step2]
    refine ⟨⟨by simp [release], by simp [release, freed]⟩, ?_⟩
    rw [step3]
    refine ⟨⟨by simp [idle], by simp [idle]⟩, ?_⟩
    rw [step4]
    exact ⟨⟨fun _ => ⟨by simp [request], offered5⟩, by simp [request]⟩, trivial⟩
  obtain ⟨safe, -⟩ := always (overrun slots) admitted
  have last : ⟨slots * 64, 64⟩ ∈ ((traced slots ptrBits).run (overrun slots)).2 := by
    rw [Machine.run, overrun, start]
    simp only [Machine.runFrom, List.foldl_cons, List.foldl_nil]
    rw [step1, step2, step3, step4, traced_step, granted5]
    exact List.mem_cons_self
  have inside := safe.inside _ last
  simp only [RbAlloc.region, pktBuffMemSlotSize] at inside
  omega

end Wider

/-- A ring is safe for every user that keeps to the rule exactly when its pointers wrap at its
    end. -/
theorem clusterRb_alwaysSafe_iff (slots : Nat) (some : 0 < slots) :
    AlwaysSafe slots (slotPtrBits slots) ↔ 2 ^ clog2 slots = slots := by
  constructor
  · intro always
    by_contra unequal
    have bound := le_two_pow_clog2 slots
    have many : 2 < slots := by
      by_contra few
      have small : slots = 1 ∨ slots = 2 := by omega
      rcases small with rfl | rfl
      · exact unequal rfl
      · exact unequal (clog2_two_pow 1 ▸ rfl)
    have width : slotPtrBits slots = clog2 slots := if_neg (by omega)
    rw [width] at always
    exact not_alwaysSafe (by omega) many always
  · intro power
    by_cases single : slots = 1
    · subst single
      exact alwaysSafe_one
    · rw [slotPtrBits, if_neg single]
      have safe := alwaysSafe_numSlots (clog2 slots)
      rwa [numSlots, power] at safe

theorem clusterRb_alwaysSafe_iff_256 : AlwaysSafe 256 (slotPtrBits 256) ↔ 2 ^ clog2 256 = 256 :=
  clusterRb_alwaysSafe_iff 256 (by decide)

theorem clusterRb_runs_over : ¬AlwaysSafe 3 (slotPtrBits 3) :=
  not_alwaysSafe (by decide) (by decide)

end ClusterRb

end Pspin
