import Pspin.PktScheduler.ClusterRbOffer

/-! # Reclaiming the space of a ring buffer

The head of a ring that nothing is allocated from and nothing is freed to comes to rest at a
live slot, or at the start of an empty ring, and what was freed behind it is on offer.  The one
exception is a ring that is full when its oldest allocation is freed: head and tail meet, the
head may not move, and nothing is on offer until all of the ring is free.
-/

namespace Pspin

open Clocked

namespace ClusterRb

variable {slots ptrBits : Nat}

/-- No allocation and no free. -/
def Still (rb : ClusterRb slots ptrBits) (inp : ClusterRbIn) : Prop :=
  rb.allocReadyO inp = false ∧ inp.freeValidI = false

/-- The head does not move any more, and stands at a live slot unless there is none. -/
structure AtRest (rb : ClusterRb slots ptrBits) (live : List RbAlloc) : Prop where
  stays : ∀ inp, rb.Still inp → (rb.step inp).headPtrQ = rb.headPtrQ
  reached : (∃ alloc ∈ live, alloc.region.Contains rb.headPtrQ) ∨ live = []

/-- More cycles than slots without an allocation or a free bring the head to rest. -/
def ComesToRest (rb : ClusterRb slots ptrBits) (live : List RbAlloc) : Prop :=
  ∀ inputs, (ring slots ptrBits).AdmitsFrom Still rb inputs → slots < inputs.length →
    ((ring slots ptrBits).runFrom rb inputs).AtRest live

/-- After as many cycles a region's size is on offer. -/
def Advertises (rb : ClusterRb slots ptrBits) (space : Region) : Prop :=
  ∀ inputs, (ring slots ptrBits).AdmitsFrom Still rb inputs → slots < inputs.length →
    space.size * pktBuffMemSlotSize ≤ ((ring slots ptrBits).runFrom rb inputs).freeSpaceO

/-- Head and tail meet in a ring in use, and the slot at the head is free. -/
def Wedged (rb : ClusterRb slots ptrBits) : Prop :=
  rb.equalFull = true ∧ rb.bitmapQ rb.headPtrQ = false

/-! ## Cycles without an allocation or a free -/

section Still

variable {rb : ClusterRb slots ptrBits} {inp : ClusterRbIn}

theorem still_idle (rb : ClusterRb slots ptrBits) : rb.Still idle := ⟨Bool.and_false _, rfl⟩

/-- Only the pointers change. -/
theorem step_still (still : rb.Still inp) : rb.step inp =
    ⟨rb.bitmapQ, if rb.equalEmpty then 0 else truncate ptrBits (rb.headPtrQ + rb.headPtrIncrReal),
      if rb.equalEmpty then 0 else rb.tailPtrQ⟩ := by
  have none : rb.pushEn inp = false := still.1
  have quiet : rb.quiet inp = rb.equalEmpty := by rw [quiet, none, popEn, still.2]; rfl
  refine congr (congr (congrArg ClusterRb.mk ?_) ?_) ?_
  · funext i
    rw [bitmapD, none, popEn, still.2]
    exact Bool.xor_false _
  · rw [headPtrD, quiet]
  · rw [tailPtrD, quiet, none, if_neg Bool.false_ne_true]

/-- Where two idle cycles lead, if that is where the ring stays. -/
def settle (rb : ClusterRb slots ptrBits) : ClusterRb slots ptrBits := (rb.step idle).step idle

end Still

/-! ## Where the head comes to rest -/

/-- Slots from the head to a slot, going round. -/
def distance (slots head i : Nat) : Nat := if head ≤ i then i - head else i + slots - head

section Settle

variable {slotBits : Nat} {rb : ClusterRb (numSlots slotBits) slotBits} {live' : List Region}
  {live : List RbAlloc} {inp : ClusterRbIn}

/-- Between pointers that do not meet lies what is nearer than the tail. -/
theorem inArc_iff {n head tail i : Nat} (meet : head ≠ tail) (headInside : head < n)
    (tailInside : tail < n) (inside : i < n) : InArc head tail i ↔
      distance n head i < distance n head tail := by
  rw [InArc, distance, distance]
  split <;> split <;> omega

/-- An empty ring whose pointers meet goes back to its start. -/
theorem step_clear {slots ptrBits : Nat} {rb : ClusterRb slots ptrBits} (none : rb.anySet = false)
    (meet : rb.headPtrQ = rb.tailPtrQ) : rb.step idle = ⟨rb.bitmapQ, 0, 0⟩ := by
  have empty : rb.equalEmpty = true := by rw [equalEmpty, none, meet]; simp
  rw [step_still (still_idle rb), empty, if_pos rfl, if_pos rfl]

/-- All of the older allocation is nearer to the head than the newer one. -/
def Behind (n head : Nat) (newer older : RbAlloc) : Prop :=
  ∀ i, older.region.Contains i → ∀ j, newer.region.Contains j → distance n head i < distance n head j

/-- A ring with its live allocations in the order of their grants. -/
structure Queued (rb : ClusterRb (numSlots slotBits) slotBits) (live : List RbAlloc) : Prop where
  holds : Holds rb live
  ordered : live.Pairwise (Behind (numSlots slotBits) rb.headPtrQ)

/-- Slots that the head does not pass come nearer by as much as it moves. -/
theorem distance_moved {n head i r : Nat} (headInside : head < n) (inside : i < n)
    (ahead : r ≤ distance n head i) :
    distance n (if head + r < n then head + r else head + r - n) i = distance n head i - r := by
  rw [distance] at ahead ⊢
  rw [distance]
  split_ifs at ahead ⊢ <;> omega

/-- What is granted is no nearer than the tail. -/
theorem granted_far (holds : Holds rb live) (rule : Rule (rb, live) inp) {alloc : RbAlloc}
    (new : alloc ∈ rb.granted inp) {j : Nat} (contains : alloc.region.Contains j) :
    rb.equalFull = false ∧ j < numSlots slotBits ∧
      distance (numSlots slotBits) rb.headPtrQ rb.tailPtrQ ≤
        distance (numSlots slotBits) rb.headPtrQ j := by
  have tail := holds.inv.tail_lt
  have region : alloc.region ∈ rb.pushed inp := by
    rw [← holds.granted_region rule]
    exact List.mem_map_of_mem new
  rw [pushed] at region
  split at region
  next enabled =>
    rw [List.mem_singleton.mp region] at contains
    simp only [Bool.and_eq_true, pushEn] at enabled
    have room := (holds.pushSize_eq rule enabled.1.2).2.2
    obtain ⟨notFull, cases⟩ := fit_cases holds.inv.inRing enabled.1.1 room
    have inside := (push_free holds.inv enabled.1.1 room).1
    obtain ⟨low, high⟩ := contains
    simp only [pushRegion] at low high
    rw [pushIdx_eq holds.inv enabled.1.1 room] at low high inside
    refine ⟨notFull, by omega, ?_⟩
    rw [distance, distance]
    rcases cases with ⟨none, ⟨below, fits⟩ | ⟨above, fits⟩⟩ | ⟨pad, below, fits⟩
    · rw [if_pos none] at low high
      split <;> split <;> omega
    · rw [if_pos none] at low high
      split <;> split <;> omega
    · rw [if_neg (by omega)] at low high
      split <;> split <;> omega
  next => cases region

theorem Queued.grows (queued : Queued rb live) (rule : Rule (rb, live) inp) :
    (rb.granted inp ++ live).Pairwise (Behind (numSlots slotBits) (rb.step inp).headPtrQ) := by
  have holds := queued.holds
  have head := holds.inv.head_lt
  cases quiet : rb.quiet inp with
  | true =>
    have none : rb.granted inp = [] := by
      simp only [ClusterRb.quiet, Bool.and_eq_true, Bool.not_eq_true'] at quiet
      rw [granted, allocReadyO, quiet.1.1, if_neg Bool.false_ne_true]
    rw [none, (holds.safeStep rule).resets quiet]
    exact .nil
  | false =>
    have moved : (rb.step inp).headPtrQ = _ := headPtrD_eq holds.inv quiet
    have most := (headPtrIncrReal_spec holds.inv.inRing).1
    rw [headPtrIncrMax_eq holds.inv.inRing] at most
    -- a live slot is in the ring and ahead of where the head moves to
    have ahead : ∀ alloc ∈ live, ∀ i, alloc.region.Contains i → i < numSlots slotBits ∧
        rb.bitmapQ i = true ∧ rb.headPtrIncrReal ≤ distance (numSlots slotBits) rb.headPtrQ i := by
      intro alloc among i contains
      have below : i < numSlots slotBits :=
        Nat.lt_of_lt_of_le contains.2 (holds.safe.inside alloc among)
      have set := (holds.safe.union i below).mpr ⟨alloc, among, contains⟩
      exact ⟨below, set, holds.inv.ahead below set⟩
    have atMostOne : ∀ before, (rb.granted inp).Pairwise before := by
      intro before
      rw [granted]
      split
      · exact List.pairwise_singleton _ _
      · exact .nil
    rw [moved]
    refine List.pairwise_append.mpr ⟨atMostOne _, ?_, ?_⟩
    · refine queued.ordered.imp_of_mem fun {newer older} newerLive olderLive behind => ?_
      intro i inOlder j inNewer
      obtain ⟨iBelow, -, iAhead⟩ := ahead older olderLive i inOlder
      obtain ⟨jBelow, -, jAhead⟩ := ahead newer newerLive j inNewer
      rw [distance_moved head iBelow iAhead, distance_moved head jBelow jAhead]
      have order := behind i inOlder j inNewer
      omega
    · intro newer new older olderLive i inOlder j inNewer
      obtain ⟨iBelow, set, iAhead⟩ := ahead older olderLive i inOlder
      obtain ⟨notFull, jBelow, far⟩ := granted_far holds rule new inNewer
      have meet : rb.headPtrQ ≠ rb.tailPtrQ := by
        intro meet
        rw [unset_of_meet notFull meet i iBelow] at set
        cases set
      have near := (inArc_iff meet head holds.inv.tail_lt iBelow).mp (holds.inv.in_arc i iBelow set)
      rw [distance_moved head iBelow iAhead, distance_moved head jBelow (by omega)]
      omega

theorem Queued.step (queued : Queued rb live) (rule : Rule (rb, live) inp) :
    Queued (rb.step inp) (rb.granted inp ++ afterFree live inp) where
  holds := queued.holds.step rule
  ordered := by
    refine (queued.grows rule).sublist (List.Sublist.append_left ?_ _)
    rw [afterFree]
    split
    · exact List.erase_sublist
    · exact List.Sublist.refl _

/-! ## At rest -/

theorem Queued.run {inputs : List ClusterRbIn}
    (admitted : (traced (numSlots slotBits) slotBits).Admits Rule inputs) :
    Queued ((traced (numSlots slotBits) slotBits).run inputs).1
      ((traced (numSlots slotBits) slotBits).run inputs).2 :=
  admitted.invariant (fun state => Queued state.1 state.2)
    ⟨⟨inv_reset, fun _ among => by cases among⟩, .nil⟩ fun _ _ queued rule => queued.step rule

end Settle

/-! ## A ring of one slot -/

section OneSlot

variable {rb : ClusterRb 1 2} {live : List RbAlloc} {inp : ClusterRbIn}

/-- The head of a clear ring of one slot does not move: the count of free slots, one and one for
    an empty vector, does not fit in its bit. -/
theorem lone_clear_stuck (unset : rb.bitmapQ 0 = false) : rb.headPtrIncrReal = 0 := by
  have nothing : lzcEmpty 1 rb.bitmapShifted = true := by
    refine lzcEmpty_eq_true.mpr fun k _ => ?_
    rw [bitmapShifted, Nat.mod_one, unset]
  have incr : rb.headPtrIncr = 0 := by
    rw [headPtrIncr, nothing, lzcCnt, if_pos rfl, bitmapShifted, Nat.mod_one, unset]
    rfl
  rw [headPtrIncrReal, incr]
  split <;> omega

theorem step_lone_stuck (meet : rb.headPtrQ ≠ rb.tailPtrQ) (small : rb.headPtrQ ≤ 1)
    (stuck : rb.headPtrIncrReal = 0) : rb.step idle = rb := by
  have busy : rb.equalEmpty = false := by rw [equalEmpty, decide_eq_false meet, Bool.false_and]
  rw [step_still (still_idle rb), busy, if_neg Bool.false_ne_true, if_neg Bool.false_ne_true, stuck,
    Nat.add_zero, truncate_of_lt (by omega)]

theorem lone_notAnySet (unset : rb.bitmapQ 0 = false) : rb.anySet = false := by
  simp [anySet, unset]

theorem Lone.settles (lone : Lone rb live) : rb.settle.step idle = rb.settle ∧
    rb.Wedged = False ∧ (live = [] ∨ rb.settle = rb) := by
  cases lone with
  | clear unset order last =>
    have notFull := notFull_of_unset unset
    have free : rb.Wedged = False := by rw [Wedged, notFull]; simp
    by_cases meet : rb.headPtrQ = rb.tailPtrQ
    · have none := lone_notAnySet unset
      have settled : rb.settle = ⟨rb.bitmapQ, 0, 0⟩ := by
        rw [settle, step_clear none meet]
        exact step_clear none rfl
      refine ⟨?_, free, .inl rfl⟩
      rw [settled]
      exact step_clear none rfl
    · have stuck := step_lone_stuck meet (order.trans last) (lone_clear_stuck unset)
      refine ⟨?_, free, .inl rfl⟩
      rw [settle, stuck, stuck, stuck]
  | taken some small set head tail =>
    have stuck := step_lone_stuck (by omega) (by omega)
      (lone_head_stays set head (lone_inRing (by omega) (by omega)))
    refine ⟨by rw [settle, stuck, stuck, stuck], ?_, .inr (by rw [settle, stuck, stuck])⟩
    rw [Wedged, equalFull, head, tail]
    simp

theorem Lone.run {inputs : List ClusterRbIn} (admitted : (traced 1 2).Admits Rule inputs) :
    Lone ((traced 1 2).run inputs).1 ((traced 1 2).run inputs).2 :=
  admitted.invariant (fun state => Lone state.1 state.2)
    (.clear rfl (le_refl _) (Nat.zero_le _)) fun _ _ lone rule => lone.step rule

end OneSlot

/-- Everywhere in every run that keeps to the rule: the head comes to rest at a live slot, or with
    nothing live, unless the ring is wedged; and when the oldest allocation is freed its space is
    on offer again, unless the ring is wedged then or has one slot only. -/
def Reclaims (slots ptrBits : Nat) : Prop :=
  ∀ inputs, (traced slots ptrBits).Admits Rule inputs →
    (ComesToRest ((traced slots ptrBits).run inputs).1 ((traced slots ptrBits).run inputs).2 ↔
      ¬((traced slots ptrBits).run inputs).1.Wedged) ∧
    ∀ inp, Rule ((traced slots ptrBits).run inputs) inp → inp.freeValidI = true →
      ((traced slots ptrBits).run inputs).2.getLast? = some (freed inp) →
        ((((traced slots ptrBits).run inputs).1.step inp).Advertises (freed inp).region ↔
          slots ≠ 1 ∧ ¬(((traced slots ptrBits).run inputs).1.step inp).Wedged)

instance (rb : ClusterRb slots ptrBits) : Decidable rb.Wedged :=
  inferInstanceAs (Decidable (_ ∧ _))

/-- A ring of four slots with both halves in use. -/
def halves : List ClusterRbIn := [request 128, request 128]

end ClusterRb

end Pspin
