import Pspin.Clocked.Regions
import Pspin.PktScheduler.ClusterRb

/-! # The live regions of a ring buffer

The bitmap of a ring marks the regions handed out and not freed, and all of them
lie between head and tail, going round.  An allocation no larger than the space
on offer takes free slots, and frees and the movement of the head keep the rest.
-/

namespace Pspin

open Clocked

namespace ClusterRb

variable {slotBits : Nat} {rb : ClusterRb (numSlots slotBits) slotBits} {inp : ClusterRbIn}
  {live : List Region}

/-- From head to tail, going round; anywhere if they meet. -/
def InArc (head tail i : Nat) : Prop :=
  (head < tail → head ≤ i ∧ i < tail) ∧ (tail < head → head ≤ i ∨ i < tail)

structure Inv (rb : ClusterRb (numSlots slotBits) slotBits) (live : List Region) : Prop where
  head_lt : rb.headPtrQ < numSlots slotBits
  tail_lt : rb.tailPtrQ < numSlots slotBits
  layout : Layout (numSlots slotBits) rb.bitmapQ live
  in_arc : ∀ i < numSlots slotBits, rb.bitmapQ i = true → InArc rb.headPtrQ rb.tailPtrQ i

theorem Inv.inRing (inv : rb.Inv live) : rb.InRing where
  some := Nat.two_pow_pos _
  head_le := inv.head_lt.le
  tail_le := inv.tail_lt.le

theorem inv_reset : (reset : ClusterRb (numSlots slotBits) slotBits).Inv [] where
  head_lt := Nat.two_pow_pos _
  tail_lt := Nat.two_pow_pos _
  layout := .empty fun _ _ => rfl
  in_arc _ _ set := by cases set

theorem Inv.perm (inv : rb.Inv live) {live' : List Region} (same : live.Perm live') :
    rb.Inv live' where
  head_lt := inv.head_lt
  tail_lt := inv.tail_lt
  layout := inv.layout.perm same
  in_arc := inv.in_arc

/-! ## The pushed region -/

def pushRegion (rb : ClusterRb (numSlots slotBits) slotBits) (inp : ClusterRbIn) : Region :=
  ⟨rb.pushIdx inp, pushSize (numSlots slotBits) inp⟩

def popRegion (slotBits : Nat) (inp : ClusterRbIn) : Region :=
  ⟨popIdx slotBits inp, popSize (numSlots slotBits) inp⟩

theorem not_anySet (none : rb.anySet = false) : ∀ i < numSlots slotBits, rb.bitmapQ i = false := by
  simpa [anySet] using none

/-- Pointers that do not meet, or meet in an empty ring. -/
theorem unset_of_meet (notFull : rb.equalFull = false) (meet : rb.headPtrQ = rb.tailPtrQ) :
    ∀ i < numSlots slotBits, rb.bitmapQ i = false := by
  apply not_anySet
  simpa [equalFull, meet] using notFull

/-- Where an allocation is put: at the tail, up to the end or to the head, or at the
    start, before the head. -/
theorem fit_cases (inRing : rb.InRing) (fits : rb.dataFits inp = true)
    (small : pushSize (numSlots slotBits) inp ≤ rb.freeSlots) :
    rb.equalFull = false ∧
      ((rb.padding inp = 0 ∧
          ((rb.headPtrQ ≤ rb.tailPtrQ ∧
              pushSize (numSlots slotBits) inp ≤ numSlots slotBits - rb.tailPtrQ) ∨
            (rb.tailPtrQ < rb.headPtrQ ∧
              pushSize (numSlots slotBits) inp ≤ rb.headPtrQ - rb.tailPtrQ))) ∨
        (rb.padding inp = numSlots slotBits - rb.tailPtrQ ∧ rb.headPtrQ ≤ rb.tailPtrQ ∧
          pushSize (numSlots slotBits) inp < rb.headPtrQ)) := by
  rw [dataFits, fit_eq inRing] at fits
  rw [padding, fit_eq inRing]
  by_cases full : rb.equalFull = true
  · simp [full] at fits
  refine ⟨by simpa using full, ?_⟩
  by_cases below : rb.headPtrQ ≤ rb.tailPtrQ
  · by_cases toEnd : pushSize (numSlots slotBits) inp ≤ numSlots slotBits - rb.tailPtrQ
    · exact .inl ⟨by simp [full, below, toEnd], .inl ⟨below, toEnd⟩⟩
    · by_cases before : pushSize (numSlots slotBits) inp < rb.headPtrQ
      · exact .inr ⟨by simp [full, below, toEnd, before], below, before⟩
      · simp [full, below, toEnd, before] at fits
  · refine .inl ⟨?_, .inr ⟨by omega, ?_⟩⟩
    · simp only [full, below, if_false, Bool.false_eq_true]
      split <;> rfl
    · simpa [freeSlots_eq inRing, full, below] using small

/-! ## Moving round -/

theorem truncate_wrap {slotBits value : Nat} (small : value < 2 * numSlots slotBits) :
    truncate slotBits value =
      if value < numSlots slotBits then value else value - numSlots slotBits := by
  show value % numSlots slotBits = _
  by_cases below : value < numSlots slotBits
  · rw [if_pos below, Nat.mod_eq_of_lt below]
  · rw [if_neg below, Nat.mod_eq_sub_mod (by omega), Nat.mod_eq_of_lt (by omega)]

/-- The head passes free slots only, and never the tail. -/
theorem headPtrIncrReal_spec {slots ptrBits : Nat} {rb : ClusterRb slots ptrBits}
    (inRing : rb.InRing) : rb.headPtrIncrReal ≤ rb.headPtrIncrMax ∧
      ∀ k < rb.headPtrIncrReal, k < slots → rb.bitmapQ ((rb.headPtrQ + k) % slots) = false := by
  constructor
  · unfold headPtrIncrReal
    split <;> omega
  · intro k passed inside
    cases none : lzcEmpty slots rb.bitmapShifted with
    | true => exact lzcEmpty_eq_true.mp none k inside
    | false =>
      obtain ⟨bound, -, unset⟩ := lzcCnt_spec none
      have incr : rb.headPtrIncr = lzcCnt slots rb.bitmapShifted := by
        rw [headPtrIncr, none]
        apply truncate_of_lt
        rw [Bool.toNat_false, Nat.add_zero]
        exact bound.trans (lt_two_pow_clog2_succ inRing.some)
      apply unset
      unfold headPtrIncrReal at passed
      split at passed <;> omega

/-- A slot in use is ahead of where the head moves to. -/
theorem Inv.ahead (inv : rb.Inv live) {i : Nat} (below : i < numSlots slotBits)
    (set : rb.bitmapQ i = true) :
    rb.headPtrIncrReal ≤ if rb.headPtrQ ≤ i then i - rb.headPtrQ
      else i + numSlots slotBits - rb.headPtrQ := by
  obtain ⟨-, unset⟩ := headPtrIncrReal_spec inv.inRing
  have inside := inv.head_lt
  by_contra passed
  split at passed
  next after =>
    have free := unset (i - rb.headPtrQ) (by omega) (by omega)
    rw [Nat.add_sub_cancel' after, Nat.mod_eq_of_lt below, set] at free
    cases free
  next before =>
    have free := unset (i + numSlots slotBits - rb.headPtrQ) (by omega) (by omega)
    rw [Nat.add_sub_cancel' (by omega), Nat.add_mod_right, Nat.mod_eq_of_lt below, set] at free
    cases free

/-! ## One cycle -/

theorem pushIdx_eq (inv : rb.Inv live) (fits : rb.dataFits inp = true)
    (small : pushSize (numSlots slotBits) inp ≤ rb.freeSlots) :
    rb.pushIdx inp = if rb.padding inp = 0 then rb.tailPtrQ else 0 := by
  have inside := inv.tail_lt
  obtain ⟨-, ⟨none, -⟩ | ⟨pad, -⟩⟩ := fit_cases inv.inRing fits small
  · rw [pushIdx, none, if_pos rfl]
    exact truncate_of_lt inside
  · rw [pushIdx, if_neg (by omega), truncate_wrap (by omega), if_neg (by omega)]
    omega

/-- A push that fits and is no larger than the space on offer takes free slots of the ring. -/
theorem push_free (inv : rb.Inv live) (fits : rb.dataFits inp = true)
    (small : pushSize (numSlots slotBits) inp ≤ rb.freeSlots) :
    rb.pushIdx inp + pushSize (numSlots slotBits) inp ≤ numSlots slotBits ∧
      ∀ i, (rb.pushRegion inp).Contains i → rb.bitmapQ i = false := by
  have headInside := inv.head_lt
  have tailInside := inv.tail_lt
  have index := pushIdx_eq inv fits small
  obtain ⟨notFull, cases⟩ := fit_cases inv.inRing fits small
  have inside : rb.pushIdx inp + pushSize (numSlots slotBits) inp ≤ numSlots slotBits := by
    rw [index]
    rcases cases with ⟨none, ⟨below, room⟩ | ⟨above, room⟩⟩ | ⟨pad, below, room⟩
    · rw [if_pos none]; omega
    · rw [if_pos none]; omega
    · rw [if_neg (by omega)]; omega
  refine ⟨inside, fun i contains => ?_⟩
  obtain ⟨from_, until_⟩ := contains
  simp only [pushRegion] at from_ until_
  have below : i < numSlots slotBits := by omega
  by_contra set
  rw [Bool.not_eq_false] at set
  have meet : rb.headPtrQ ≠ rb.tailPtrQ := by
    intro meet
    rw [unset_of_meet notFull meet i below] at set
    cases set
  obtain ⟨forward, around⟩ := inv.in_arc i below set
  rw [index] at from_ until_
  rcases cases with ⟨none, ⟨below, room⟩ | ⟨above, room⟩⟩ | ⟨pad, below, room⟩
  · rw [if_pos none] at from_ until_; omega
  · rw [if_pos none] at from_ until_; omega
  · rw [if_neg (by omega)] at until_; omega

/-- A free names a live region, unless it frees nothing. -/
def Frees (slotBits : Nat) (inp : ClusterRbIn) (live : List Region) : Prop :=
  inp.freeValidI = true → popSize (numSlots slotBits) inp = 0 ∨ popRegion slotBits inp ∈ live

/-- The live regions after the frees of a cycle. -/
def afterPop (slotBits : Nat) (inp : ClusterRbIn) (live : List Region) : List Region :=
  if inp.freeValidI && decide (0 < popSize (numSlots slotBits) inp)
  then live.erase (popRegion slotBits inp) else live

theorem frees_idle (live : List Region) (idle : inp.freeValidI = false) :
    Frees slotBits inp live ∧ afterPop slotBits inp live = live := by
  constructor
  · intro freeing
    rw [idle] at freeing
    cases freeing
  · rw [afterPop, idle, Bool.false_and, if_neg Bool.false_ne_true]

theorem frees_nothing (live : List Region) (nothing : popSize (numSlots slotBits) inp = 0) :
    Frees slotBits inp live ∧ afterPop slotBits inp live = live := by
  refine ⟨fun _ => .inl nothing, ?_⟩
  simp [afterPop, nothing]

theorem frees_member (freeing : inp.freeValidI = true) (member : popRegion slotBits inp ∈ live)
    (some : 0 < popSize (numSlots slotBits) inp) :
    Frees slotBits inp live ∧ afterPop slotBits inp live = live.erase (popRegion slotBits inp) := by
  refine ⟨fun _ => .inr member, ?_⟩
  simp [afterPop, freeing, some]

/-- The region a cycle allocates. -/
def pushed (rb : ClusterRb (numSlots slotBits) slotBits) (inp : ClusterRbIn) : List Region :=
  if rb.pushEn inp && decide (0 < pushSize (numSlots slotBits) inp)
  then [rb.pushRegion inp] else []

theorem bitmapD_eq (rb : ClusterRb (numSlots slotBits) slotBits) (inp : ClusterRbIn) (i : Nat) :
    rb.bitmapD inp i = Bool.xor (rb.bitmapQ i)
      (rb.pushEn inp && decide ((rb.pushRegion inp).Contains i) ||
        inp.freeValidI && decide ((popRegion slotBits inp).Contains i)) := by
  rw [bitmapD, Region.decide_contains, Region.decide_contains, Bool.and_assoc, Bool.and_assoc]
  rfl

theorem popped_set (layout : Layout (numSlots slotBits) rb.bitmapQ live)
    (frees : Frees slotBits inp live) (freeing : inp.freeValidI = true) {i : Nat}
    (below : i < numSlots slotBits) (contains : (popRegion slotBits inp).Contains i) :
    rb.bitmapQ i = true := by
  rcases frees freeing with none | member
  · have := contains.1
    have := contains.2
    simp only [popRegion] at *
    omega
  · exact (layout.marks i below).mpr ⟨_, member, contains⟩

theorem layout_step (inv : rb.Inv live) (frees : Frees slotBits inp live)
    (small : inp.allocValidI = true → pushSize (numSlots slotBits) inp ≤ rb.freeSlots) :
    Layout (numSlots slotBits) (rb.bitmapD inp) (rb.pushed inp ++ afterPop slotBits inp live) := by
  -- first what is freed leaves the layout, then what is allocated joins it
  have afterFree : Layout (numSlots slotBits)
      (fun i => Bool.xor (rb.bitmapQ i)
        (inp.freeValidI && decide ((popRegion slotBits inp).Contains i)))
      (afterPop slotBits inp live) := by
    cases freeing : inp.freeValidI with
    | false =>
      simp only [afterPop, freeing, Bool.false_and]
      exact inv.layout.congr (by simp)
    | true =>
      by_cases some : 0 < popSize (numSlots slotBits) inp
      · have member : popRegion slotBits inp ∈ live := (frees freeing).resolve_left (by omega)
        simp only [afterPop, freeing, some, decide_true, Bool.and_self, if_true]
        exact (inv.layout.perm (List.perm_cons_erase member)).remove (by simp)
      · simp only [afterPop, freeing, some, decide_false, Bool.and_false]
        refine inv.layout.congr fun i below => ?_
        have outside : ¬(popRegion slotBits inp).Contains i := by
          rintro ⟨low, high⟩
          simp only [popRegion] at low high
          omega
        simp [outside]
  by_cases pushing : rb.pushEn inp = true ∧ 0 < pushSize (numSlots slotBits) inp
  · obtain ⟨enabled, some⟩ := pushing
    simp only [pushEn, Bool.and_eq_true] at enabled
    obtain ⟨inside, free⟩ := push_free inv enabled.1 (small enabled.2)
    -- a slot is not handed out in the cycle in which it is given back
    have notPopped (i : Nat) (contains : (rb.pushRegion inp).Contains i) :
        (inp.freeValidI && decide ((popRegion slotBits inp).Contains i)) = false := by
      have below : i < numSlots slotBits := Nat.lt_of_lt_of_le contains.2 inside
      by_contra popped
      simp only [Bool.not_eq_false, Bool.and_eq_true, decide_eq_true_eq] at popped
      have set := popped_set inv.layout frees popped.1 below popped.2
      rw [free i contains] at set
      cases set
    have joins : rb.pushed inp = [rb.pushRegion inp] := by
      simp [pushed, pushEn, enabled, some]
    rw [joins, List.singleton_append]
    refine afterFree.add some inside (fun i contains => ?_) fun i below => ?_
    · rw [free i contains, notPopped i contains]
      rfl
    · rw [bitmapD_eq]
      simp only [pushEn, enabled, Bool.true_and]
      by_cases contains : (rb.pushRegion inp).Contains i
      · simp [contains, notPopped i contains]
      · simp [contains]
  · have none : rb.pushed inp = [] := by
      simp only [pushed, Bool.and_eq_true, decide_eq_true_eq]
      exact if_neg pushing
    rw [none, List.nil_append]
    refine afterFree.congr fun i below => ?_
    rw [bitmapD_eq]
    have outside : (rb.pushEn inp && decide ((rb.pushRegion inp).Contains i)) = false := by
      by_contra contains
      simp only [Bool.not_eq_false, Bool.and_eq_true, decide_eq_true_eq] at contains
      have low := contains.2.1
      have high := contains.2.2
      exact pushing ⟨contains.1, by simp only [pushRegion] at low high; omega⟩
    rw [outside, Bool.false_or]

theorem headPtrD_eq (inv : rb.Inv live) (busy : rb.quiet inp = false) :
    rb.headPtrD inp = if rb.headPtrQ + rb.headPtrIncrReal < numSlots slotBits
      then rb.headPtrQ + rb.headPtrIncrReal
      else rb.headPtrQ + rb.headPtrIncrReal - numSlots slotBits := by
  have head := inv.head_lt
  have tail := inv.tail_lt
  have most := (headPtrIncrReal_spec inv.inRing).1
  have maxBound : rb.headPtrIncrMax < numSlots slotBits := by
    rw [headPtrIncrMax_eq inv.inRing]
    split <;> omega
  rw [headPtrD, busy, if_neg Bool.false_ne_true, truncate_wrap (by omega)]

/-- The tail after a push: past the region pushed, back to the start at the end. -/
theorem tailPtrD_eq (inv : rb.Inv live) (enabled : rb.pushEn inp = true)
    (small : pushSize (numSlots slotBits) inp ≤ rb.freeSlots) :
    rb.tailPtrD inp =
      if rb.pushIdx inp + pushSize (numSlots slotBits) inp < numSlots slotBits
      then rb.pushIdx inp + pushSize (numSlots slotBits) inp else 0 := by
  have fits : rb.dataFits inp = true := by
    simp only [pushEn, Bool.and_eq_true] at enabled
    exact enabled.1
  have tail := inv.tail_lt
  have head := inv.head_lt
  have inside := (push_free inv fits small).1
  have index := pushIdx_eq inv fits small
  have busy : rb.quiet inp = false := by simp [quiet, enabled]
  rw [tailPtrD, busy, if_neg Bool.false_ne_true, if_pos enabled]
  obtain ⟨-, ⟨none, -⟩ | ⟨pad, below, before⟩⟩ := fit_cases inv.inRing fits small
  · rw [if_pos none] at index
    rw [none, Nat.add_zero, truncate_wrap (by omega), index]
    split
    · rfl
    · omega
  · rw [if_neg (by omega)] at index
    rw [pad, index, truncate_wrap (by omega), if_neg (by omega), if_pos (by omega)]
    omega

theorem in_arc_step (inv : rb.Inv live) (frees : Frees slotBits inp live)
    (small : inp.allocValidI = true → pushSize (numSlots slotBits) inp ≤ rb.freeSlots)
    {i : Nat} (below : i < numSlots slotBits) (set : rb.bitmapD inp i = true) :
    InArc (rb.headPtrD inp) (rb.tailPtrD inp) i := by
  have head := inv.head_lt
  have tail := inv.tail_lt
  have most := (headPtrIncrReal_spec inv.inRing).1
  rw [headPtrIncrMax_eq inv.inRing] at most
  -- a slot that is in use was before, or is handed out now
  have held : rb.bitmapQ i = true ∨
      (rb.pushEn inp = true ∧ (rb.pushRegion inp).Contains i) := by
    cases before : rb.bitmapQ i with
    | true => exact .inl rfl
    | false =>
      rw [bitmapD_eq, before, Bool.false_xor, Bool.or_eq_true, Bool.and_eq_true, Bool.and_eq_true,
        decide_eq_true_eq, decide_eq_true_eq] at set
      rcases set with pushed | ⟨freeing, contains⟩
      · exact .inr pushed
      · have := popped_set inv.layout frees freeing below contains
        rw [before] at this
        cases this
  cases enabled : rb.pushEn inp with
  | false =>
    have set : rb.bitmapQ i = true := held.resolve_right fun pushed => by simp [enabled] at pushed
    have busy : rb.quiet inp = false := by
      by_contra still
      simp only [quiet, equalEmpty, Bool.not_eq_false, Bool.and_eq_true, Bool.not_eq_true'] at still
      rw [not_anySet still.2.2 i below] at set
      cases set
    have stays : rb.tailPtrD inp = rb.tailPtrQ := by simp [tailPtrD, busy, enabled]
    have ahead := inv.ahead below set
    obtain ⟨forward, around⟩ := inv.in_arc i below set
    rw [headPtrD_eq inv busy, stays, InArc]
    split at most <;> split at ahead <;> split <;> omega
  | true =>
    have valid : rb.dataFits inp = true ∧ inp.allocValidI = true := by
      simpa only [pushEn, Bool.and_eq_true] using enabled
    have room := small valid.2
    have busy : rb.quiet inp = false := by simp [quiet, enabled]
    have index := pushIdx_eq inv valid.1 room
    have inside := (push_free inv valid.1 room).1
    obtain ⟨notFull, cases⟩ := fit_cases inv.inRing valid.1 room
    rw [headPtrD_eq inv busy, tailPtrD_eq inv enabled room, InArc]
    -- an old slot stays in the arc, which has become longer at its tail
    rcases held with set | ⟨-, low, high⟩
    · have ahead := inv.ahead below set
      have meet : rb.headPtrQ ≠ rb.tailPtrQ := by
        intro meet
        rw [unset_of_meet notFull meet i below] at set
        cases set
      obtain ⟨forward, around⟩ := inv.in_arc i below set
      rcases cases with ⟨none, ⟨before, fits⟩ | ⟨after, fits⟩⟩ | ⟨pad, before, fits⟩
      · rw [if_pos none] at index
        rw [index] at *
        split at most <;> split at ahead <;> split <;> split <;> omega
      · rw [if_pos none] at index
        rw [index] at *
        split at most <;> split at ahead <;> split <;> split <;> omega
      · rw [if_neg (by omega)] at index
        rw [index] at *
        split at most <;> split at ahead <;> split <;> split <;> omega
    -- a new slot lies between the old tail and the new one, or behind the wrap-around
    · simp only [pushRegion] at low high
      rcases cases with ⟨none, ⟨before, fits⟩ | ⟨after, fits⟩⟩ | ⟨pad, before, fits⟩
      · rw [if_pos none] at index
        split at most <;> split <;> split <;> omega
      · rw [if_pos none] at index
        split at most <;> split <;> split <;> omega
      · rw [if_neg (by omega)] at index
        split at most <;> split <;> split <;> omega

theorem Inv.step (inv : rb.Inv live) (frees : Frees slotBits inp live)
    (small : inp.allocValidI = true → pushSize (numSlots slotBits) inp ≤ rb.freeSlots) :
    (rb.step inp).Inv (rb.pushed inp ++ afterPop slotBits inp live) where
  head_lt := by
    show rb.headPtrD inp < numSlots slotBits
    unfold headPtrD
    split
    · exact Nat.two_pow_pos _
    · exact truncate_lt _ _
  tail_lt := by
    show rb.tailPtrD inp < numSlots slotBits
    unfold tailPtrD
    split
    · exact Nat.two_pow_pos _
    · split
      · exact truncate_lt _ _
      · exact inv.tail_lt
  layout := layout_step inv frees small
  in_arc _ below set := in_arc_step inv frees small below set

/-! ## The space on offer and the fit test -/

/-- The defect: the only place left is before the head and takes exactly all of it. -/
def FillsToHead (rb : ClusterRb (numSlots slotBits) slotBits) (slots : Nat) : Prop :=
  rb.headPtrQ ≤ rb.tailPtrQ ∧ numSlots slotBits - rb.tailPtrQ < slots ∧ slots = rb.headPtrQ

instance (rb : ClusterRb (numSlots slotBits) slotBits) (slots : Nat) : Decidable (rb.FillsToHead slots) :=
  inferInstanceAs (Decidable (_ ∧ _ ∧ _))

/-- A size within the space on offer fits, except when it would fill the ring to its head. -/
theorem dataFits_iff (inv : rb.Inv live) (some : 0 < pushSize (numSlots slotBits) inp)
    (small : pushSize (numSlots slotBits) inp ≤ rb.freeSlots) :
    rb.dataFits inp = true ↔ ¬rb.FillsToHead (pushSize (numSlots slotBits) inp) := by
  have head := inv.head_lt
  have tail := inv.tail_lt
  rw [freeSlots_eq inv.inRing] at small
  rw [dataFits, fit_eq inv.inRing]
  by_cases full : rb.equalFull = true
  · simp only [full, if_true] at small
    omega
  by_cases before : rb.headPtrQ ≤ rb.tailPtrQ
  · simp only [full, before, if_true, if_false, Bool.false_eq_true] at small
    by_cases toEnd : pushSize (numSlots slotBits) inp ≤ numSlots slotBits - rb.tailPtrQ
    · simp only [full, before, ge_iff_le, toEnd, if_true, if_false, Bool.false_eq_true, true_iff,
        FillsToHead]
      omega
    · by_cases wider : numSlots slotBits - rb.tailPtrQ > rb.headPtrQ
      · rw [if_pos wider] at small
        omega
      · rw [if_neg wider] at small
        by_cases below : pushSize (numSlots slotBits) inp < rb.headPtrQ <;>
          simp [full, before, toEnd, below, FillsToHead] <;> omega
  · simp only [full, before, if_false, Bool.false_eq_true] at small
    have width : max slotBits (slotSizeBits (numSlots slotBits)) = slotBits + 1 := by
      rw [slotSizeBits, numSlots, clog2_two_pow]
      omega
    have double : 2 ^ (slotBits + 1) = 2 * numSlots slotBits := by
      rw [numSlots, pow_succ, Nat.mul_comm]
    have room : pushSize (numSlots slotBits) inp ≤
        subtract (max slotBits (slotSizeBits (numSlots slotBits))) rb.tailPtrQ rb.headPtrQ := by
      rw [width, subtract_of_lt (by omega) (by omega)]
      omega
    simp [full, before, room, FillsToHead]

end ClusterRb

end Pspin
