import Pspin.VerilatorModel.PktRingSafety

/-! # Space in the packet buffer of `NICInbound` comes back

When every packet is freed the head has met the tail, unless the tail was moved to
the start of a ring that was empty: the cut is then where the head is, and the
head, which is compared with it after it moves, never goes back.
-/

namespace Pspin

open Clocked

namespace PktRing

variable {params : PktRingParams} {ring : PktRing} {size : Nat}

/-- The tail is moved to the start of the buffer in a ring that is empty. -/
def WrapsEmpty (params : PktRingParams) (ring : PktRing) (size : Nat) : Prop :=
  (ring.tailPtr = ring.headPtr ∧ ring.inFlightPackets = 0) ∧
    ring.leftAtEnd params < size ∧ size ≤ ring.headPtr

instance : Decidable (ring.WrapsEmpty params size) := inferInstanceAs (Decidable (_ ∧ _))

/-- Nothing is parked at the head, and the head is before the cut. -/
structure Settled (ring : PktRing) : Prop where
  parked : ring.parkedAt (ring.headPtr % 2 ^ 32) = none
  beforeCut : ring.cut = true → ring.headPtr < ring.cutPtr

/-- Pointers and parked sizes are in whole segments. -/
structure Aligned (ring : PktRing) : Prop where
  headPtr : 64 ∣ ring.headPtr
  tailPtr : 64 ∣ ring.tailPtr
  parked : ∀ entry ∈ ring.freeReqQueue, 64 ∣ entry.2

theorem dvd_roundedSize (size : Nat) : 64 ∣ roundedSize size := by
  rw [roundedSize, niPktAddrAlignment]
  omega

/-- An empty ring takes packets of all sizes when its head is at the start, or so near the
    end that nothing fits after it. -/
theorem takes_all_iff {buffSize head : Nat} (width : buffSize < 2 ^ 32) (below : head ≤ buffSize)
    (aligned : 64 ∣ head) :
    (∀ pktSize : BitVec 32, 0 < pktSize.toNat → pktSize.toNat ≤ buffSize →
      roundedSize pktSize.toNat ≤ buffSize - head ∨ roundedSize pktSize.toNat ≤ head) ↔
    (64 ∣ buffSize ∨ 2 ^ 32 - 64 < buffSize) ∧ (head = 0 ∨ head = buffSize - buffSize % 64) := by
  constructor
  · intro takes
    obtain empty | positive := Nat.eq_zero_or_pos buffSize
    · omega
    -- the largest packet whose size can be rounded up decides
    have largest : ∃ size, 0 < size ∧ size ≤ buffSize ∧ size ≤ 2 ^ 32 - 64 ∧
        (size = buffSize ∨ size = 2 ^ 32 - 64) := by
      obtain small | large := Nat.le_total buffSize (2 ^ 32 - 64)
      · exact ⟨buffSize, positive, Nat.le_refl _, small, .inl rfl⟩
      · exact ⟨2 ^ 32 - 64, by decide, large, Nat.le_refl _, .inr rfl⟩
    obtain ⟨size, nonzero, atMost, fits, which⟩ := largest
    have toNat : (BitVec.ofNat 32 size).toNat = size := Nat.mod_eq_of_lt (by omega)
    have taken := takes (BitVec.ofNat 32 size)
    rw [toNat, roundedSize_eq fits, roundUp] at taken
    have taken := taken nonzero atMost
    omega
  · rintro ⟨whole, atEnd⟩ pktSize - atMost
    obtain large | fits := Nat.lt_or_ge (2 ^ 32 - 64) pktSize.toNat
    · rw [roundedSize_eq_zero large pktSize.isLt]
      exact .inl (Nat.zero_le _)
    · rw [roundedSize_eq fits, roundUp]
      omega

namespace Aligned

theorem grant (aligned : ring.Aligned) (dvd : 64 ∣ size) : (ring.grant size).Aligned where
  headPtr := aligned.headPtr
  tailPtr := by
    have tail := aligned.tailPtr
    change 64 ∣ (ring.tailPtr + size) % 2 ^ 64
    omega
  parked := aligned.parked

theorem place {placed : PktRing} (aligned : ring.Aligned)
    (found : ring.place params size = some placed) : placed.Aligned := by
  obtain ⟨rfl, -⟩ | ⟨rfl, -⟩ := place_cases found
  · exact aligned
  · exact ⟨aligned.headPtr, Nat.dvd_zero _, aligned.parked⟩

theorem advance {entry : Nat × Nat} (aligned : ring.Aligned) (member : entry ∈ ring.freeReqQueue) :
    (ring.advance entry).Aligned := by
  have head := aligned.headPtr
  have size := aligned.parked entry member
  have rest : ∀ other ∈ ring.freeReqQueue.erase entry, 64 ∣ other.2 :=
    fun other inRest => aligned.parked other (List.mem_of_mem_erase inRest)
  rw [PktRing.advance]
  dsimp only
  split
  next => exact ⟨Nat.dvd_zero _, aligned.tailPtr, rest⟩
  next =>
    refine ⟨?_, aligned.tailPtr, rest⟩
    dsimp only
    omega

theorem reclaim (fuel : Nat) (aligned : ring.Aligned) : (ring.reclaim fuel).Aligned := by
  induction fuel generalizing ring with
  | zero => exact aligned
  | succ fuel inductionHypothesis =>
    rw [PktRing.reclaim]
    split
    next => exact aligned
    next entry found => exact inductionHypothesis (aligned.advance (List.mem_of_find?_eq_some found))

end Aligned

theorem length_advance {entry : Nat × Nat} (member : entry ∈ ring.freeReqQueue) :
    (ring.advance entry).freeReqQueue.length + 1 = ring.freeReqQueue.length := by
  have erased : (ring.advance entry).freeReqQueue = ring.freeReqQueue.erase entry := by
    rw [advance]
    dsimp only
    split <;> rfl
  have some := List.length_pos_of_mem member
  rw [erased, List.length_erase_of_mem member]
  omega

theorem cutPtr_advance (entry : Nat × Nat) : (ring.advance entry).cutPtr = ring.cutPtr := by
  rw [advance]
  dsimp only
  split <;> rfl

/-- What is placed without moving the tail in an empty ring leaves the head before the cut. -/
theorem beforeCut_place {placed : PktRing} (before : ring.cut = true → ring.headPtr < ring.cutPtr)
    (found : ring.place params size = some placed) (steady : ¬ring.WrapsEmpty params size) :
    placed.cut = true → placed.headPtr < placed.cutPtr := by
  obtain ⟨rfl, -⟩ | ⟨rfl, unwrapped, full, fits⟩ := place_cases found
  · exact before
  · intro _
    obtain ahead | empty := unwrapped
    · exact ahead
    · exact absurd ⟨empty, full, fits⟩ steady

end PktRing

namespace Tiled

variable {params : PktRingParams} {ring : PktRing} {given first second : List Region}

/-- The loop ends because nothing is parked at the head. -/
theorem settles (fuel : Nat) (tiled : Tiled params ring given first second)
    (beforeCut : ring.cut = true → ring.headPtr < ring.cutPtr)
    (enough : ring.freeReqQueue.length ≤ fuel) : (ring.reclaim fuel).Settled := by
  -- one turn of the loop takes one parked entry away
  induction fuel generalizing ring first second with
  | zero =>
    have none : ring.freeReqQueue = [] := List.eq_nil_of_length_eq_zero (Nat.le_zero.mp enough)
    refine ⟨?_, beforeCut⟩
    rw [PktRing.reclaim, PktRing.parkedAt, none]
    rfl
  | succ fuel inductionHypothesis =>
    rw [PktRing.reclaim]
    split
    next found => exact ⟨found, beforeCut⟩
    next entry found =>
      have length := PktRing.length_advance (List.mem_of_find?_eq_some found)
      obtain ⟨-, beforeCut, first, second, advanced⟩ := tiled.advance found
      rw [← PktRing.cutPtr_advance entry] at beforeCut
      exact inductionHypothesis advanced beforeCut (by omega)

/-- With the head at the cut the loop does nothing. -/
theorem reclaim_of_atCut (tiled : Tiled params ring given first second) (cut : ring.cut = true)
    (atCut : ring.headPtr = ring.cutPtr) (fuel : Nat) : ring.reclaim fuel = ring := by
  have ahead := tiled.ahead
  rw [PktRing.endPtr_of_cut cut, ← atCut] at ahead
  obtain rfl := ahead.eq_nil tiled.nonempty_first
  cases fuel with
  | zero => rfl
  | succ fuel =>
    rw [PktRing.reclaim]
    split
    next => rfl
    next entry found =>
      obtain ⟨-, rest, cons, -⟩ := tiled.first_eq_cons found
      cases cons

/-- A ring that is settled and holds no packets is empty. -/
theorem empty (tiled : Tiled params ring [] first second) (settled : ring.Settled) :
    ring.freeReqQueue = [] ∧ ring.inFlightPackets = 0 ∧ ring.tailPtr = ring.headPtr := by
  have ahead := tiled.ahead
  -- a block in front would be parked at the head, and the loop would have gone on
  have none : first = [] := by
    cases first with
    | nil => rfl
    | cons region rest =>
      have member := tiled.blocks.mem_iff.mpr (List.mem_append_left second List.mem_cons_self)
      obtain ⟨entry, inQueue, rfl⟩ := List.mem_map.mp member
      have head := tiled.headPtr_le
      have width := params.size_lt
      have atHead : entry.1 = ring.headPtr % 2 ^ 32 := by
        rw [Nat.mod_eq_of_lt (by omega)]
        exact ahead.1
      exact absurd (beq_iff_eq.mpr atHead) (List.find?_eq_none.mp settled.parked entry inQueue)
  subst none
  have uncut : ring.cut = false := by
    by_contra cut
    have cut := (Bool.not_eq_false _).mp cut
    rw [PktRing.endPtr_of_cut cut] at ahead
    exact absurd ahead (Nat.ne_of_lt (settled.beforeCut cut))
  rw [PktRing.endPtr_of_uncut uncut] at ahead
  obtain rfl := tiled.second_eq_nil uncut
  exact ⟨List.map_eq_nil_iff.mp tiled.blocks.eq_nil, tiled.counted, ahead.symm⟩

end Tiled

namespace PktTrace

variable (params : PktRingParams) (trace : PktTrace)

/-- No packet moves the tail to the start of an empty ring. -/
def Steady : PktRingIn → Prop
  | .allocate pktSize => ¬trace.1.WrapsEmpty params (PktRing.roundedSize pktSize.toNat)
  | .free _ => True

instance : ∀ inp, Decidable (trace.Steady params inp)
  | .allocate _ => inferInstanceAs (Decidable ¬_)
  | .free _ => inferInstanceAs (Decidable True)

/-- Once every packet is freed, a packet of any size up to the buffer's finds a place. -/
def Restored : Prop :=
  trace.2.live = [] → trace.1.freeReqQueue = [] ∧ trace.1.inFlightPackets = 0 ∧
    ∀ pktSize : BitVec 32, 0 < pktSize.toNat → pktSize.toNat ≤ params.l2PktBuffSize →
      (trace.1.allocatePktSpace params pktSize.toNat).isSome = true

/-- The invariant: besides, the loop of `free_pkt_space` has run to its end. -/
structure Reclaims : Prop extends Inv params trace where
  settled : trace.1.Settled
  aligned : trace.1.Aligned

variable {params trace} {inp : PktRingIn} {pktSize : BitVec 32} {pkt : Pkt}

namespace Reclaims

theorem reset : Reclaims params (pktTrace params).reset where
  toInv := Inv.reset
  settled := ⟨rfl, fun cut => absurd cut Bool.false_ne_true⟩
  aligned := ⟨Nat.dvd_zero _, Nat.dvd_zero _, fun _ member => by cases member⟩

theorem allocate (inv : trace.Reclaims params)
    (steady : ¬trace.1.WrapsEmpty params (PktRing.roundedSize pktSize.toNat)) :
    (trace.step params (.allocate pktSize)).1.Settled ∧
      (trace.step params (.allocate pktSize)).1.Aligned := by
  cases found : trace.1.place params (PktRing.roundedSize pktSize.toNat) with
  | none =>
    rw [step_refused found]
    exact ⟨inv.settled, inv.aligned⟩
  | some placed =>
    have beforeCut := PktRing.beforeCut_place inv.settled.beforeCut found steady
    rw [step_granted found]
    refine ⟨⟨?_, beforeCut⟩, (inv.aligned.place found).grant (PktRing.dvd_roundedSize _)⟩
    obtain ⟨rfl, -⟩ | ⟨rfl, -⟩ := PktRing.place_cases found <;> exact inv.settled.parked

theorem free (inv : trace.Reclaims params) (member : pkt ∈ trace.2.live) :
    (trace.step params (.free pkt)).1.Settled ∧ (trace.step params (.free pkt)).1.Aligned := by
  obtain ⟨offset, found, first, second, tiled⟩ := inv.park member
  rw [step_freed found]
  refine ⟨tiled.settles _ inv.settled.beforeCut (Nat.le_refl _), PktRing.Aligned.reclaim _ ?_⟩
  refine ⟨inv.aligned.headPtr, inv.aligned.tailPtr, List.forall_mem_cons.mpr ?_⟩
  exact ⟨PktRing.dvd_roundedSize _, inv.aligned.parked⟩

theorem step (inv : trace.Reclaims params) (permits : trace.Permits inp) (sized : trace.Sized inp)
    (steady : trace.Steady params inp) : (trace.step params inp).Reclaims params := by
  have next := inv.toInv.step permits sized
  cases inp with
  | allocate pktSize => exact ⟨next, (inv.allocate steady).1, (inv.allocate steady).2⟩
  | free pkt => exact ⟨next, (inv.free permits).1, (inv.free permits).2⟩

/-- When all packets are freed the ring is empty. -/
theorem empty (inv : trace.Reclaims params) (freed : trace.2.live = []) :
    trace.1.freeReqQueue = [] ∧ trace.1.inFlightPackets = 0 ∧ trace.1.tailPtr = trace.1.headPtr := by
  obtain ⟨first, second, tiled⟩ := inv.tiled
  rw [freed, List.map_nil] at tiled
  exact tiled.empty inv.settled

/-- An empty ring grants what fits on either side of the head. -/
theorem isSome_allocate (inv : trace.Reclaims params) (freed : trace.2.live = []) (size : Nat) :
    (trace.1.allocatePktSpace params size).isSome = true ↔
      PktRing.roundedSize size ≤ params.l2PktBuffSize - trace.1.headPtr ∨
        PktRing.roundedSize size ≤ trace.1.headPtr := by
  obtain ⟨-, count, tail⟩ := inv.empty freed
  obtain ⟨first, second, tiled⟩ := inv.tiled
  have left := tiled.leftAtEnd_eq
  rw [tail] at left
  rw [PktRing.allocatePktSpace, Option.isSome_map, PktRing.place, if_pos (.inr ⟨tail, count⟩), left]
  split
  next fits => exact ⟨fun _ => .inl fits, fun _ => rfl⟩
  next full =>
    split
    next fits => exact ⟨fun _ => .inr fits, fun _ => rfl⟩
    next none =>
      refine ⟨fun granted => absurd granted Bool.false_ne_true, fun fits => ?_⟩
      exact absurd fits (not_or.mpr ⟨full, none⟩)

end Reclaims

/-- The head is at the cut. -/
structure Stuck (params : PktRingParams) (trace : PktTrace) : Prop extends Inv params trace where
  cut : trace.1.cut = true
  atCut : trace.1.headPtr = trace.1.cutPtr

namespace Stuck

/-- The tail was moved to the start of an empty ring. -/
theorem of_wrap (inv : trace.Inv params) (permits : trace.Permits inp) (sized : trace.Sized inp)
    (wraps : ¬trace.Steady params inp) : (trace.step params inp).Stuck params := by
  have next := inv.step permits sized
  cases inp with
  | free pkt => exact absurd trivial wraps
  | allocate pktSize =>
    obtain ⟨empty, full, fits⟩ := not_not.mp wraps
    have found : trace.1.place params (PktRing.roundedSize pktSize.toNat) =
        some { trace.1 with cutPtr := trace.1.tailPtr, cut := true, tailPtr := 0 } := by
      rw [PktRing.place, if_pos (.inr empty), if_neg (Nat.not_le_of_lt full), if_pos fits]
    rw [step_granted found] at next ⊢
    exact ⟨next, rfl, empty.1.symm⟩

/-- Nothing is in front of the head, so nothing is reclaimed. -/
theorem step (stuck : trace.Stuck params) (permits : trace.Permits inp) (sized : trace.Sized inp) :
    (trace.step params inp).Stuck params := by
  have next := stuck.toInv.step permits sized
  cases inp with
  | allocate pktSize =>
    cases found : trace.1.place params (PktRing.roundedSize pktSize.toNat) with
    | none => rwa [step_refused found]
    | some placed =>
      rw [step_granted found] at next ⊢
      obtain ⟨first, second, tiled⟩ := stuck.tiled
      -- a ring that is cut is not cut again
      obtain ⟨rfl, -⟩ | ⟨-, unwrapped, -⟩ := PktRing.place_cases found
      · exact ⟨next, stuck.cut, stuck.atCut⟩
      · exact absurd (stuck.cut.symm.trans (tiled.cut_eq_false unwrapped)) Bool.true_eq_false.mp
  | free pkt =>
    obtain ⟨offset, found, first, second, tiled⟩ := stuck.park permits
    rw [step_freed found] at next ⊢
    have stays := tiled.reclaim_of_atCut stuck.cut stuck.atCut
    refine ⟨next, ?_, ?_⟩
    · rw [stays]
      exact stuck.cut
    · rw [stays]
      exact stuck.atCut

end Stuck

end PktTrace

open PktTrace in
/-- After the tail was moved to the start of an empty ring space is lost for good. -/
theorem pktRing_leaks (params : PktRingParams) (before : List PktRingIn) (inp : PktRingIn)
    (after : List PktRingIn) (permitted : (pktTrace params).Admits Permits (before ++ inp :: after))
    (sized : (pktTrace params).Admits Sized (before ++ inp :: after))
    (wraps : ¬((pktTrace params).run before).Steady params inp) :
    let trace := (pktTrace params).run (before ++ inp :: after)
    trace.2.live = [] → trace.1.freeReqQueue ≠ [] := by
  intro trace freed none
  have admitted := permitted.and sized
  have inv := admitted.of_append.invariant (Inv params) Inv.reset
    fun _ _ inv allowed => inv.step allowed.1 allowed.2
  obtain ⟨now, later⟩ := admitted.after
  have stuck : trace.Stuck params := by
    have start := Stuck.of_wrap inv now.1 now.2 wraps
    have run := (pktTrace params).runFrom_append_cons (pktTrace params).reset before after inp
    rw [show trace = _ from run]
    exact later.invariant (Stuck params) (fun _ _ stuck allowed =>
      stuck.step allowed.1 allowed.2) start
  -- the region behind the head is never empty again
  obtain ⟨first, second, tiled⟩ := stuck.tiled
  have blocks := tiled.blocks
  rw [freed, none] at blocks
  exact (tiled.wrapped stuck.cut).1 (List.append_eq_nil_iff.mp blocks.nil_eq.symm).2

open PktTrace in
/-- Where no packet is granted whose size cannot be rounded up in 32 bits and none moves
    the tail to the start of an empty ring, no space is lost: once all packets are freed the
    map is empty and the count zero.  The whole buffer is then free in one piece if the head
    is at an end of it. -/
theorem pktRing_reclaims (params : PktRingParams) (inputs : List PktRingIn)
    (permitted : (pktTrace params).Admits Permits inputs)
    (sized : (pktTrace params).Admits Sized inputs)
    (steady : (pktTrace params).Admits (Steady params) inputs) :
    let trace := (pktTrace params).run inputs
    (trace.2.live = [] → trace.1.freeReqQueue = [] ∧ trace.1.inFlightPackets = 0) ∧
      (Restored params trace ↔ (trace.2.live = [] →
        (64 ∣ params.l2PktBuffSize ∨ 2 ^ 32 - 64 < params.l2PktBuffSize) ∧
        (trace.1.headPtr = 0 ∨
          trace.1.headPtr = params.l2PktBuffSize - params.l2PktBuffSize % 64))) := by
  intro trace
  have inv : trace.Reclaims params :=
    ((permitted.and sized).and steady).invariant (Reclaims params) Reclaims.reset
      fun _ _ inv allowed => inv.step allowed.1.1 allowed.1.2 allowed.2
  obtain ⟨first, second, tiled⟩ := inv.tiled
  refine ⟨fun freed => ⟨(inv.empty freed).1, (inv.empty freed).2.1⟩, forall_congr' fun freed => ?_⟩
  rw [← PktRing.takes_all_iff params.size_lt tiled.headPtr_le inv.aligned.headPtr]
  simp only [inv.isSome_allocate freed, (inv.empty freed).1, (inv.empty freed).2.1, true_and]

/-- The ring wraps around, is emptied to its end and can then take the whole buffer. -/
theorem pktRing_reclaims_wrapped :
    let params : PktRingParams := ⟨0x1c400000, 256, by decide, by decide⟩
    let inputs : List PktRingIn := [.allocate 128, .allocate 64, .free ⟨0x1c400000, 128⟩,
      .allocate 100, .free ⟨0x1c400000, 100⟩, .free ⟨0x1c400080, 64⟩, .allocate 64, .allocate 10,
      .free ⟨0x1c4000c0, 10⟩, .free ⟨0x1c400080, 64⟩]
    let trace := (pktTrace params).run inputs
    (trace.1.headPtr = 256 ∧ trace.2.live = []) ∧
      (trace.1.freeReqQueue = [] ∧ trace.1.inFlightPackets = 0) ∧ PktTrace.Restored params trace := by
  intro params inputs trace
  have reclaims := pktRing_reclaims params inputs (by decide +kernel) (by decide +kernel)
    (by decide +kernel)
  exact ⟨by decide +kernel, reclaims.1 (by decide +kernel), reclaims.2.mpr (by decide +kernel)⟩

/-- A packet of 3 MiB is freed and one of 2 MiB placed at the start of the empty buffer of
    4 MiB: freed too, it stays in the map. -/
theorem pktRing_loses_space :
    let params : PktRingParams := ⟨0x1c400000, 4194304, by decide, by decide⟩
    let inputs : List PktRingIn := [.allocate 3145728, .free ⟨0x1c400000, 3145728⟩,
      .allocate 2097152, .free ⟨0x1c400000, 2097152⟩]
    let trace := (pktTrace params).run inputs
    (pktTrace params).Admits PktTrace.Permits inputs ∧ trace.2.live = [] ∧
      trace.1.freeReqQueue = [(0, 2097152)] ∧ trace.1.inFlightPackets = 1 ∧
      ¬PktTrace.Restored params trace := by
  intro params inputs trace
  have parked : trace.1.freeReqQueue = [(0, 2097152)] := by decide +kernel
  have freed : trace.2.live = [] := by decide +kernel
  refine ⟨by decide +kernel, freed, parked, by decide +kernel, fun restored => ?_⟩
  rw [(restored freed).1] at parked
  cases parked

end Pspin
