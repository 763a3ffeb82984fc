import Pspin.Ooorb.LazylistRefinement

/-! # The handlers of `ooorb`

The packets of a message carry ranges of its bytes that arrive in any order.  A packet puts a
range into the lazy list, or takes the first range out of it if that is the one whose first byte
is expected next.

What is in the list is what has arrived and is not yet delivered.  The list keeps its ranges
apart, so that the first one ends where a byte is missing.
-/

namespace Pspin

open Clocked

/-- What `pkt_info` points to. -/
structure OoorbPkt where
  op : Word
  left : Word
  right : Word
deriving DecidableEq

/-- The range that the handler reads from a packet. -/
def OoorbPkt.range (pkt : OoorbPkt) : LazylistRange := ⟨pkt.left.toInt, pkt.right.toInt⟩

/-- `rb_state_t` -/
structure RbState where
  list : Lazylist
  nextExpectedByte : Word

namespace RbState

variable (state : RbState)

def ooorbHh : RbState where
  list := state.list.lazylistInit numSegments
  nextExpectedByte := 0

/-- `ooorb_ph`, which converts the expected byte to a signed one where it pops. -/
def ooorbPh (pkt : OoorbPkt) : Option RbState :=
  if pkt.op = 0 then do
    let (list, _) ← state.list.lazylistInsert pkt.range numSegments
    some { state with list := list }
  else if pkt.op = 1 then do
    let (list, popped) ← state.list.lazylistPopFront state.nextExpectedByte.toInt numSegments
    match popped with
    | some range => some ⟨list, BitVec.ofInt 32 (range.right + 1)⟩
    | none => some { state with list := list }
  else some state

/-- The range that a packet pops. -/
def popped (pkt : OoorbPkt) : Option LazylistRange :=
  if pkt.op = 1 then
    (state.list.lazylistPopFront state.nextExpectedByte.toInt numSegments).bind (·.2)
  else none

/-- A range that is inserted finds a free node or joins another. -/
def PoolLasts (pkt : OoorbPkt) : Prop :=
  pkt.op = 0 → Lazylist.Room state.list state.list.active state.list.freeNodes pkt.range

instance (pkt : OoorbPkt) : Decidable (state.PoolLasts pkt) :=
  inferInstanceAs (Decidable (_ → (_ ≠ [] ∨ ∃ i ∈ state.list.active,
    (state.list.range i).Touches pkt.range)))

end RbState

/-- Packets handled one at a time after the header handler. -/
def ooorb (memory : RbState) : Machine RbState OoorbPkt where
  reset := memory.ooorbHh
  step state pkt := (state.ooorbPh pkt).getD state

/-- The handlers and the ranges that were popped. -/
def ooorbDelivers (memory : RbState) : Machine (RbState × List LazylistRange) OoorbPkt :=
  (ooorb memory).observedBy [] fun state delivered pkt => delivered ++ (state.popped pkt).toList

/-- Memory of zeros. -/
def RbState.zeroed : RbState := ⟨Lazylist.zeroed, 0⟩

/-- The ranges that packets insert. -/
def insertedRanges (pkts : List OoorbPkt) : List LazylistRange :=
  (pkts.filter fun pkt => pkt.op = 0).map OoorbPkt.range

/-- The ranges of a message are not empty, start at a byte that can be expected and are
    disjoint. -/
structure Message (pkts : List OoorbPkt) : Prop where
  bytes : ∀ range ∈ insertedRanges pkts,
    0 ≤ range.left ∧ range.left ≤ range.right ∧ range.right < int32Max
  apart : (insertedRanges pkts).Pairwise Interval.Apart

instance (pkts : List OoorbPkt) : Decidable (Message pkts) :=
  decidable_of_iff (_ ∧ _) ⟨fun ⟨bytes, apart⟩ => ⟨bytes, apart⟩, fun ⟨bytes, apart⟩ => ⟨bytes, apart⟩⟩

/-! ## Messages -/

section Messages

variable {past : List OoorbPkt} {pkt : OoorbPkt}

theorem insertedRanges_insert (insert : pkt.op = 0) :
    insertedRanges (past ++ [pkt]) = insertedRanges past ++ [pkt.range] := by
  simp [insertedRanges, insert]

theorem insertedRanges_other (other : pkt.op ≠ 0) :
    insertedRanges (past ++ [pkt]) = insertedRanges past := by
  simpa [insertedRanges] using other

theorem insertedRanges_append (after : List OoorbPkt) :
    insertedRanges (past ++ after) = insertedRanges past ++ insertedRanges after := by
  simp [insertedRanges]

theorem Message.of_append {after : List OoorbPkt} (message : Message (past ++ after)) :
    Message past := by
  obtain ⟨bytes, apart⟩ := message
  rw [insertedRanges_append] at bytes apart
  refine ⟨fun range member => bytes range (List.mem_append_left _ member), ?_⟩
  exact (List.pairwise_append.mp apart).1

/-- A range that arrives has bytes that have not arrived. -/
theorem Message.fresh (message : Message (past ++ [pkt])) (insert : pkt.op = 0) :
    (0 ≤ pkt.range.left ∧ pkt.range.left ≤ pkt.range.right ∧ pkt.range.right < int32Max) ∧
      Disjoint (covers (insertedRanges past)) pkt.range.toSet := by
  obtain ⟨bytes, apart⟩ := message
  rw [insertedRanges_insert insert] at bytes apart
  refine ⟨bytes _ (by simp), Set.disjoint_left.mpr ?_⟩
  rintro x ⟨range, member, inRange⟩
  exact ((List.pairwise_append.mp apart).2.2 range member pkt.range (by simp)).notMem inRange

/-- Every byte that arrives can be expected. -/
theorem Message.bounded (message : Message past) {x : Int} (arrived : x ∈ covers (insertedRanges past)) :
    0 ≤ x ∧ x < int32Max := by
  obtain ⟨range, member, above, below⟩ := arrived
  have := message.bytes range member
  omega

end Messages

/-! ## What is in the list -/

/-- What arrived and is not delivered. -/
def waiting (ranges : List LazylistRange) (state : RbState) : Set Int :=
  covers ranges \ Set.Ico 0 (state.nextExpectedByte.toNat : Int)

/-- The bytes before the expected one are delivered, the list has the others that arrived. -/
structure Delivers (ranges : List LazylistRange) (state : RbState) (delivered : List LazylistRange) :
    Prop where
  follows : Lazylist.Follows state.list (waiting ranges state)
  arrived : Set.Ico 0 (state.nextExpectedByte.toNat : Int) ⊆ covers ranges
  successive : Successive 0 delivered state.nextExpectedByte.toNat
  small : (state.nextExpectedByte.toNat : Int) ≤ int32Max

namespace Delivers

variable {past : List OoorbPkt} {pkt : OoorbPkt} {state : RbState} {delivered : List LazylistRange}

theorem toInt_eq (delivers : Delivers (insertedRanges past) state delivered) :
    state.nextExpectedByte.toInt = state.nextExpectedByte.toNat := by
  have small := delivers.small
  unfold int32Max at small
  rw [BitVec.toInt_eq_toNat_of_lt]
  omega

/-- The start that is passed is not the one that accepts any range. -/
theorem not_startAny (delivers : Delivers (insertedRanges past) state delivered) :
    Lazylist.startAny state.nextExpectedByte.toInt = false := by
  have small := delivers.small
  rw [delivers.toInt_eq, Lazylist.startAny, decide_eq_false_iff_not]
  unfold rangeStartAny
  unfold int32Max at small
  omega

theorem insert (delivers : Delivers (insertedRanges past) state delivered)
    (message : Message (past ++ [pkt])) (insert : pkt.op = 0) (lasts : state.PoolLasts pkt) :
    ∃ state', state.ooorbPh pkt = some state' ∧
      Delivers (insertedRanges (past ++ [pkt])) state' delivered := by
  obtain ⟨bytes, fresh⟩ := message.fresh insert
  have insertable : Lazylist.Insertable pkt.range := by
    refine ⟨?_, bytes.2.1, bytes.2.2⟩
    have : int32Min < 0 := by decide
    omega
  obtain ⟨list', called, follows', -⟩ := delivers.follows.insert ⟨insertable, lasts insert⟩
  obtain ⟨⟨list, error⟩, inserted, same⟩ := Option.map_eq_some_iff.mp called
  obtain ⟨rfl, -⟩ := Prod.mk.inj same
  refine ⟨{ state with list := list }, ?_, ?_, ?_, delivers.successive, delivers.small⟩
  · rw [RbState.ooorbPh, if_pos insert, inserted]
    rfl
  -- a message sends each byte once: the range overlaps nothing that waits
  · have apart : Disjoint (waiting (insertedRanges past) state) pkt.range.toSet :=
      fresh.mono_left Set.sdiff_subset
    have joins : waiting (insertedRanges past) state ∪ pkt.range.toSet =
        waiting (insertedRanges (past ++ [pkt])) { state with list := list } := by
      have outside : Disjoint pkt.range.toSet (Set.Ico 0 (state.nextExpectedByte.toNat : Int)) :=
        (fresh.mono_left delivers.arrived).symm
      simp only [waiting]
      rw [insertedRanges_insert insert, covers_append, covers_cons, covers_nil, Set.union_empty,
        Set.union_sdiff_distrib, outside.sdiff_eq_left]
    rw [setCall, if_pos apart, joins] at follows'
    exact follows'
  · rw [insertedRanges_insert insert, covers_append]
    exact Set.subset_union_of_subset_left delivers.arrived _

/-- If the expected byte waits, the first run starts there and ends where a byte is missing. -/
theorem accepts (delivers : Delivers (insertedRanges past) state delivered) (message : Message past)
    {n : Int} (more : (state.nextExpectedByte.toNat : Int) < n)
    (arrived : Set.Ico 0 n ⊆ covers (insertedRanges past)) :
    ∃ run, acceptedRun (waiting (insertedRanges past) state) state.nextExpectedByte.toInt = some run := by
  have waits : (state.nextExpectedByte.toNat : Int) ∈ waiting (insertedRanges past) state := by
    refine ⟨arrived ⟨Int.natCast_nonneg _, more⟩, fun before => ?_⟩
    exact absurd before.2 (lt_irrefl _)
  obtain ⟨run, first⟩ := delivers.follows.firstRun ⟨_, waits⟩
  have start : run.left ∈ waiting (insertedRanges past) state := first.within ⟨le_rfl, first.nonempty⟩
  -- nothing before the expected byte waits
  have starts : run.left = state.nextExpectedByte.toInt := by
    rw [delivers.toInt_eq]
    have above := first.first _ waits
    have positive := (message.bounded start.1).1
    by_contra other
    exact start.2 ⟨positive, by omega⟩
  exact ⟨run, acceptedRun_eq_some first (.inr starts)⟩

/-- A run that is delivered moves the expected byte behind it. -/
theorem advance (delivers : Delivers (insertedRanges past) state delivered) (message : Message past)
    {run : LazylistRange} {list : Lazylist} (first : FirstRun (waiting (insertedRanges past) state) run)
    (starts : run.left = state.nextExpectedByte.toNat)
    (follows : Lazylist.Follows list (waiting (insertedRanges past) state \ run.toSet)) :
    Delivers (insertedRanges past) ⟨list, BitVec.ofInt 32 (run.right + 1)⟩ (delivered ++ [run]) ∧
      ((BitVec.ofInt 32 (run.right + 1)).toNat : Int) = run.right + 1 := by
  have nonempty := first.nonempty
  have end_ : run.right ∈ waiting (insertedRanges past) state := first.within ⟨nonempty, le_rfl⟩
  have bounded := (message.bounded end_.1).2
  have next : ((BitVec.ofInt 32 (run.right + 1)).toNat : Int) = run.right + 1 := by
    unfold int32Max at bounded
    rw [BitVec.toNat_ofInt]
    omega
  -- what was delivered grows by the run
  have joined : Set.Ico 0 (run.right + 1) =
      Set.Ico 0 (state.nextExpectedByte.toNat : Int) ∪ run.toSet := by
    ext x
    simp only [Set.mem_union, Set.mem_Ico, Interval.mem_toSet]
    omega
  refine ⟨⟨?_, ?_, ?_, ?_⟩, next⟩
  · rw [waiting, next, joined, ← Set.sdiff_sdiff]
    exact follows
  · rw [next, joined]
    exact Set.union_subset delivers.arrived (first.within.trans Set.sdiff_subset)
  · rw [next]
    exact delivers.successive.concat starts nonempty
  · rw [next]
    omega

/-- A pop that finds the expected byte takes the run that starts there, and leaves the list
    alone if it does not. -/
theorem pop (delivers : Delivers (insertedRanges past) state delivered) (message : Message past)
    (pop : pkt.op = 1) :
    ∃ state', state.ooorbPh pkt = some state' ∧
      Delivers (insertedRanges past) state' (delivered ++ (state.popped pkt).toList) ∧
      ∀ n : Int, Set.Ico 0 n ⊆ covers (insertedRanges past) → n ≤ state'.nextExpectedByte.toNat := by
  have notInsert : pkt.op ≠ 0 := by
    rw [pop]
    decide
  obtain ⟨list', called, follows', -⟩ := delivers.follows.popFront state.nextExpectedByte.toInt
  obtain ⟨⟨list, popped⟩, returned, same⟩ := Option.map_eq_some_iff.mp called
  obtain ⟨rfl, result⟩ := Prod.mk.inj same
  cases accepted : acceptedRun (waiting (insertedRanges past) state) state.nextExpectedByte.toInt with
  | none =>
    simp only [setCall, accepted] at follows' result
    obtain rfl : popped = none := by simpa using result
    refine ⟨{ state with list := list }, ?_, ?_, fun n arrived => ?_⟩
    · rw [RbState.ooorbPh, if_neg notInsert, if_pos pop, returned]
      rfl
    · rw [RbState.popped, if_pos pop, returned, Option.bind_some, Option.toList_none, List.append_nil]
      exact ⟨follows', delivers.arrived, delivers.successive, delivers.small⟩
    -- were the expected byte there, a run would start with it
    · by_contra more
      obtain ⟨run, some⟩ := delivers.accepts message (Int.not_le.mp more) arrived
      rw [accepted] at some
      cases some
  | some run =>
    simp only [setCall, accepted] at follows' result
    obtain rfl : popped = some run := by simpa using result
    obtain ⟨first, starts⟩ := acceptedRun_spec accepted
    have starts : run.left = state.nextExpectedByte.toNat := by
      rw [← delivers.toInt_eq]
      exact starts.resolve_left (by simp [delivers.not_startAny])
    obtain ⟨delivers', next⟩ := delivers.advance message first starts follows'
    refine ⟨⟨list, BitVec.ofInt 32 (run.right + 1)⟩, ?_, ?_, fun n arrived => ?_⟩
    · rw [RbState.ooorbPh, if_neg notInsert, if_pos pop, returned]
      rfl
    · rw [RbState.popped, if_pos pop, returned]
      exact delivers'
    · -- the byte behind the run has not arrived
      rw [next]
      by_contra more
      have nonempty := first.nonempty
      refine first.ends ⟨arrived ⟨by omega, by omega⟩, fun before => ?_⟩
      have := before.2
      omega

/-- The step: every packet of the message is handled. -/
theorem handled (delivers : Delivers (insertedRanges past) state delivered)
    (message : Message (past ++ [pkt])) (lasts : state.PoolLasts pkt) :
    ∃ state', state.ooorbPh pkt = some state' ∧
      Delivers (insertedRanges (past ++ [pkt])) state' (delivered ++ (state.popped pkt).toList) := by
  by_cases insert : pkt.op = 0
  · obtain ⟨state', handled, delivers'⟩ := delivers.insert message insert lasts
    have notPop : pkt.op ≠ 1 := by
      rw [insert]
      decide
    refine ⟨state', handled, ?_⟩
    rwa [RbState.popped, if_neg notPop, Option.toList_none, List.append_nil]
  · rw [insertedRanges_other insert]
    by_cases pop : pkt.op = 1
    · obtain ⟨state', handled, delivers', -⟩ := delivers.pop message.of_append pop
      exact ⟨state', handled, delivers'⟩
    · refine ⟨state, by rw [RbState.ooorbPh, if_neg insert, if_neg pop], ?_⟩
      rwa [RbState.popped, if_neg pop, Option.toList_none, List.append_nil]

end Delivers

/-! ## Runs -/

section Runs

variable {memory : RbState} {pkts : List OoorbPkt}

/-- The header handler leaves an empty list wherever the marks of the sentinels are not set. -/
theorem ooorbHh_delivers (unmarked : memory.list.SentinelsUnmarked) :
    Delivers [] memory.ooorbHh [] := by
  refine ⟨?_, ?_, rfl, ?_⟩
  · rw [waiting, covers_nil, Set.empty_sdiff]
    exact lazylistInit_follows unmarked
  · simp [RbState.ooorbHh]
  · show (0 : Int) ≤ int32Max
    decide

/-- The run: after any packets of a message what is delivered is what the list has not. -/
theorem ooorb_delivers (unmarked : memory.list.SentinelsUnmarked)
    (admitted : (ooorbDelivers memory).Admits (fun state => state.1.PoolLasts) pkts)
    (message : Message pkts) :
    Delivers (insertedRanges pkts) ((ooorbDelivers memory).run pkts).1
      ((ooorbDelivers memory).run pkts).2 := by
  refine admitted.invariantOf
    (fun past state => Message past → Delivers (insertedRanges past) state.1 state.2) ?_ ?_ message
  · exact fun _ => ooorbHh_delivers unmarked
  · intro past state pkt delivers lasts message
    obtain ⟨state', handled, delivers'⟩ := (delivers message.of_append).handled message lasts
    have step : ((ooorb memory).step state.1 pkt) = state' := by
      show (state.1.ooorbPh pkt).getD state.1 = state'
      rw [handled, Option.getD_some]
    show Delivers _ ((ooorb memory).step state.1 pkt) _
    rw [step]
    exact delivers'

end Runs

/-- The ranges that were popped are a prefix of the message, in order and each byte once, and a
    pop gets as far as the bytes that arrived. -/
structure DeliversInOrder (ranges : List LazylistRange) (state : RbState)
    (delivered : List LazylistRange) : Prop where
  consecutive : Successive 0 delivered state.nextExpectedByte.toNat
  inserted : covers delivered ⊆ covers ranges
  once : delivered.Pairwise Interval.Apart
  counts : (state.nextExpectedByte.toNat : Int) = (delivered.map Clocked.Interval.length).sum
  catchesUp : ∀ pkt : OoorbPkt, pkt.op = 1 → ∃ state', state.ooorbPh pkt = some state' ∧
    ∀ n : Int, Set.Ico 0 n ⊆ covers ranges → n ≤ state'.nextExpectedByte.toNat

/-- From zeroed memory the handlers deliver a message in order, whatever the order in which its
    ranges arrive and whenever they are popped, and handle every packet of it. -/
theorem ooorb_delivers_in_order (pkts : List OoorbPkt)
    (admitted : (ooorbDelivers RbState.zeroed).Admits (fun state => state.1.PoolLasts) pkts)
    (message : Message pkts) :
    DeliversInOrder (insertedRanges pkts) ((ooorbDelivers RbState.zeroed).run pkts).1
        ((ooorbDelivers RbState.zeroed).run pkts).2 ∧
      ∀ before pkt after, pkts = before ++ pkt :: after →
        (((ooorbDelivers RbState.zeroed).run before).1.ooorbPh pkt).isSome := by
  have unmarked : RbState.zeroed.list.SentinelsUnmarked := ⟨rfl, rfl⟩
  constructor
  · have delivers := ooorb_delivers unmarked admitted message
    have successive := delivers.successive
    refine ⟨successive, ?_, successive.pairwise_apart, ?_, fun pkt pop => ?_⟩
    · rw [successive.covers_eq]
      exact delivers.arrived
    · rw [successive.sum_length, Int.sub_zero]
    -- a further pop delivers all that has arrived
    · obtain ⟨state', handled, -, arrives⟩ := delivers.pop message pop
      exact ⟨state', handled, arrives⟩
  · rintro before pkt after rfl
    have lasts := admitted.after.1
    have message' : Message (before ++ [pkt]) := by
      rw [List.append_cons] at message
      exact message.of_append
    have delivers := ooorb_delivers unmarked admitted.of_append message'.of_append
    obtain ⟨state', handled, -⟩ := delivers.handled message' lasts
    rw [handled, Option.isSome_some]

/-- Two ranges that arrive before the first one, pops that come too early, and a pop after each. -/
def reorderedPkts : List OoorbPkt :=
  [⟨0, 10, 19⟩, ⟨1, 0, 0⟩, ⟨0, 20, 20⟩, ⟨0, 0, 4⟩, ⟨1, 0, 0⟩, ⟨0, 5, 9⟩, ⟨1, 0, 0⟩, ⟨1, 0, 0⟩]

theorem ooorb_delivers_in_order_reordered :
    DeliversInOrder (insertedRanges reorderedPkts)
        ((ooorbDelivers RbState.zeroed).run reorderedPkts).1
        ((ooorbDelivers RbState.zeroed).run reorderedPkts).2 ∧
      ∀ before pkt after, reorderedPkts = before ++ pkt :: after →
        (((ooorbDelivers RbState.zeroed).run before).1.ooorbPh pkt).isSome :=
  ooorb_delivers_in_order reorderedPkts (by decide +kernel) (by decide)

end Pspin
