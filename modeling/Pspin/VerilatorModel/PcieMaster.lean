import Pspin.Clocked.Fallible
import Pspin.VerilatorModel.AxiReadData

/-! # Host reads of NIC memory

`PCIeMaster` reads NIC memory for the host through its AXI master.  `progress_axi_read_responses`
stores every beat at the offset of the oldest read and calls back when a read is complete.  Before
a beat is stored it asserts that the whole line of the bus ends before the read does.
-/

namespace Pspin

open Clocked

/-- `read_descr_t`; the `user_ptr` of a read is its number, and tells its buffer. -/
structure ReadDescr where
  userPtr : Nat
  offset : Word
  len : BitVec 64

/-- Bytes stored in the buffer of a read. -/
structure PcieStore where
  userPtr : Nat
  offset : Word
  bytes : List (BitVec 8)

def PcieStore.region (store : PcieStore) : Region := ⟨store.offset.toNat, store.bytes.length⟩

/-- The reads of `PCIeMaster`.  What was asked for, what was stored and the calls of `read_cb` are
    only recorded. -/
structure PcieReads where
  axiDriver : AxiReads
  inFlightReads : List ReadDescr
  issued : List (Word × BitVec 64)
  stores : List PcieStore
  callbacks : List Nat

namespace PcieReads

def reset : PcieReads := ⟨.reset, [], [], [], []⟩

variable (reads : PcieReads)

/-- `nic_mem_read` -/
def nicMemRead (nicMemAddr : Word) (len : BitVec 64) : Option PcieReads := do
  let axiDriver ← reads.axiDriver.read nicMemAddr.toNat (len.setWidth 32)
  some { reads with
    axiDriver := axiDriver
    inFlightReads := reads.inFlightReads ++ [⟨reads.issued.length, 0, len⟩]
    issued := reads.issued ++ [(nicMemAddr, len)] }

/-- `progress_axi_read_responses`, unless an assertion fails. -/
def progressAxiReadResponses : Option PcieReads :=
  if reads.axiDriver.rQueue.isEmpty then some reads
  else
    match reads.inFlightReads with
    | [] => none
    | readDescr :: inFlightReads =>
      let length : Word := 64
      if (readDescr.offset + length).toNat < readDescr.len.toNat then do
        let (axiDriver, data, readComplete) ← reads.axiDriver.consumeRBeat length.toNat
        let stores := reads.stores ++ [⟨readDescr.userPtr, readDescr.offset, data⟩]
        let readDescr := { readDescr with offset := readDescr.offset + length }
        if readComplete then
          if readDescr.offset.toNat = readDescr.len.toNat then
            some { reads with
              axiDriver := axiDriver, inFlightReads := inFlightReads, stores := stores
              callbacks := reads.callbacks ++ [readDescr.userPtr] }
          else none
        else
          some { reads with
            axiDriver := axiDriver, inFlightReads := readDescr :: inFlightReads, stores := stores }
      else none

/-- `posedge` and `negedge`, as far as reads are concerned. -/
def cycle (rData : Option (Nat → BitVec 8)) (arReady : Bool) : Option PcieReads := do
  let axiDriver ← reads.axiDriver.sendArBeat.arPosedge.rPosedge rData
  let reads ← progressAxiReadResponses { reads with axiDriver := axiDriver }
  some { reads with axiDriver := reads.axiDriver.arNegedge arReady }

end PcieReads

/-- The host asks for a read, or a cycle in which the memory may return a beat and take a burst. -/
inductive PcieReadEvent where
  | nicMemRead (nicMemAddr : Word) (len : BitVec 64)
  | cycle (rData : Option (Nat → BitVec 8)) (arReady : Bool)

def PcieReads.step (reads : PcieReads) : PcieReadEvent → Option PcieReads
  | .nicMemRead nicMemAddr len => reads.nicMemRead nicMemAddr len
  | .cycle rData arReady => reads.cycle rData arReady

/-- The reads of the host, until an assertion fails. -/
def pcieReads : Machine (Option PcieReads) PcieReadEvent :=
  Machine.failing PcieReads.reset PcieReads.step

namespace PcieReadEvent

/-- A read of some bytes from a line of the bus on, of a length that an address can have. -/
def Aligned : PcieReadEvent → Prop
  | .nicMemRead nicMemAddr len =>
    nicMemAddr.toNat % axiSw = 0 ∧ 0 < len.toNat ∧ len.toNat < 2 ^ 32
  | .cycle _ _ => True

instance (event : PcieReadEvent) : Decidable event.Aligned := by
  cases event <;> unfold Aligned <;> infer_instance

end PcieReadEvent

/-- A cycle in which the memory returns the last beat of a read. -/
def PcieReads.ReturnsLast (reads : PcieReads) : PcieReadEvent → Prop
  | .cycle (some _) _ => reads.axiDriver.LastBeatNext
  | _ => False

instance (reads : PcieReads) (event : PcieReadEvent) : Decidable (reads.ReturnsLast event) :=
  match event with
  | .cycle (some _) _ => inferInstanceAs (Decidable reads.axiDriver.LastBeatNext)
  | .cycle none _ => inferInstanceAs (Decidable False)
  | .nicMemRead _ _ => inferInstanceAs (Decidable False)

/-- The bytes of a read that were stored in its buffer. -/
def PcieReads.storedOf (reads : PcieReads) (userPtr : Nat) : List Region :=
  (reads.stores.filter fun store => store.userPtr = userPtr).map PcieStore.region

/-- Every read has got its first bytes and no others, and those that have got all were called back,
    once and in order. -/
structure PcieReads.Exact (reads : PcieReads) : Prop where
  stored : ∀ userPtr read, reads.issued[userPtr]? = some read → ∃ count ≤ read.2.toNat,
    Tiles 0 (reads.storedOf userPtr) count ∧
      (userPtr ∈ reads.callbacks ↔ count = read.2.toNat)
  own : ∀ store ∈ reads.stores, store.userPtr < reads.issued.length
  called : ∀ userPtr ∈ reads.callbacks, userPtr < reads.issued.length
  once : reads.callbacks.Pairwise (· < ·)

/-! ## Runs without a last beat -/

namespace PcieReads

/-- The first read has got the bytes before its offset, and what it has not got is requested. -/
structure Reading (reads : PcieReads) (offset : Nat) (requested : List PlannedBeat) : Prop where
  serves : Serves (fun _ _ => True) reads.axiDriver [] requested
  settled : reads.axiDriver.Settled
  positive : ∀ planned ∈ requested, 0 < planned.size
  total : carry (· + ·) offset (bytesLeft requested) = reads.issued.map fun read => read.2.toNat
  first : reads.inFlightReads.head? =
    reads.issued.head?.map fun read => ⟨0, BitVec.ofNat 32 offset, read.2⟩
  small : ∀ read ∈ reads.issued, read.2.toNat < 2 ^ 32
  idle : requested = [] → offset = 0 ∧ reads.stores = []
  callbacks : reads.callbacks = []
  own : ∀ store ∈ reads.stores, store.userPtr = 0
  stored : Tiles 0 (reads.stores.map PcieStore.region) offset

section Steps

variable {reads : PcieReads} {offset : Nat} {requested : List PlannedBeat}

theorem reset_reading : reset.Reading 0 [] where
  serves := reset_serves
  settled := rfl
  positive := fun _ member => absurd member List.not_mem_nil
  total := rfl
  first := rfl
  small := fun _ member => absurd member List.not_mem_nil
  idle := fun _ => ⟨rfl, rfl⟩
  callbacks := rfl
  own := fun _ member => absurd member List.not_mem_nil
  stored := rfl

theorem Reading.issued_eq_nil (reading : reads.Reading offset requested) :
    reads.issued = [] ↔ requested = [] := by
  have total := reading.total
  constructor
  · intro none_
    rw [none_, List.map_nil] at total
    cases left : bytesLeft requested with
    | nil => exact totals_eq_nil.mp left
    | cons bytes rest =>
      rw [left] at total
      cases total
  · rintro rfl
    exact List.map_eq_nil_iff.mp total.symm

theorem Reading.nicMemRead (reading : reads.Reading offset requested) {nicMemAddr : Word}
    {len : BitVec 64} (aligned : nicMemAddr.toNat % axiSw = 0) (positive : 0 < len.toNat)
    (small : len.toNat < 2 ^ 32) : ∃ reads', reads.nicMemRead nicMemAddr len = some reads' ∧
      reads'.Reading offset (requested ++ readPlan nicMemAddr.toNat len.toNat) := by
  have bytes : (len.setWidth 32).toNat = len.toNat := by
    rw [BitVec.toNat_setWidth, Nat.mod_eq_of_lt small]
  obtain ⟨axiDriver, issued, serves, settled⟩ :=
    reading.serves.read nicMemAddr.toNat (show 0 < (len.setWidth 32).toNat by rwa [bytes])
  rw [bytes] at serves
  -- the beats of the reads before are whole, so that the new ones are counted apart
  have closed : Closed PlannedBeat.readLast requested := reading.serves.whole.closed
  refine ⟨{ reads with
      axiDriver := axiDriver
      inFlightReads := reads.inFlightReads ++ [⟨reads.issued.length, 0, len⟩]
      issued := reads.issued ++ [(nicMemAddr, len)] }, by rw [PcieReads.nicMemRead, issued]; rfl,
    serves, settled reading.settled, ?_, ?_, ?_, ?_, ?_, reading.callbacks, reading.own, reading.stored⟩
  · intro planned member
    rcases List.mem_append.mp member with before | new
    · exact reading.positive planned before
    · exact readPlan_positive aligned planned new
  · rw [bytesLeft_append closed, bytesLeft_readPlan positive, List.map_append, ← reading.total]
    have fresh : bytesLeft requested = [] → ∀ total, offset + total = total := by
      intro none_ total
      rw [(reading.idle (totals_eq_nil.mp none_)).1, Nat.zero_add]
    rw [carry_append fresh]
    rfl
  · rw [List.head?_append, List.head?_append, reading.first]
    cases before : reads.issued with
    | nil =>
      rw [(reading.idle (reading.issued_eq_nil.mp before)).1]
      rfl
    | cons read rest => rfl
  · exact List.forall_mem_append.mpr ⟨reading.small, by simpa using small⟩
  · intro none_
    have beats : bytesLeft (readPlan nicMemAddr.toNat len.toNat) = _ := bytesLeft_readPlan positive
    rw [(List.append_eq_nil_iff.mp none_).2] at beats
    cases beats

/-- A cycle in which the memory returns no beat stores nothing. -/
theorem Reading.cycle_idle (reading : reads.Reading offset requested)
    (rData : Option (Nat → BitVec 8)) (arReady : Bool)
    (idle : rData = none ∨ reads.axiDriver.owed = []) :
    ∃ reads', reads.cycle rData arReady = some reads' ∧ reads'.Reading offset requested := by
  have serves := reading.serves.sendArBeat.arPosedge (sendArBeat_settled reading.settled)
  have empty : reads.axiDriver.sendArBeat.arPosedge.rQueue = [] :=
    List.forall₂_nil_right_iff.mp serves.buffers
  have late : rData = none ∨ reads.axiDriver.sendArBeat.arPosedge.owed = [] := by
    rwa [sendArBeat_owed]
  refine ⟨{ reads with axiDriver := reads.axiDriver.sendArBeat.arPosedge.arNegedge arReady }, ?_,
    serves.arNegedge arReady, arNegedge_settled _ arReady, reading.positive, reading.total,
    reading.first, reading.small, reading.idle, reading.callbacks, reading.own, reading.stored⟩
  rw [PcieReads.cycle, rPosedge_idle late]
  show (progressAxiReadResponses _ >>= _) = _
  rw [progressAxiReadResponses, empty]
  rfl

/-- The oldest read, when there is a beat for it. -/
theorem Reading.oldest {planned : PlannedBeat} {rest : List PlannedBeat}
    (reading : reads.Reading offset (planned :: rest)) : ∃ read inFlightReads,
      reads.inFlightReads = ⟨0, BitVec.ofNat 32 offset, read.2⟩ :: inFlightReads ∧
        reads.issued.head? = some read ∧ read.2.toNat < 2 ^ 32 ∧
          (carry (· + ·) offset (bytesLeft (planned :: rest))).head? = some read.2.toNat := by
  have first := reading.first
  cases issued : reads.issued with
  | nil => cases reading.issued_eq_nil.mp issued
  | cons read later =>
    rw [issued, List.head?_cons, Option.map_some] at first
    obtain ⟨inFlightReads, same⟩ := List.head?_eq_some_iff.mp first
    refine ⟨read, inFlightReads, same, rfl, ?_, ?_⟩
    · exact reading.small read (issued ▸ List.mem_cons_self)
    · rw [reading.total, issued]
      rfl

/-- What a beat that has arrived does to the oldest read. -/
theorem progressAxiReadResponses_eq {readDescr : ReadDescr} {inFlightReads : List ReadDescr}
    {axiDriver axiDriver' : AxiReads} {data : List (BitVec 8)} {readComplete : Bool}
    (arrived : axiDriver.rQueue ≠ []) (oldest : reads.inFlightReads = readDescr :: inFlightReads)
    (consumed : axiDriver.consumeRBeat axiSw = some (axiDriver', data, readComplete)) :
    progressAxiReadResponses { reads with axiDriver := axiDriver } =
      if (readDescr.offset + 64).toNat < readDescr.len.toNat then
        if readComplete then
          if (readDescr.offset + 64).toNat = readDescr.len.toNat then
            some { reads with
              axiDriver := axiDriver', inFlightReads := inFlightReads
              stores := reads.stores ++ [⟨readDescr.userPtr, readDescr.offset, data⟩]
              callbacks := reads.callbacks ++ [readDescr.userPtr] }
          else none
        else
          some { reads with
            axiDriver := axiDriver'
            inFlightReads := { readDescr with offset := readDescr.offset + 64 } :: inFlightReads
            stores := reads.stores ++ [⟨readDescr.userPtr, readDescr.offset, data⟩] }
      else none := by
  have length : (64 : Word).toNat = axiSw := rfl
  rw [progressAxiReadResponses, if_neg (by simpa using arrived)]
  simp only [oldest, length, consumed]
  rfl

/-- A beat that is not the last one of its read is stored behind the bytes before it. -/
theorem Reading.respond {planned : PlannedBeat} {rest : List PlannedBeat} {axiDriver : AxiReads}
    (reading : reads.Reading offset (planned :: rest))
    (serves : Serves (fun _ _ => True) axiDriver [planned] rest) (more : planned.readLast = false) :
    ∃ reads', progressAxiReadResponses { reads with axiDriver := axiDriver } = some reads' ∧
      ∀ arReady, Reading { reads' with axiDriver := reads'.axiDriver.arNegedge arReady }
        (offset + axiSw) rest := by
  obtain ⟨arrived, axiDriver', data, consumed, serves'⟩ := serves.consumes
  obtain ⟨read, inFlightReads, oldest, issued, small, left⟩ := reading.oldest
  have whole : Whole (planned :: rest) := reading.serves.whole
  obtain ⟨-, positive⟩ := List.forall_mem_cons.mp reading.positive
  have full := whole.full more positive
  obtain ⟨bytes, bytesRest, same⟩ := whole.closed.later (· + ·) PlannedBeat.size more
  -- the read has bytes behind the beat, so that its offset stays below its length
  have beyond : 0 < bytes := bytesLeft_positive positive bytes (by
    rw [bytesLeft, same]
    exact List.mem_cons_self)
  have total := reading.total
  rw [bytesLeft, carry_more offset whole.closed more, full] at total
  rw [bytesLeft, carry_more offset whole.closed more, full, same] at left
  have length : offset + axiSw + bytes = read.2.toNat := Option.some.inj left
  have next : BitVec.ofNat 32 offset + 64 = BitVec.ofNat 32 (offset + axiSw) := by
    rw [BitVec.ofNat_add]
    rfl
  have offsetNow : (BitVec.ofNat 32 offset).toNat = offset := by
    rw [BitVec.toNat_ofNat, Nat.mod_eq_of_lt (by omega)]
  have offsetNext : (BitVec.ofNat 32 (offset + axiSw)).toNat = offset + axiSw := by
    rw [BitVec.toNat_ofNat, Nat.mod_eq_of_lt (by omega)]
  refine ⟨{ reads with
      axiDriver := axiDriver'
      inFlightReads := ⟨0, BitVec.ofNat 32 (offset + axiSw), read.2⟩ :: inFlightReads
      stores := reads.stores ++ [⟨0, BitVec.ofNat 32 offset,
        (List.range (min axiSw planned.size)).map data⟩] }, ?_,
    fun arReady => ⟨serves'.arNegedge arReady, arNegedge_settled axiDriver' arReady, positive, total,
      ?_, reading.small, ?_, reading.callbacks, ?_, ?_⟩⟩
  · rw [progressAxiReadResponses_eq arrived oldest consumed, next, offsetNext, more,
      if_pos (show offset + axiSw < read.2.toNat by omega), if_neg Bool.false_ne_true]
  · rw [issued]
    rfl
  · rintro rfl
    cases same
  · refine List.forall_mem_append.mpr ⟨reading.own, ?_⟩
    exact List.forall_mem_singleton.mpr rfl
  · rw [List.map_append]
    have store : PcieStore.region ⟨0, BitVec.ofNat 32 offset,
        (List.range (min axiSw planned.size)).map data⟩ = ⟨offset, axiSw⟩ := by
      rw [PcieStore.region, offsetNow, List.length_map, List.length_range, full, Nat.min_self]
    show Tiles 0 (reads.stores.map PcieStore.region ++ [PcieStore.region ⟨0, BitVec.ofNat 32 offset,
      (List.range (min axiSw planned.size)).map data⟩]) (offset + axiSw)
    rw [store]
    exact reading.stored.concat rfl

/-- The last beat of a read fails an assertion. -/
theorem Reading.respond_last {planned : PlannedBeat} {rest : List PlannedBeat} {axiDriver : AxiReads}
    (reading : reads.Reading offset (planned :: rest))
    (serves : Serves (fun _ _ => True) axiDriver [planned] rest) (last : planned.readLast = true) :
    progressAxiReadResponses { reads with axiDriver := axiDriver } = none := by
  obtain ⟨arrived, axiDriver', data, consumed, -⟩ := serves.consumes
  obtain ⟨read, inFlightReads, oldest, -, small, left⟩ := reading.oldest
  have size : planned.size ≤ axiSw := Whole.size_le reading.serves.whole
  have positive := reading.positive planned List.mem_cons_self
  rw [bytesLeft, carry_last _ last] at left
  have length : offset + planned.size = read.2.toNat := Option.some.inj left
  rw [progressAxiReadResponses_eq arrived oldest consumed, last, if_pos rfl]
  -- the line ends behind the read, unless the sum wraps around to less than a line
  have sum : (BitVec.ofNat 32 offset + 64).toNat = (offset + 64) % 2 ^ 32 := by
    rw [BitVec.toNat_add, BitVec.toNat_ofNat, Nat.mod_add_mod]
    rfl
  unfold axiSw at *
  split
  next before =>
    rw [if_neg]
    rw [sum] at before ⊢
    show ¬(offset + 64) % 2 ^ 32 = read.2.toNat
    have below : (offset + 64) % 2 ^ 32 < read.2.toNat := before
    omega
  next => rfl

/-- A step that returns no last beat keeps the state, and one that does fails. -/
theorem Reading.step (reading : reads.Reading offset requested) {event : PcieReadEvent}
    (aligned : event.Aligned) : (¬reads.ReturnsLast event → ∃ reads', reads.step event = some reads' ∧
      ∃ offset' requested', reads'.Reading offset' requested') ∧
        (reads.ReturnsLast event → reads.step event = none) := by
  cases event with
  | nicMemRead nicMemAddr len =>
    obtain ⟨reads', stepped, holds⟩ := reading.nicMemRead aligned.1 aligned.2.1 aligned.2.2
    exact ⟨fun _ => ⟨reads', stepped, _, _, holds⟩, False.elim⟩
  | cycle rData arReady =>
    cases present : rData with
    | none =>
      obtain ⟨reads', stepped, holds⟩ := reading.cycle_idle none arReady (Or.inl rfl)
      exact ⟨fun _ => ⟨reads', stepped, _, _, holds⟩, False.elim⟩
    | some data =>
      cases owes : reads.axiDriver.owed with
      | nil =>
        obtain ⟨reads', stepped, holds⟩ := reading.cycle_idle (some data) arReady (Or.inr owes)
        refine ⟨fun _ => ⟨reads', stepped, _, _, holds⟩, ?_⟩
        rintro ⟨beat, none_, -⟩
        rw [owes] at none_
        cases none_
      | cons beat owed =>
        -- a beat arrives: the driver puts it where the oldest read waits for it
        have moved := reading.serves.sendArBeat.arPosedge (sendArBeat_settled reading.settled)
        have owes' := (sendArBeat_owed reads.axiDriver).trans owes
        obtain ⟨axiDriver, planned, rest, returned, rfl, rfl, serves⟩ :=
          moved.rPosedge_beat data owes' trivial
        have lastBeat := reading.serves.lastBeatNext_iff owes
        have stepped : reads.step (.cycle (some data) arReady) = (progressAxiReadResponses
            { reads with axiDriver := axiDriver }).bind fun reads =>
              some { reads with axiDriver := reads.axiDriver.arNegedge arReady } := by
          show (_ >>= _) = _
          rw [returned]
          rfl
        cases last : planned.readLast with
        | true =>
          refine ⟨fun other => absurd (lastBeat.mpr last) other, fun _ => ?_⟩
          rw [stepped, reading.respond_last serves last, Option.bind_none]
        | false =>
          obtain ⟨reads', responded, holds⟩ := reading.respond serves last
          refine ⟨fun _ => ⟨_, by rw [stepped, responded]; rfl, _, _, holds arReady⟩, fun isLast => ?_⟩
          exact absurd (lastBeat.mp isLast) (by rw [last]; decide)

/-- Before a last beat is returned every read has its first bytes, and none is complete. -/
theorem Reading.exact (reading : reads.Reading offset requested) : reads.Exact := by
  have positive : ∀ bytes ∈ bytesLeft requested, 0 < bytes := bytesLeft_positive reading.positive
  have total := reading.total
  have none_ (userPtr : Nat) : userPtr ∉ reads.callbacks := by
    rw [reading.callbacks]
    exact List.not_mem_nil
  refine ⟨fun userPtr read isRead => ?_, fun store member => ?_, fun userPtr called => absurd called
    (none_ userPtr), by rw [reading.callbacks]; exact .nil⟩
  · have length : (carry (· + ·) offset (bytesLeft requested))[userPtr]? = some read.2.toNat := by
      rw [total, List.getElem?_map, isRead]
      rfl
    cases left : bytesLeft requested with
    | nil =>
      rw [left] at length
      cases length
    | cons bytes rest =>
      rw [left] at length
      rw [left, List.forall_mem_cons] at positive
      -- only the oldest read has been stored from
      cases userPtr with
      | zero =>
        have sum : offset + bytes = read.2.toNat := Option.some.inj length
        refine ⟨offset, by omega, ?_, fun called => absurd called (none_ 0), fun same => by omega⟩
        have all : reads.stores.filter (fun store => decide (store.userPtr = 0)) = reads.stores := by
          refine List.filter_eq_self.mpr fun store member => ?_
          exact decide_eq_true (reading.own store member)
        rw [PcieReads.storedOf, all]
        exact reading.stored
      | succ userPtr =>
        have some_ : 0 < read.2.toNat := positive.2 _ (List.mem_of_getElem? length)
        refine ⟨0, Nat.zero_le _, ?_, fun called => absurd called (none_ _), fun same => by omega⟩
        have no : reads.stores.filter (fun store => decide (store.userPtr = userPtr + 1)) = [] := by
          refine List.filter_eq_nil_iff.mpr fun store member => ?_
          rw [reading.own store member]
          simp
        rw [PcieReads.storedOf, no]
        rfl
  · rw [reading.own store member]
    refine List.length_pos_iff.mpr fun empty => ?_
    rw [(reading.idle (reading.issued_eq_nil.mp empty)).2] at member
    cases member

end Steps

end PcieReads

/-- Reads of the host keep their promises in a run exactly when no last beat of a read is returned
    in it: then no assertion fails, and otherwise one does. -/
theorem pcieReads_exact_iff (events : List PcieReadEvent)
    (aligned : ∀ event ∈ events, event.Aligned) :
    (∃ reads, pcieReads.run events = some reads ∧ reads.Exact) ↔
      pcieReads.Admits (fun state event => ∀ reads ∈ state, ¬reads.ReturnsLast event) events := by
  have goes : ∀ (reads : PcieReads) (event : PcieReadEvent),
      (∃ offset requested, reads.Reading offset requested) → event.Aligned → ¬reads.ReturnsLast event →
        ∃ next, reads.step event = some next ∧ ∃ offset requested, next.Reading offset requested := by
    rintro reads event ⟨offset, requested, reading⟩ allowed other
    exact (reading.step allowed).1 other
  have fails : ∀ (reads : PcieReads) (event : PcieReadEvent),
      (∃ offset requested, reads.Reading offset requested) → event.Aligned →
        ¬¬reads.ReturnsLast event → reads.step event = none := by
    rintro reads event ⟨offset, requested, reading⟩ allowed isLast
    exact (reading.step allowed).2 (not_not.mp isLast)
  obtain ⟨ends, keeps⟩ := Machine.failing_runFrom_iff PcieReads.reset
    (fun reads : PcieReads => ∃ offset requested, reads.Reading offset requested)
    (fun reads event => ¬reads.ReturnsLast event) goes fails ⟨0, [], PcieReads.reset_reading⟩ aligned
  constructor
  · rintro ⟨reads, run, -⟩
    exact ends.mp ⟨reads, run⟩
  · intro admitted
    obtain ⟨reads, run⟩ := ends.mpr admitted
    obtain ⟨offset, requested, reading⟩ := keeps reads run
    exact ⟨reads, run, reading.exact⟩

/-- A read of four lines, until the first three of them are there. -/
def threeLines : List PcieReadEvent :=
  [.nicMemRead 0 200, .cycle none true] ++ List.replicate 3 (.cycle (some (BitVec.ofNat 8)) true)

theorem pcieReads_exact_iff_threeLines : ∃ reads, pcieReads.run threeLines = some reads ∧
    reads.Exact ∧ reads.storedOf 0 = [⟨0, 64⟩, ⟨64, 64⟩, ⟨128, 64⟩] := by
  obtain ⟨reads, run, holds⟩ := (pcieReads_exact_iff threeLines (by decide)).mpr (by decide +kernel)
  have stored : (pcieReads.run threeLines).map (fun reads => reads.storedOf 0) =
      some [⟨0, 64⟩, ⟨64, 64⟩, ⟨128, 64⟩] := by
    decide +kernel
  rw [run] at stored
  exact ⟨reads, run, holds, Option.some.inj stored⟩

/-- A read of one line of the bus fails when its only beat arrives. -/
theorem pcieReads_fail : ¬∀ events : List PcieReadEvent, (∀ event ∈ events, event.Aligned) →
    ∃ reads, pcieReads.run events = some reads ∧ reads.Exact := by
  intro exact_
  obtain ⟨reads, run, -⟩ := exact_ [.nicMemRead 0 64, .cycle none true,
    .cycle (some fun _ => 0) true] (by decide)
  have failed : (pcieReads.run [.nicMemRead 0 64, .cycle none true,
      .cycle (some fun _ => 0) true]).isNone = true := by
    decide +kernel
  rw [run] at failed
  cases failed

end Pspin
