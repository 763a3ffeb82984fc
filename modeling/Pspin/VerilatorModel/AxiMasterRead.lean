import Mathlib.Algebra.Order.BigOperators.Group.Finset
import Pspin.Clocked.ByteMem
import Pspin.Clocked.Segments
import Pspin.Runtime.Atomics
import Pspin.VerilatorModel.AxiDriver

/-! # Reads of the AXI master

`AXIMaster::read` queues the bursts of a transfer and an entry that counts its bursts and bytes;
`r_posedge` charges every beat that arrives to the oldest entry.  The beats come from a memory
that accepts bursts when it likes and sends their beats in order, as late as it likes.

What is still to come is a list of beats that knows which of them is the last of its read.  The
entries are sums over this list, and so is whatever else a client counts.
-/

namespace Pspin

open Clocked

/-- `axi_r_queue_entry_t` -/
structure AxiRQueueEntry where
  dataLeft : Nat
  nBursts : Nat
deriving DecidableEq

/-- `axi_r_buffered_t`, of which the bytes behind `data_length` are not used -/
structure AxiRBuffered where
  dataLength : Nat
  data : Nat → BitVec 8
  isLast : Bool

/-- A beat of a burst. -/
abbrev RBeat := AxBeat × Nat

namespace RBeat

/-- The address of the beat, as an incrementing burst has it. -/
def addr (beat : RBeat) : Nat :=
  if beat.2 = 0 then beat.1.axAddr
  else beat.1.axAddr / 2 ^ beat.1.axSize * 2 ^ beat.1.axSize + beat.2 * 2 ^ beat.1.axSize

/-- `r_last` -/
def rLast (beat : RBeat) : Bool := decide (beat.2 = beat.1.axLen)

/-- The lanes of a memory that returns the bytes of a beat; the others are anything. -/
def lanes (beat : RBeat) (mem : ByteMem) (others : Nat → BitVec 8) (lane : Nat) : BitVec 8 :=
  if beat.addr % axiSw ≤ lane ∧ lane < axiLaneEnd beat.1 beat.2 then
    mem (beat.addr / axiSw * axiSw + lane)
  else others lane

end RBeat

/-- The beats of a burst. -/
def beatsOf (ax : AxBeat) : List RBeat := (List.range (ax.axLen + 1)).map fun i => (ax, i)

/-- The queues of the master that reads use, the burst at the port, and what the memory owes: the
    beats of the bursts it has accepted. -/
structure AxiReads where
  arPending : List AxBeat
  arQueue : List AxBeat
  arPort : Option AxBeat
  arWait : Bool
  readQueue : List AxiRQueueEntry
  rQueue : List AxiRBuffered
  owed : List RBeat

namespace AxiReads

def reset : AxiReads := ⟨[], [], none, false, [], [], []⟩

variable (reads : AxiReads)

/-- `AXIMaster::read`, unless an assertion fails. -/
def read (addr : Nat) (nBytes : Word) : Option AxiReads := do
  let arBeats ← createAxBeats (nBytes.toNat + 1) addr nBytes.toNat
  some { reads with
    readQueue := reads.readQueue ++ [⟨nBytes.toNat, arBeats.length % 2 ^ 32⟩]
    arPending := reads.arPending ++ arBeats.map BeatAndSize.beat }

/-- `send_ar_beat`, if there is one; the buffers are not bounded. -/
def sendArBeat : AxiReads :=
  match reads.arPending with
  | [] => reads
  | ar :: arPending => { reads with arPending := arPending, arQueue := reads.arQueue ++ [ar] }

def arPosedge : AxiReads :=
  if reads.arWait then reads
  else
    match reads.arQueue with
    | [] => { reads with arPort := none }
    | ar :: arQueue => { reads with arPort := some ar, arQueue := arQueue }

/-- `ar_negedge`; a burst that finds the memory ready leaves the port. -/
def arNegedge (arReady : Bool) : AxiReads :=
  match reads.arPort with
  | none => { reads with arWait := false }
  | some ar =>
    if arReady then
      { reads with arWait := false, arPort := none, owed := reads.owed ++ beatsOf ar }
    else { reads with arWait := true }

/-- `r_posedge`, where the memory may present the next beat it owes, unless its assertion fails. -/
def rPosedge (rData : Option (Nat → BitVec 8)) : Option AxiReads :=
  match rData, reads.owed with
  | some rData, beat :: owed =>
    match reads.readQueue with
    | [] => none
    | entry :: readQueue =>
      let dataSize := min axiSw entry.dataLeft
      let completedBurst := if beat.rLast then 1 else 0
      let nBursts := (entry.nBursts + 2 ^ 32 - completedBurst) % 2 ^ 32
      let isComplete := decide (nBursts = 0)
      some { reads with
        owed := owed
        readQueue :=
          if isComplete then readQueue else ⟨entry.dataLeft - dataSize, nBursts⟩ :: readQueue
        rQueue := reads.rQueue ++ [⟨dataSize, rData, isComplete⟩] }
  | _, _ => some reads

/-- `consume_r_beat` for at most `dataLength` bytes: the bytes and whether the read is complete,
    unless its assertion fails. -/
def consumeRBeat (dataLength : Nat) : Option (AxiReads × List (BitVec 8) × Bool) :=
  match reads.rQueue with
  | [] => none
  | r :: rQueue =>
    some ({ reads with rQueue := rQueue },
      (List.range (min dataLength r.dataLength)).map r.data, r.isLast)

end AxiReads

/-! ## Beats to come -/

/-- A beat, the bytes of it that are part of a read, and whether the read ends with it. -/
structure PlannedBeat where
  beat : RBeat
  size : Nat
  readLast : Bool

namespace PlannedBeat

/-- The bursts that a beat ends. -/
def bursts (planned : PlannedBeat) : Nat := if planned.beat.rLast then 1 else 0

end PlannedBeat

/-- The beats of a read of a number of bytes. -/
def planOf : List RBeat → Nat → List PlannedBeat
  | [], _ => []
  | beat :: beats, nBytes =>
    ⟨beat, min axiSw nBytes, beats.isEmpty⟩ :: planOf beats (nBytes - min axiSw nBytes)

def readBeats (addr nBytes : Nat) : List RBeat :=
  (axBursts addr nBytes).flatMap fun bs => beatsOf bs.beat

def readPlan (addr nBytes : Nat) : List PlannedBeat := planOf (readBeats addr nBytes) nBytes

/-- The bytes and the bursts of the reads that beats are to come for. -/
def bytesLeft (plan : List PlannedBeat) : List Nat :=
  totals PlannedBeat.readLast (· + ·) PlannedBeat.size plan

def burstsLeft (plan : List PlannedBeat) : List Nat :=
  totals PlannedBeat.readLast (· + ·) PlannedBeat.bursts plan

/-- Every beat has the bytes that are left of its read, at most those of the bus, and a read ends
    with a burst. -/
def Charged : List PlannedBeat → Prop
  | [] => True
  | planned :: plan =>
    (planned.readLast = true → planned.beat.rLast = true) ∧
      planned.size = min axiSw ((bytesLeft (planned :: plan)).headD 0) ∧ Charged plan

/-- The beats of whole reads. -/
structure Whole (plan : List PlannedBeat) : Prop where
  closed : Closed PlannedBeat.readLast plan
  charged : Charged plan

section Plans

variable {planned : PlannedBeat} {plan plan' : List PlannedBeat}
  {beats : List RBeat} {addr nBytes : Nat}

theorem Whole.tail (whole : Whole (planned :: plan)) : Whole plan :=
  ⟨whole.closed.tail, whole.charged.2.2⟩

/-- The beats behind some others are those of whole reads too. -/
theorem Whole.right (whole : Whole (plan ++ plan')) : Whole plan' := by
  induction plan with
  | nil => exact whole
  | cons planned plan inductionHypothesis => exact inductionHypothesis whole.tail

theorem bytesLeft_append (closed : Closed PlannedBeat.readLast plan) :
    bytesLeft (plan ++ plan') = bytesLeft plan ++ bytesLeft plan' :=
  closed.totals_append

theorem Whole.append (whole : Whole plan) (whole' : Whole plan') : Whole (plan ++ plan') := by
  refine ⟨whole.closed.append whole'.closed, ?_⟩
  induction plan with
  | nil => exact whole'.charged
  | cons planned plan inductionHypothesis =>
    obtain ⟨ends, size, -⟩ := whole.charged
    refine ⟨ends, ?_, inductionHypothesis whole.tail⟩
    obtain ⟨total, rest, same⟩ : ∃ total rest, bytesLeft (planned :: plan) = total :: rest :=
      List.exists_cons_of_ne_nil (mt totals_eq_nil.mp (List.cons_ne_nil _ _))
    show planned.size = min axiSw ((bytesLeft (planned :: plan ++ plan')).headD 0)
    rw [size, bytesLeft_append whole.closed, same]
    rfl

/-- Every read that is not at its end has a burst to end. -/
theorem Whole.bursts_pos (whole : Whole plan) : ∀ total ∈ burstsLeft plan, 0 < total := by
  induction plan with
  | nil => exact fun total member => absurd member List.not_mem_nil
  | cons planned plan inductionHypothesis =>
    have later := inductionHypothesis whole.tail
    rw [burstsLeft]
    cases last : planned.readLast with
    | true =>
      have ended : planned.bursts = 1 := if_pos (whole.charged.1 last)
      rw [totals_last last, List.forall_mem_cons, ended]
      exact ⟨Nat.one_pos, later⟩
    | false =>
      obtain ⟨total, rest, same⟩ := whole.closed.later (· + ·) PlannedBeat.bursts last
      rw [burstsLeft, same, List.forall_mem_cons] at later
      rw [totals_more last same, List.forall_mem_cons]
      exact ⟨Nat.lt_of_lt_of_le later.1 (Nat.le_add_left _ _), later.2⟩

/-! ### The plan of one read -/

/-- What a plan of one read sums up to. -/
theorem totals_planOf {α : Type*} {op : α → α → α} {o : α} [Std.LawfulRightIdentity op o]
    {f : PlannedBeat → α} (some_ : beats ≠ []) :
    totals PlannedBeat.readLast op f (planOf beats nBytes) =
      [((planOf beats nBytes).map f).foldr op o] := by
  induction beats generalizing nBytes with
  | nil => exact absurd rfl some_
  | cons beat beats inductionHypothesis =>
    rw [planOf, List.map_cons, List.foldr_cons]
    cases beats with
    | nil =>
      rw [totals_last rfl]
      exact congrArg (fun total => [total]) (Std.LawfulRightIdentity.right_id (f _)).symm
    | cons beat' beats =>
      exact totals_more rfl (inductionHypothesis (List.cons_ne_nil _ _))

theorem sum_size_planOf (enough : nBytes ≤ axiSw * beats.length) :
    ((planOf beats nBytes).map PlannedBeat.size).sum = nBytes := by
  induction beats generalizing nBytes with
  | nil =>
    have none_ : nBytes = 0 := by simpa using enough
    rw [none_]
    rfl
  | cons beat beats inductionHypothesis =>
    rw [List.length_cons, Nat.mul_succ] at enough
    rw [planOf, List.map_cons, List.sum_cons, inductionHypothesis (by omega)]
    show min axiSw nBytes + _ = _
    omega

theorem sum_bursts_planOf : ((planOf beats nBytes).map PlannedBeat.bursts).sum =
    (beats.filter RBeat.rLast).length := by
  induction beats generalizing nBytes with
  | nil => rfl
  | cons beat beats inductionHypothesis =>
    rw [planOf, List.map_cons, List.sum_cons, inductionHypothesis, PlannedBeat.bursts]
    cases last : beat.rLast <;> simp [last, Nat.add_comm]

theorem closed_planOf : Closed PlannedBeat.readLast (planOf beats nBytes) := by
  induction beats generalizing nBytes with
  | nil => trivial
  | cons beat beats inductionHypothesis =>
    refine ⟨fun more => ?_, inductionHypothesis⟩
    cases beats with
    | nil => cases more
    | cons beat' beats => exact List.cons_ne_nil _ _

theorem whole_planOf (enough : nBytes ≤ axiSw * beats.length)
    (ends : ∀ last ∈ beats.getLast?, last.rLast = true) : Whole (planOf beats nBytes) := by
  refine ⟨closed_planOf, ?_⟩
  induction beats generalizing nBytes with
  | nil => trivial
  | cons beat beats inductionHypothesis =>
    have total := sum_size_planOf enough
    rw [List.length_cons, Nat.mul_succ] at enough
    refine ⟨fun last => ?_, ?_, inductionHypothesis (by omega) fun last isLast => ends last ?_⟩
    · cases beats with
      | nil => exact ends beat rfl
      | cons beat' beats => cases last
    · have sums : bytesLeft (planOf (beat :: beats) nBytes) = [_] :=
        totals_planOf (List.cons_ne_nil beat beats)
      rw [← List.sum_eq_foldr, total] at sums
      rw [planOf] at sums
      rw [sums]
      rfl
    · cases beats with
      | nil => cases isLast
      | cons beat' beats => rwa [List.getLast?_cons_cons]

theorem planOf_positive {beats : List RBeat} (few : axiSw * beats.length < nBytes + axiSw) :
    ∀ planned ∈ planOf beats nBytes, 0 < planned.size := by
  induction beats generalizing nBytes with
  | nil => exact fun planned member => absurd member List.not_mem_nil
  | cons beat beats inductionHypothesis =>
    rw [List.length_cons, Nat.mul_succ] at few
    rw [planOf, List.forall_mem_cons]
    have bus : 0 < axiSw := by decide
    refine ⟨Nat.lt_min.mpr ⟨bus, by omega⟩, ?_⟩
    by_cases more : beats = []
    · rw [more]
      exact fun planned member => absurd member List.not_mem_nil
    · have some_ : axiSw ≤ axiSw * beats.length :=
        Nat.le_mul_of_pos_right _ (List.length_pos_iff.mpr more)
      exact inductionHypothesis (by omega)

theorem bytesLeft_positive (positive : ∀ planned ∈ plan, 0 < planned.size) :
    ∀ total ∈ bytesLeft plan, 0 < total := by
  induction plan with
  | nil => exact fun total member => absurd member List.not_mem_nil
  | cons planned plan inductionHypothesis =>
    rw [List.forall_mem_cons] at positive
    have later := inductionHypothesis positive.2
    rw [bytesLeft] at later ⊢
    rw [totals]
    split
    · exact List.forall_mem_cons.mpr ⟨positive.1, later⟩
    · cases rest : totals PlannedBeat.readLast (· + ·) PlannedBeat.size plan with
      | nil => exact List.forall_mem_cons.mpr ⟨positive.1, by simp⟩
      | cons total rest' =>
        rw [rest, List.forall_mem_cons] at later
        exact List.forall_mem_cons.mpr ⟨Nat.add_pos_left positive.1 _, later.2⟩

theorem Whole.size_le (whole : Whole (planned :: plan)) : planned.size ≤ axiSw := by
  rw [whole.charged.2.1]
  exact Nat.min_le_left _ _

/-- A beat that does not end its read has all bytes of the bus. -/
theorem Whole.full (whole : Whole (planned :: plan)) (more : planned.readLast = false)
    (positive : ∀ planned ∈ plan, 0 < planned.size) : planned.size = axiSw := by
  obtain ⟨total, rest, same⟩ := whole.closed.later (· + ·) PlannedBeat.size more
  have size := whole.charged.2.1
  have later := bytesLeft_positive positive
  rw [bytesLeft, same, List.forall_mem_cons] at later
  rw [bytesLeft, totals_more more same] at size
  have bound : planned.size = min axiSw (planned.size + total) := size
  omega

end Plans

section Bursts

variable {addr nBytes : Nat} {ax : AxBeat}

theorem beatsOf_eq (ax : AxBeat) :
    beatsOf ax = (List.range ax.axLen).map (fun i => (ax, i)) ++ [(ax, ax.axLen)] := by
  rw [beatsOf, List.range_succ, List.map_append]
  rfl

/-- A burst ends with its last beat and no other. -/
theorem beatsOf_rLast (ax : AxBeat) : (beatsOf ax).filter RBeat.rLast = [(ax, ax.axLen)] := by
  have before : ((List.range ax.axLen).map fun i => (ax, i)).filter RBeat.rLast = [] := by
    refine List.filter_eq_nil_iff.mpr fun beat member => ?_
    obtain ⟨i, below, rfl⟩ := List.mem_map.mp member
    have other : i ≠ ax.axLen := (List.mem_range.mp below).ne
    simp [RBeat.rLast, other]
  rw [beatsOf_eq, List.filter_append, before]
  simp [RBeat.rLast]

theorem length_beatsOf (ax : AxBeat) : (beatsOf ax).length = ax.axLen + 1 := by
  rw [beatsOf, List.length_map, List.length_range]

theorem readBeats_rLast : ((readBeats addr nBytes).filter RBeat.rLast).length =
    (axBursts addr nBytes).length := by
  rw [readBeats]
  induction axBursts addr nBytes with
  | nil => rfl
  | cons bs bursts inductionHypothesis =>
    rw [List.flatMap_cons, List.filter_append, beatsOf_rLast, List.length_append, inductionHypothesis,
      List.length_singleton, List.length_cons, Nat.add_comm]

/-- A read ends with the end of a burst. -/
theorem readBeats_ends : ∀ last ∈ (readBeats addr nBytes).getLast?, last.rLast = true := by
  rw [readBeats]
  induction axBursts addr nBytes with
  | nil => exact fun last isLast => nomatch isLast
  | cons bs bursts inductionHypothesis =>
    intro last isLast
    rw [List.flatMap_cons, List.getLast?_append, Option.mem_def, Option.or_eq_some_iff] at isLast
    rcases isLast with later | ⟨-, here⟩
    · exact inductionHypothesis last later
    · rw [beatsOf_eq, List.getLast?_concat, Option.some.injEq] at here
      rw [← here]
      exact decide_eq_true rfl

/-- The beats of a burst hold its bytes. -/
theorem Legal.bytes_le {bs : BeatAndSize} (legal : bs.Legal) :
    bs.nBytes ≤ axiSw * (beatsOf bs.beat).length := by
  have each : ∀ i ∈ Finset.range (bs.beat.axLen + 1), bs.upper i - bs.lower i ≤ axiSw := by
    intro i inside
    obtain ⟨-, upper, laneEnd⟩ := legal.lanes i (Nat.lt_succ_iff.mp (Finset.mem_range.mp inside))
    omega
  calc bs.nBytes ≤ ∑ i ∈ Finset.range (bs.beat.axLen + 1), (bs.upper i - bs.lower i) := legal.counts
    _ ≤ (Finset.range (bs.beat.axLen + 1)).card • axiSw := Finset.sum_le_card_nsmul _ _ _ each
    _ = axiSw * (beatsOf bs.beat).length := by
        rw [Finset.card_range, length_beatsOf, Nat.nsmul_eq_mul, Nat.mul_comm]

theorem readBeats_enough (addr nBytes : Nat) : nBytes ≤ axiSw * (readBeats addr nBytes).length := by
  induction addr, nBytes using axBursts.induct with
  | case1 addr => exact Nat.zero_le _
  | case2 addr nBytes some_ inductionHypothesis =>
    have inside : bytesInPage addr nBytes ≤ nBytes := Nat.min_le_left _ _
    have legal : (pageBurst addr (bytesInPage addr nBytes)).Legal := by
      refine pageBurst_legal ?_ ?_ <;> unfold bytesInPage <;> omega
    have here : bytesInPage addr nBytes ≤ _ := Legal.bytes_le legal
    rw [readBeats] at inductionHypothesis
    rw [readBeats, axBursts, if_neg some_, List.flatMap_cons, List.length_append, Nat.mul_add]
    omega

theorem length_axBursts_le (addr nBytes : Nat) : (axBursts addr nBytes).length ≤ nBytes := by
  induction addr, nBytes using axBursts.induct with
  | case1 addr =>
    rw [axBursts_zero]
    exact le_rfl
  | case2 addr nBytes some_ inductionHypothesis =>
    have inside : bytesInPage addr nBytes ≤ nBytes := Nat.min_le_left _ _
    have positive : 0 < bytesInPage addr nBytes := by
      unfold bytesInPage
      omega
    rw [axBursts, if_neg some_, List.length_cons]
    omega

theorem readBeats_ne_nil (positive : 0 < nBytes) : readBeats addr nBytes ≠ [] := by
  intro none_
  have enough := readBeats_enough addr nBytes
  rw [none_, List.length_nil, Nat.mul_zero] at enough
  omega

theorem whole_readPlan (addr nBytes : Nat) : Whole (readPlan addr nBytes) :=
  whole_planOf (readBeats_enough addr nBytes) readBeats_ends

theorem map_beat_planOf (beats : List RBeat) (nBytes : Nat) :
    (planOf beats nBytes).map PlannedBeat.beat = beats := by
  induction beats generalizing nBytes with
  | nil => rfl
  | cons beat beats inductionHypothesis => rw [planOf, List.map_cons, inductionHypothesis]

/-- The entry that `read` makes counts the bytes and the bursts of the read. -/
theorem bytesLeft_readPlan (positive : 0 < nBytes) : bytesLeft (readPlan addr nBytes) = [nBytes] := by
  rw [bytesLeft, readPlan, totals_planOf (readBeats_ne_nil positive), ← List.sum_eq_foldr,
    sum_size_planOf (readBeats_enough addr nBytes)]

theorem burstsLeft_readPlan (positive : 0 < nBytes) :
    burstsLeft (readPlan addr nBytes) = [(axBursts addr nBytes).length] := by
  rw [burstsLeft, readPlan, totals_planOf (readBeats_ne_nil positive), ← List.sum_eq_foldr,
    sum_bursts_planOf, readBeats_rLast]

end Bursts

/-! ## What is to come of the reads -/

/-- A buffered beat is the planned one. -/
structure Buffers (returned : RBeat → (Nat → BitVec 8) → Prop) (r : AxiRBuffered)
    (planned : PlannedBeat) : Prop where
  size : r.dataLength = planned.size
  isLast : r.isLast = planned.readLast
  data : returned planned.beat r.data

/-- The beats that the memory has not returned, in the order in which they come. -/
def AxiReads.awaited (reads : AxiReads) : List RBeat :=
  reads.owed ++ (reads.arPort.toList ++ reads.arQueue ++ reads.arPending).flatMap beatsOf

/-- A burst waits at the port between two cycles. -/
def AxiReads.Settled (reads : AxiReads) : Prop := reads.arWait = reads.arPort.isSome

/-- The beats that are buffered and those that are requested, of whole reads; the entries count the
    requested ones. -/
structure Serves (returned : RBeat → (Nat → BitVec 8) → Prop) (reads : AxiReads)
    (buffered requested : List PlannedBeat) : Prop where
  whole : Whole (buffered ++ requested)
  beats : reads.awaited = requested.map PlannedBeat.beat
  entries : reads.readQueue =
    List.zipWith AxiRQueueEntry.mk (bytesLeft requested) (burstsLeft requested)
  few : ∀ total ∈ burstsLeft requested, total < 2 ^ 32
  buffers : List.Forall₂ (Buffers returned) reads.rQueue buffered

section Serving

variable {returned : RBeat → (Nat → BitVec 8) → Prop} {reads : AxiReads}
  {buffered requested : List PlannedBeat}

theorem reset_serves : Serves returned AxiReads.reset [] [] where
  whole := ⟨trivial, trivial⟩
  beats := rfl
  entries := rfl
  few := fun _ member => absurd member List.not_mem_nil
  buffers := .nil

/-- A read adds its beats behind those of the reads before it. -/
theorem Serves.read (serves : Serves returned reads buffered requested) (addr : Nat) {nBytes : Word}
    (positive : 0 < nBytes.toNat) : ∃ reads', reads.read addr nBytes = some reads' ∧
      Serves returned reads' buffered (requested ++ readPlan addr nBytes.toNat) ∧
        (reads.Settled → reads'.Settled) := by
  have closed : Closed PlannedBeat.readLast requested := serves.whole.right.closed
  have bytes : bytesLeft (requested ++ readPlan addr nBytes.toNat) =
      bytesLeft requested ++ [nBytes.toNat] := by
    rw [bytesLeft_append closed, bytesLeft_readPlan positive]
  have bursts : burstsLeft (requested ++ readPlan addr nBytes.toNat) =
      burstsLeft requested ++ [(axBursts addr nBytes.toNat).length] := by
    rw [← burstsLeft_readPlan positive]
    exact closed.totals_append
  have small : (axBursts addr nBytes.toNat).length < 2 ^ 32 :=
    Nat.lt_of_le_of_lt (length_axBursts_le addr nBytes.toNat) nBytes.isLt
  refine ⟨{ reads with
      readQueue := reads.readQueue ++ [⟨nBytes.toNat, (axBursts addr nBytes.toNat).length⟩]
      arPending := reads.arPending ++ (axBursts addr nBytes.toNat).map BeatAndSize.beat },
    ?_, ⟨?_, ?_, ?_, ?_, serves.buffers⟩, id⟩
  · rw [AxiReads.read, createAxBeats_eq (Nat.lt_succ_self nBytes.toNat)]
    simp only [Option.bind_eq_bind, Option.bind_some, Nat.mod_eq_of_lt small]
  · rw [← List.append_assoc]
    exact serves.whole.append (whole_readPlan addr nBytes.toNat)
  · have before := serves.beats
    rw [AxiReads.awaited] at before
    rw [AxiReads.awaited, List.map_append, ← before, readPlan, map_beat_planOf, readBeats]
    simp [List.flatMap_append, List.flatMap_map]
  · have sameLength : (bytesLeft requested).length = (burstsLeft requested).length := by
      exact length_totals _ _
    rw [bytes, bursts, List.zipWith_append sameLength, ← serves.entries]
    rfl
  · rw [bursts]
    intro total member
    rcases List.mem_append.mp member with before | new
    · exact serves.few total before
    · rw [List.mem_singleton.mp new]
      exact small

/-- What only moves bursts towards the memory. -/
theorem Serves.moved {reads' : AxiReads} (serves : Serves returned reads buffered requested)
    (awaited : reads'.awaited = reads.awaited) (readQueue : reads'.readQueue = reads.readQueue)
    (rQueue : reads'.rQueue = reads.rQueue) : Serves returned reads' buffered requested where
  whole := serves.whole
  beats := awaited.trans serves.beats
  entries := readQueue.trans serves.entries
  few := serves.few
  buffers := rQueue ▸ serves.buffers

theorem sendArBeat_awaited (reads : AxiReads) : reads.sendArBeat.awaited = reads.awaited := by
  rw [AxiReads.sendArBeat]
  cases pending : reads.arPending with
  | nil => rfl
  | cons ar arPending =>
    rw [AxiReads.awaited, AxiReads.awaited, pending]
    simp

theorem Serves.sendArBeat (serves : Serves returned reads buffered requested) :
    Serves returned reads.sendArBeat buffered requested := by
  refine serves.moved (sendArBeat_awaited reads) ?_ ?_ <;> rw [AxiReads.sendArBeat] <;>
    cases reads.arPending <;> rfl

theorem sendArBeat_settled (settled : reads.Settled) : reads.sendArBeat.Settled := by
  rw [AxiReads.sendArBeat]
  cases reads.arPending <;> exact settled

/-- If no burst waits, the port is free. -/
theorem Settled.port_eq_none (settled : reads.Settled) (idle : reads.arWait = false) :
    reads.arPort = none := by
  rwa [AxiReads.Settled, idle, eq_comm, Option.isSome_eq_false_iff, Option.isNone_iff_eq_none]
    at settled

theorem arPosedge_awaited (settled : reads.Settled) : reads.arPosedge.awaited = reads.awaited := by
  rw [AxiReads.arPosedge]
  cases wait : reads.arWait with
  | true => rfl
  | false =>
    have free := Settled.port_eq_none settled wait
    cases queue : reads.arQueue with
    | nil =>
      rw [AxiReads.awaited, AxiReads.awaited, free, queue]
      rfl
    | cons ar arQueue =>
      rw [AxiReads.awaited, AxiReads.awaited, free, queue]
      rfl

theorem Serves.arPosedge (serves : Serves returned reads buffered requested)
    (settled : reads.Settled) : Serves returned reads.arPosedge buffered requested := by
  refine serves.moved (arPosedge_awaited settled) ?_ ?_ <;> rw [AxiReads.arPosedge] <;>
    cases reads.arWait <;> cases reads.arQueue <;> rfl

theorem arNegedge_awaited (reads : AxiReads) (arReady : Bool) :
    (reads.arNegedge arReady).awaited = reads.awaited := by
  rw [AxiReads.arNegedge]
  cases port : reads.arPort with
  | none => rw [AxiReads.awaited, AxiReads.awaited, port]
  | some ar =>
    rw [AxiReads.awaited, AxiReads.awaited, port]
    cases arReady with
    | true => simp
    | false => rfl

theorem Serves.arNegedge (serves : Serves returned reads buffered requested) (arReady : Bool) :
    Serves returned (reads.arNegedge arReady) buffered requested := by
  refine serves.moved (arNegedge_awaited reads arReady) ?_ ?_ <;> rw [AxiReads.arNegedge] <;>
    cases reads.arPort <;> cases arReady <;> rfl

theorem arNegedge_settled (reads : AxiReads) (arReady : Bool) :
    (reads.arNegedge arReady).Settled := by
  rw [AxiReads.Settled, AxiReads.arNegedge]
  cases port : reads.arPort with
  | none => simp
  | some ar => cases arReady <;> simp

/-- The next beat is charged to the oldest entry. -/
theorem rPosedge_eq {beat : RBeat} {owed : List RBeat} {entry : AxiRQueueEntry}
    {readQueue : List AxiRQueueEntry} {dataSize nBursts : Nat} (data : Nat → BitVec 8)
    (owes : reads.owed = beat :: owed) (queue : reads.readQueue = entry :: readQueue)
    (size : min axiSw entry.dataLeft = dataSize)
    (counts : (entry.nBursts + 2 ^ 32 - if beat.rLast then 1 else 0) % 2 ^ 32 = nBursts) :
    reads.rPosedge (some data) = some { reads with
      owed := owed
      readQueue :=
        if nBursts = 0 then readQueue else ⟨entry.dataLeft - dataSize, nBursts⟩ :: readQueue
      rQueue := reads.rQueue ++ [⟨dataSize, data, decide (nBursts = 0)⟩] } := by
  unfold AxiReads.rPosedge
  rw [owes, queue]
  simp only [size, counts, decide_eq_true_eq]

/-- The entry of the first beat requested, and what is left of it when the beat has arrived. -/
theorem Whole.charge {planned : PlannedBeat} {plan : List PlannedBeat}
    (whole : Whole (planned :: plan)) (few : ∀ total ∈ burstsLeft (planned :: plan), total < 2 ^ 32) :
    ∃ entry readQueue nBursts, List.zipWith AxiRQueueEntry.mk (bytesLeft (planned :: plan))
        (burstsLeft (planned :: plan)) = entry :: readQueue ∧
      min axiSw entry.dataLeft = planned.size ∧
      (entry.nBursts + 2 ^ 32 - planned.bursts) % 2 ^ 32 = nBursts ∧
      decide (nBursts = 0) = planned.readLast ∧
      (if nBursts = 0 then readQueue else ⟨entry.dataLeft - planned.size, nBursts⟩ :: readQueue) =
        List.zipWith AxiRQueueEntry.mk (bytesLeft plan) (burstsLeft plan) ∧
      ∀ total ∈ burstsLeft plan, total < 2 ^ 32 := by
  obtain ⟨ends, size, -⟩ := whole.charged
  rw [bytesLeft] at size
  rw [burstsLeft] at few
  rw [bytesLeft, burstsLeft]
  cases last : planned.readLast with
  | true =>
    have ended : planned.bursts = 1 := if_pos (ends last)
    rw [totals_last last] at size few
    rw [totals_last last, totals_last last, ended]
    exact ⟨_, _, 0, rfl, size.symm, show (1 + 2 ^ 32 - 1) % 2 ^ 32 = 0 by decide, rfl, rfl,
      fun total later => few total (.tail _ later)⟩
  | false =>
    obtain ⟨bytes, bytesRest, sameBytes⟩ :=
      whole.closed.later (· + ·) PlannedBeat.size last
    obtain ⟨bursts, burstsRest, sameBursts⟩ :=
      whole.closed.later (· + ·) PlannedBeat.bursts last
    have positive : 0 < bursts := whole.tail.bursts_pos bursts (by
      rw [burstsLeft, sameBursts]
      exact List.mem_cons_self)
    rw [totals_more last sameBytes] at size
    rw [totals_more last sameBursts, List.forall_mem_cons] at few
    rw [totals_more last sameBytes, totals_more last sameBursts]
    refine ⟨_, _, bursts, rfl, size.symm, ?_, decide_eq_false positive.ne', ?_, ?_⟩
    · show (planned.bursts + bursts + 2 ^ 32 - planned.bursts) % 2 ^ 32 = bursts
      omega
    · rw [if_neg positive.ne', Nat.add_sub_cancel_left, bytesLeft, burstsLeft, sameBytes, sameBursts]
      rfl
    · rw [burstsLeft, sameBursts, List.forall_mem_cons]
      exact ⟨by omega, few.2⟩

/-- Nothing happens when the memory owes no beat or is late. -/
theorem rPosedge_idle {rData : Option (Nat → BitVec 8)} (idle : rData = none ∨ reads.owed = []) :
    reads.rPosedge rData = some reads := by
  unfold AxiReads.rPosedge
  rcases idle with rfl | none_
  · rfl
  · cases rData with
    | none => rfl
    | some data => rw [none_]

/-- A beat that arrives is the next one requested, and is buffered with the bytes and the end of its
    read. -/
theorem Serves.rPosedge_beat (serves : Serves returned reads buffered requested) {beat : RBeat}
    {owed : List RBeat} (data : Nat → BitVec 8) (owes : reads.owed = beat :: owed)
    (returns : returned beat data) : ∃ reads' planned rest,
      reads.rPosedge (some data) = some reads' ∧ requested = planned :: rest ∧ planned.beat = beat ∧
        Serves returned reads' (buffered ++ [planned]) rest := by
  have beats := serves.beats
  rw [AxiReads.awaited, owes, List.cons_append] at beats
  cases requested with
  | nil => cases beats
  | cons planned requested =>
    obtain ⟨rfl, later⟩ := List.cons.inj beats
    have whole := serves.whole
    obtain ⟨entry, readQueue, nBursts, queue, size, counts, ends, left, few⟩ :=
      whole.right.charge serves.few
    rw [← serves.entries] at queue
    refine ⟨_, planned, requested, rPosedge_eq data owes queue size counts, rfl, rfl, ?_, later, left,
      few, List.rel_append serves.buffers (.cons ⟨rfl, ends, returns⟩ .nil)⟩
    rwa [List.append_assoc]

theorem Serves.rPosedge (serves : Serves returned reads buffered requested)
    {rData : Option (Nat → BitVec 8)}
    (good : ∀ data ∈ rData, ∀ beat ∈ reads.owed.head?, returned beat data) :
    ∃ reads' arrived rest, reads.rPosedge rData = some reads' ∧ requested = arrived ++ rest ∧
      Serves returned reads' (buffered ++ arrived) rest := by
  have stays (idle : rData = none ∨ reads.owed = []) : ∃ reads' arrived rest,
      reads.rPosedge rData = some reads' ∧ requested = arrived ++ rest ∧
        Serves returned reads' (buffered ++ arrived) rest :=
    ⟨reads, [], requested, rPosedge_idle idle, rfl, by rwa [List.append_nil]⟩
  cases present : rData with
  | none => exact present ▸ stays (Or.inl present)
  | some data =>
    cases owes : reads.owed with
    | nil => exact present ▸ stays (Or.inr owes)
    | cons beat owed =>
      have returns := good data present beat (by rw [owes]; rfl)
      obtain ⟨reads', planned, rest, stepped, rfl, -, serves'⟩ := serves.rPosedge_beat data owes returns
      exact ⟨reads', [planned], rest, stepped, rfl, serves'⟩

/-- The next beat that the memory returns is the last one of its read. -/
def AxiReads.LastBeatNext (reads : AxiReads) : Prop :=
  ∃ beat ∈ reads.owed.head?, ∃ entry ∈ reads.readQueue.head?, beat.rLast = true ∧ entry.nBursts = 1

instance (reads : AxiReads) : Decidable reads.LastBeatNext :=
  inferInstanceAs (Decidable (∃ beat ∈ _, ∃ entry ∈ _, _ ∧ _))

theorem Serves.lastBeatNext_iff {planned : PlannedBeat} {rest : List PlannedBeat} {owed : List RBeat}
    (serves : Serves returned reads buffered (planned :: rest))
    (owes : reads.owed = planned.beat :: owed) :
    reads.LastBeatNext ↔ planned.readLast = true := by
  have whole : Whole (planned :: rest) := serves.whole.right
  have entries := serves.entries
  rw [bytesLeft, burstsLeft] at entries
  rw [AxiReads.LastBeatNext, owes, entries]
  cases last : planned.readLast with
  | true =>
    have ends := whole.charged.1 last
    rw [totals_last last, totals_last last]
    exact ⟨fun _ => rfl, fun _ => ⟨_, rfl, _, rfl, ends, if_pos ends⟩⟩
  | false =>
    obtain ⟨bytes, bytesRest, sameBytes⟩ := whole.closed.later (· + ·) PlannedBeat.size last
    obtain ⟨bursts, burstsRest, sameBursts⟩ := whole.closed.later (· + ·) PlannedBeat.bursts last
    have positive : 0 < bursts := whole.tail.bursts_pos bursts (by
      rw [burstsLeft, sameBursts]
      exact List.mem_cons_self)
    rw [totals_more last sameBytes, totals_more last sameBursts]
    refine ⟨?_, fun no => absurd no Bool.false_ne_true⟩
    rintro ⟨beat, isBeat, entry, isEntry, ends, single⟩
    obtain rfl := Option.some.inj isBeat
    obtain rfl := Option.some.inj isEntry
    have counts : planned.bursts + bursts = 1 := single
    rw [PlannedBeat.bursts, if_pos ends] at counts
    omega

/-- What is consumed is the oldest beat that is buffered. -/
theorem Serves.consumeRBeat (serves : Serves returned reads buffered requested)
    (arrived : reads.rQueue ≠ []) (dataLength : Nat) : ∃ reads' planned data rest,
    buffered = planned :: rest ∧ returned planned.beat data ∧
      reads.consumeRBeat dataLength = some (reads',
        (List.range (min dataLength planned.size)).map data, planned.readLast) ∧
      Serves returned reads' rest requested ∧ (reads.Settled → reads'.Settled) := by
  obtain ⟨whole, beats, entries, few, buffers⟩ := serves
  cases queue : reads.rQueue with
  | nil => exact absurd queue arrived
  | cons r rQueue =>
    rw [queue] at buffers
    cases buffers with
    | cons here rest =>
      refine ⟨{ reads with rQueue := rQueue }, _, r.data, _, rfl, here.data, ?_,
        ⟨whole.tail, beats, entries, few, rest⟩, id⟩
      rw [AxiReads.consumeRBeat, queue, ← here.size, ← here.isLast]

/-- The beat that has arrived, when no other was left. -/
theorem Serves.consumes {planned : PlannedBeat} (serves : Serves returned reads [planned] requested) :
    reads.rQueue ≠ [] ∧ ∃ reads' data, reads.consumeRBeat axiSw =
      some (reads', (List.range (min axiSw planned.size)).map data, planned.readLast) ∧
        Serves returned reads' [] requested := by
  have arrived : reads.rQueue ≠ [] := by
    intro none_
    have buffers := serves.buffers
    rw [none_] at buffers
    cases buffers
  obtain ⟨reads', planned', data, rest', here, -, consumed, serves', -⟩ :=
    serves.consumeRBeat arrived axiSw
  obtain ⟨rfl, rfl⟩ := List.cons.inj here
  exact ⟨arrived, reads', data, consumed, serves'⟩

/-- What only moves bursts does not touch the beats of the memory. -/
theorem sendArBeat_owed (reads : AxiReads) : reads.sendArBeat.arPosedge.owed = reads.owed := by
  have sent : reads.sendArBeat.owed = reads.owed := by
    rw [AxiReads.sendArBeat]
    cases reads.arPending <;> rfl
  rw [← sent, AxiReads.arPosedge]
  cases reads.sendArBeat.arWait <;> cases reads.sendArBeat.arQueue <;> rfl

end Serving

end Pspin
