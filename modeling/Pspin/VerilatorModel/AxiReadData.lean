import Pspin.VerilatorModel.AxiReadWork

/-! # What reads return

A client of the master issues reads and drains them beat by beat, as the response functions of the
models do.  The memory returns its bytes on the lanes where the bus has them, and the master takes
every beat from lane 0 on.  The two agree on reads that start at a line of the bus.
-/

namespace Pspin

open Clocked

/-- What happens at the master: a read is issued, a burst is sent, a cycle in which the memory may
    return a beat and take a burst, and a beat is consumed if there is one. -/
inductive ReadEvent where
  | read (addr : Nat) (nBytes : Word)
  | sendAr
  | cycle (others : Option (Nat → BitVec 8)) (arReady : Bool)
  | consume

/-- The master and a client that puts the beats of a read together.  The reads issued so far are
    only recorded. -/
structure ReadClient where
  reads : AxiReads
  issued : List (Nat × Word)
  current : List (BitVec 8)
  completed : List (List (BitVec 8))

namespace ReadClient

def reset : ReadClient := ⟨.reset, [], [], []⟩

variable (mem : ByteMem) (client : ReadClient)

def issue (addr : Nat) (nBytes : Word) : Option ReadClient := do
  let reads ← client.reads.read addr nBytes
  some { client with reads := reads, issued := client.issued ++ [(addr, nBytes)] }

def cycle (others : Option (Nat → BitVec 8)) (arReady : Bool) : Option ReadClient := do
  let reads := client.reads.arPosedge
  let rData := others.bind fun others => reads.owed.head?.map fun beat => beat.lanes mem others
  let reads ← reads.rPosedge rData
  some { client with reads := reads.arNegedge arReady }

def consume : Option ReadClient :=
  if client.reads.rQueue.isEmpty then some client
  else do
    let (reads, data, readComplete) ← client.reads.consumeRBeat axiSw
    if readComplete then
      some { client with
        reads := reads, current := [], completed := client.completed ++ [client.current ++ data] }
    else some { client with reads := reads, current := client.current ++ data }

def step : ReadEvent → Option ReadClient
  | .read addr nBytes => client.issue addr nBytes
  | .sendAr => some { client with reads := client.reads.sendArBeat }
  | .cycle others arReady => client.cycle mem others arReady
  | .consume => client.consume

end ReadClient

/-- The master with its client, until an assertion fails. -/
def axiReader (mem : ByteMem) : Machine (Option ReadClient) ReadEvent :=
  Machine.failing ReadClient.reset fun client event => client.step mem event

/-- The bytes that a read is for. -/
def readBytes (mem : ByteMem) (read : Nat × Word) : List (BitVec 8) :=
  (List.range read.2.toNat).map fun i => mem (read.1 + i)

/-- The completed reads are the first ones issued, with their bytes, the beats put together so far
    are the start of the next one, and when nothing is on its way all reads are complete and the
    master is as after a reset. -/
structure ReadClient.ReadsBack (mem : ByteMem) (client : ReadClient) : Prop where
  completed : client.completed <+: client.issued.map (readBytes mem)
  current : client.current = [] ∨ ∃ read ∈ client.issued[client.completed.length]?,
    client.current <+: readBytes mem read
  drained : client.reads.Drained →
    client.completed = client.issued.map (readBytes mem) ∧ client.reads = .reset

namespace ReadEvent

/-- A read of at least one byte that starts at a line of the bus. -/
def Aligned : ReadEvent → Prop
  | .read addr nBytes => addr % axiSw = 0 ∧ 0 < nBytes.toNat
  | _ => True

instance (event : ReadEvent) : Decidable event.Aligned := by
  cases event <;> unfold Aligned <;> infer_instance

/-- Not the start of a read. -/
def Drains : ReadEvent → Prop
  | .read _ _ => False
  | _ => True

end ReadEvent

/-! ## Beats on lines of the bus -/

/-- Beats of the bytes from an address on, one for every line of the bus. -/
def Lines : Nat → Nat → List RBeat → Prop
  | _, _, [] => True
  | start, nBytes, beat :: beats =>
    beat.addr = start ∧ min axiSw nBytes ≤ axiLaneEnd beat.1 beat.2 ∧
      Lines (start + axiSw) (nBytes - axiSw) beats

section Beats

variable {mem : ByteMem} {addr nBytes count : Nat} {ax : AxBeat} {beats beats' : List RBeat}

theorem Lines.append (lines : Lines addr nBytes beats)
    (lines' : Lines (addr + axiSw * beats.length) (nBytes - axiSw * beats.length) beats') :
    Lines addr nBytes (beats ++ beats') := by
  induction beats generalizing addr nBytes with
  | nil => exact lines'
  | cons beat beats inductionHypothesis =>
    obtain ⟨first, lane, rest⟩ := lines
    refine ⟨first, lane, inductionHypothesis rest ?_⟩
    rw [List.length_cons, Nat.mul_succ] at lines'
    have start : addr + (axiSw * beats.length + axiSw) = addr + axiSw + axiSw * beats.length := by
      omega
    have left : nBytes - (axiSw * beats.length + axiSw) = nBytes - axiSw - axiSw * beats.length := by
      omega
    rwa [start, left] at lines'

theorem lines_beats (each : ∀ i < count, RBeat.addr (ax, i) = addr + axiSw * i ∧
      min axiSw (nBytes - axiSw * i) ≤ axiLaneEnd ax i) :
    Lines addr nBytes ((List.range count).map fun i => (ax, i)) := by
  induction count with
  | zero => trivial
  | succ count inductionHypothesis =>
    have before := inductionHypothesis fun i below => each i (Nat.lt_succ_of_lt below)
    obtain ⟨start, lane⟩ := each count (Nat.lt_succ_self count)
    rw [List.range_succ, List.map_append]
    refine before.append ⟨?_, ?_, trivial⟩ <;> rw [List.length_map, List.length_range]
    · exact start
    · exact lane

/-- The beats of a burst that starts at a line. -/
theorem pageBurst_lines (aligned : addr % axiSw = 0) (positive : 0 < nBytes) {left : Nat}
    (enough : nBytes = left ∨ nBytes ≤ left ∧ nBytes % axiSw = 0) :
    Lines addr left (beatsOf (pageBurst addr nBytes).beat) := by
  rw [beatsOf]
  by_cases line : addr % axiSw + nBytes ≤ axiSw
  · obtain ⟨size, narrow, same⟩ := pageBurst_narrow positive line
    rw [same]
    refine lines_beats fun i single => ?_
    obtain rfl : i = 0 := Nat.lt_one_iff.mp single
    have holds := narrow.holds
    have start : addr / axiSw * axiSw = addr := Nat.div_mul_cancel (Nat.dvd_of_mod_eq_zero aligned)
    refine ⟨rfl, ?_⟩
    show min axiSw (left - axiSw * 0) ≤ axiAlignedAddress addr size + 2 ^ size - addr / axiSw * axiSw
    rw [SizeHolds] at holds
    unfold axiSw at *
    omega
  · rw [pageBurst_wide (Nat.not_le.mp line)]
    refine lines_beats fun i _ => ?_
    rw [wide_laneEnd]
    refine ⟨?_, Nat.min_le_left _ _⟩
    show (if i = 0 then addr else addr / axiSw * axiSw + i * axiSw) = addr + axiSw * i
    have start : addr / axiSw * axiSw = addr := Nat.div_mul_cancel (Nat.dvd_of_mod_eq_zero aligned)
    split
    next first => rw [first, Nat.mul_zero, Nat.add_zero]
    next => rw [start, Nat.mul_comm]

theorem length_pageBurst (aligned : addr % axiSw = 0) (positive : 0 < nBytes) :
    (pageBurst addr nBytes).beat.axLen + 1 = (nBytes + axiSw - 1) / axiSw := by
  show (addr % axiSw + nBytes - 1) / axiSw + 1 = _
  unfold axiSw at *
  omega

/-- The beats of a read that starts at a line. -/
theorem readBeats_lines (aligned : addr % axiSw = 0) :
    Lines addr nBytes (readBeats addr nBytes) := by
  induction addr, nBytes using axBursts.induct with
  | case1 addr =>
    rw [readBeats, axBursts_zero]
    trivial
  | case2 addr nBytes some_ inductionHypothesis =>
    have positive : 0 < bytesInPage addr nBytes := by
      unfold bytesInPage
      omega
    have inside : bytesInPage addr nBytes ≤ nBytes := Nat.min_le_left _ _
    have beats := length_pageBurst aligned positive
    -- the burst is the last one, or it ends at the end of its page
    have either : bytesInPage addr nBytes = nBytes ∨ bytesInPage addr nBytes % axiSw = 0 := by
      unfold bytesInPage axiSw at *
      omega
    rw [readBeats] at inductionHypothesis
    rw [readBeats, axBursts, if_neg some_, List.flatMap_cons]
    refine (pageBurst_lines aligned positive ?_).append ?_
    · rcases either with last | page
      · exact Or.inl last
      · exact Or.inr ⟨inside, page⟩
    · rw [length_beatsOf, beats]
      rcases either with last | page
      · rw [last, Nat.sub_self, axBursts_zero]
        trivial
      · have whole : axiSw * ((bytesInPage addr nBytes + axiSw - 1) / axiSw) =
            bytesInPage addr nBytes := by
          unfold axiSw at *
          omega
        rw [whole]
        refine inductionHypothesis ?_
        unfold axiSw at *
        omega

/-- A read from a line on has one beat for every line. -/
theorem length_readBeats (aligned : addr % axiSw = 0) :
    (readBeats addr nBytes).length = (nBytes + axiSw - 1) / axiSw := by
  induction addr, nBytes using axBursts.induct with
  | case1 addr =>
    rw [readBeats, axBursts_zero]
    rfl
  | case2 addr nBytes some_ inductionHypothesis =>
    have positive : 0 < bytesInPage addr nBytes := by
      unfold bytesInPage
      omega
    have beats := length_pageBurst aligned positive
    rw [readBeats] at inductionHypothesis
    rw [readBeats, axBursts, if_neg some_, List.flatMap_cons, List.length_append, length_beatsOf, beats]
    by_cases last : bytesInPage addr nBytes = nBytes
    · rw [last, Nat.sub_self, axBursts_zero]
      rfl
    · rw [inductionHypothesis (by unfold bytesInPage axiSw at *; omega)]
      unfold bytesInPage axiSw at *
      omega

theorem readPlan_positive (aligned : addr % axiSw = 0) :
    ∀ planned ∈ readPlan addr nBytes, 0 < planned.size := by
  refine planOf_positive ?_
  rw [length_readBeats aligned]
  unfold axiSw
  omega

end Beats

/-! ## Reads put together -/

/-- The bytes that a beat is for, if they start at lane 0. -/
def PlannedBeat.bytes (mem : ByteMem) (planned : PlannedBeat) : List (BitVec 8) :=
  (List.range planned.size).map fun lane => mem (planned.beat.addr + lane)

/-- The memory returns the bytes of a beat where the master looks for them. -/
def PlannedBeat.OnLine (planned : PlannedBeat) : Prop :=
  planned.beat.addr % axiSw = 0 ∧ planned.size ≤ axiSw ∧
    planned.size ≤ axiLaneEnd planned.beat.1 planned.beat.2

/-- Lanes as the memory returns them. -/
def FromMem (mem : ByteMem) (beat : RBeat) (data : Nat → BitVec 8) : Prop :=
  ∃ others, data = beat.lanes mem others

def bytesTotals (mem : ByteMem) (plan : List PlannedBeat) : List (List (BitVec 8)) :=
  totals PlannedBeat.readLast (· ++ ·) (PlannedBeat.bytes mem) plan

section Bytes

variable {mem : ByteMem} {addr nBytes : Nat} {planned : PlannedBeat} {data : Nat → BitVec 8}
  {beats : List RBeat}

theorem FromMem.data_eq (returns : FromMem mem planned.beat data) (onLine : planned.OnLine) :
    (List.range (min axiSw planned.size)).map data = planned.bytes mem := by
  obtain ⟨others, rfl⟩ := returns
  obtain ⟨aligned, small, lanes⟩ := onLine
  have start : planned.beat.addr / axiSw * axiSw = planned.beat.addr :=
    Nat.div_mul_cancel (Nat.dvd_of_mod_eq_zero aligned)
  rw [Nat.min_eq_right small]
  refine List.map_congr_left fun lane inside => ?_
  have below := List.mem_range.mp inside
  rw [RBeat.lanes, if_pos ⟨by omega, by omega⟩, start]

theorem Lines.onLine (lines : Lines addr nBytes beats) (aligned : addr % axiSw = 0) :
    ∀ planned ∈ planOf beats nBytes, planned.OnLine := by
  induction beats generalizing addr nBytes with
  | nil => exact fun planned member => absurd member List.not_mem_nil
  | cons beat beats inductionHypothesis =>
    obtain ⟨start, lane, rest⟩ := lines
    have next : nBytes - min axiSw nBytes = nBytes - axiSw := by omega
    rw [planOf, next, List.forall_mem_cons]
    refine ⟨⟨?_, Nat.min_le_left _ _, lane⟩, inductionHypothesis rest ?_⟩
    · rw [start]
      exact aligned
    · rw [Nat.add_mod_right]
      exact aligned

theorem Lines.bytes_eq (lines : Lines addr nBytes beats) (enough : nBytes ≤ axiSw * beats.length) :
    ((planOf beats nBytes).map (PlannedBeat.bytes mem)).foldr (· ++ ·) [] =
      (List.range nBytes).map fun i => mem (addr + i) := by
  induction beats generalizing addr nBytes with
  | nil =>
    obtain rfl : nBytes = 0 := by simpa using enough
    rfl
  | cons beat beats inductionHypothesis =>
    obtain ⟨start, -, rest⟩ := lines
    have next : nBytes - min axiSw nBytes = nBytes - axiSw := by omega
    have split : nBytes = min axiSw nBytes + (nBytes - axiSw) := by omega
    rw [List.length_cons, Nat.mul_succ] at enough
    rw [planOf, next, List.map_cons, List.foldr_cons, inductionHypothesis rest (by omega),
      PlannedBeat.bytes, start]
    conv_rhs => rw [split, List.range_add, List.map_append, List.map_map]
    refine congrArg _ (List.map_congr_left fun i inside => ?_)
    have later := List.mem_range.mp inside
    have full : min axiSw nBytes = axiSw := by omega
    show mem (addr + axiSw + i) = mem (addr + (min axiSw nBytes + i))
    rw [full, Nat.add_assoc]

theorem bytesTotals_readPlan (aligned : addr % axiSw = 0) (positive : 0 < nBytes) :
    bytesTotals mem (readPlan addr nBytes) = [(List.range nBytes).map fun i => mem (addr + i)] := by
  rw [bytesTotals, readPlan, totals_planOf (readBeats_ne_nil positive),
    (readBeats_lines aligned).bytes_eq (readBeats_enough addr nBytes)]

end Bytes

namespace ReadClient

/-- The client has put together what it has consumed, and the beats to come complete the reads. -/
structure Gathers (mem : ByteMem) (client : ReadClient) (buffered requested : List PlannedBeat) :
    Prop where
  serves : Serves (FromMem mem) client.reads buffered requested
  settled : client.reads.Settled
  onLine : ∀ planned ∈ buffered ++ requested, planned.OnLine
  total : client.completed ++ carry (· ++ ·) client.current (bytesTotals mem (buffered ++ requested)) =
    client.issued.map (readBytes mem)
  started : buffered ++ requested = [] → client.current = []

section Steps

variable {mem : ByteMem} {client : ReadClient} {buffered requested : List PlannedBeat}

theorem reset_gathers : Gathers mem reset [] [] where
  serves := reset_serves
  settled := rfl
  onLine := fun _ member => absurd member List.not_mem_nil
  total := rfl
  started := fun _ => rfl

theorem Gathers.issue (gathers : client.Gathers mem buffered requested) {addr : Nat} {nBytes : Word}
    (aligned : addr % axiSw = 0) (positive : 0 < nBytes.toNat) :
    ∃ client', client.issue addr nBytes = some client' ∧
      client'.Gathers mem buffered (requested ++ readPlan addr nBytes.toNat) := by
  obtain ⟨reads', issued, serves, settled⟩ := gathers.serves.read addr positive
  refine ⟨_, by rw [ReadClient.issue, issued]; rfl, serves, settled gathers.settled, ?_, ?_, ?_⟩
  · rw [← List.append_assoc]
    intro planned member
    rcases List.mem_append.mp member with before | new
    · exact gathers.onLine planned before
    · exact (readBeats_lines aligned).onLine aligned planned new
  · have closed := gathers.serves.whole.closed
    have new : bytesTotals mem (readPlan addr nBytes.toNat) = [readBytes mem (addr, nBytes)] :=
      bytesTotals_readPlan aligned positive
    have joined : bytesTotals mem (buffered ++ requested ++ readPlan addr nBytes.toNat) =
        bytesTotals mem (buffered ++ requested) ++ [readBytes mem (addr, nBytes)] := by
      rw [← new]
      exact closed.totals_append
    show client.completed ++ carry (· ++ ·) client.current
      (bytesTotals mem (buffered ++ (requested ++ readPlan addr nBytes.toNat))) =
        (client.issued ++ [(addr, nBytes)]).map (readBytes mem)
    rw [← List.append_assoc, joined, List.map_append, ← gathers.total, List.append_assoc]
    have fresh : bytesTotals mem (buffered ++ requested) = [] →
        ∀ bytes, client.current ++ bytes = bytes := by
      intro idle bytes
      rw [gathers.started (totals_eq_nil.mp idle), List.nil_append]
    rw [carry_append fresh]
    rfl
  · intro none_
    have beats : bytesTotals mem (readPlan addr nBytes.toNat) = [readBytes mem (addr, nBytes)] :=
      bytesTotals_readPlan aligned positive
    rw [← List.append_assoc, List.append_eq_nil_iff] at none_
    rw [none_.2] at beats
    cases beats

theorem Gathers.sendAr (gathers : client.Gathers mem buffered requested) :
    Gathers mem { client with reads := client.reads.sendArBeat } buffered requested where
  serves := gathers.serves.sendArBeat
  settled := sendArBeat_settled gathers.settled
  onLine := gathers.onLine
  total := gathers.total
  started := gathers.started

theorem Gathers.cycle (gathers : client.Gathers mem buffered requested)
    (others : Option (Nat → BitVec 8)) (arReady : Bool) :
    ∃ client' buffered' requested', client.cycle mem others arReady = some client' ∧
      client'.Gathers mem buffered' requested' ∧ client'.issued = client.issued := by
  have returned : ∀ data ∈ others.bind fun others => client.reads.arPosedge.owed.head?.map fun beat =>
      beat.lanes mem others, ∀ beat ∈ client.reads.arPosedge.owed.head?, FromMem mem beat data := by
    intro data present beat next
    cases others with
    | none => cases present
    | some others =>
      rw [Option.mem_def] at next
      rw [Option.bind_some, next] at present
      exact ⟨others, (Option.some.inj present).symm⟩
  obtain ⟨reads', arrived, rest, stepped, split, serves⟩ :=
    (gathers.serves.arPosedge gathers.settled).rPosedge returned
  have same : buffered ++ arrived ++ rest = buffered ++ requested := by
    rw [split, List.append_assoc]
  refine ⟨{ client with reads := reads'.arNegedge arReady }, buffered ++ arrived, rest, ?_,
    ⟨serves.arNegedge arReady, arNegedge_settled reads' arReady, ?_, ?_, ?_⟩, rfl⟩
  · rw [ReadClient.cycle, stepped]
    rfl
  · rw [same]
    exact gathers.onLine
  · rw [same]
    exact gathers.total
  · rw [same]
    exact gathers.started

/-- A beat that is consumed goes to the read it belongs to. -/
theorem Gathers.consume (gathers : client.Gathers mem buffered requested) :
    ∃ client' buffered', client.consume = some client' ∧
      client'.Gathers mem buffered' requested ∧ client'.issued = client.issued := by
  rw [ReadClient.consume]
  cases idle : client.reads.rQueue.isEmpty with
  | true => exact ⟨client, buffered, rfl, gathers, rfl⟩
  | false =>
    have arrived : client.reads.rQueue ≠ [] := by
      rwa [← List.isEmpty_eq_false_iff]
    obtain ⟨reads', planned, data, rest, rfl, returns, consumed, serves, settled⟩ :=
      gathers.serves.consumeRBeat arrived axiSw
    have onLine := gathers.onLine
    rw [List.cons_append, List.forall_mem_cons] at onLine
    have total := gathers.total
    have closed : Closed PlannedBeat.readLast (planned :: (rest ++ requested)) :=
      gathers.serves.whole.closed
    rw [List.cons_append, bytesTotals] at total
    rw [returns.data_eq onLine.1] at consumed
    cases last : planned.readLast with
    | true =>
      refine ⟨{ client with reads := reads', current := [],
                            completed := client.completed ++ [client.current ++ planned.bytes mem] },
        rest, ?_, ⟨serves, settled gathers.settled, onLine.2, ?_, fun _ => rfl⟩, rfl⟩
      · rw [consumed, last]
        rfl
      · rw [carry_last _ last] at total
        rw [← total, carry_identity, List.append_assoc]
        rfl
    | false =>
      refine ⟨{ client with reads := reads', current := client.current ++ planned.bytes mem }, rest,
        ?_, ⟨serves, settled gathers.settled, onLine.2, ?_, fun none_ => ?_⟩, rfl⟩
      · rw [consumed, last]
        rfl
      · rw [carry_more _ closed last] at total
        exact total
      · exact absurd none_ (closed.1 last)

/-- Every step of a client whose reads start at lines. -/
theorem Gathers.step (gathers : client.Gathers mem buffered requested) {event : ReadEvent}
    (aligned : event.Aligned) : ∃ client', client.step mem event = some client' ∧
      (∃ buffered' requested', client'.Gathers mem buffered' requested') ∧
        (event.Drains → client'.issued = client.issued) := by
  cases event with
  | read addr nBytes =>
    obtain ⟨client', stepped, holds⟩ := gathers.issue aligned.1 aligned.2
    exact ⟨client', stepped, ⟨_, _, holds⟩, False.elim⟩
  | sendAr => exact ⟨_, rfl, ⟨_, _, gathers.sendAr⟩, fun _ => rfl⟩
  | cycle others arReady =>
    obtain ⟨client', _, _, stepped, holds, same⟩ := gathers.cycle others arReady
    exact ⟨client', stepped, ⟨_, _, holds⟩, fun _ => same⟩
  | consume =>
    obtain ⟨client', _, stepped, holds, same⟩ := gathers.consume
    exact ⟨client', stepped, ⟨_, _, holds⟩, fun _ => same⟩

theorem Gathers.drained (gathers : client.Gathers mem buffered requested)
    (drained : client.reads.Drained) : buffered ++ requested = [] ∧ client.reads = .reset := by
  obtain ⟨noneBuffered, noneRequested⟩ := gathers.serves.drained drained
  obtain ⟨arPending, arQueue, arPort, owed, rQueue⟩ := drained
  have entries := gathers.serves.entries
  have idle := gathers.settled
  rw [AxiReads.Settled, arPort] at idle
  rw [noneRequested] at entries
  refine ⟨by rw [noneBuffered, noneRequested]; rfl, ?_⟩
  show AxiReads.mk _ _ _ _ _ _ _ = AxiReads.mk _ _ _ _ _ _ _
  rw [arPending, arQueue, arPort, idle, entries, rQueue, owed]
  rfl

theorem Gathers.readsBack (gathers : client.Gathers mem buffered requested) :
    client.ReadsBack mem := by
  have total := gathers.total
  refine ⟨⟨_, total⟩, ?_, fun drained => ?_⟩
  · cases plan : bytesTotals mem (buffered ++ requested) with
    | nil => exact Or.inl (gathers.started (totals_eq_nil.mp plan))
    | cons bytes rest =>
      right
      rw [plan] at total
      have next : (client.issued.map (readBytes mem))[client.completed.length]? =
          some (client.current ++ bytes) := by
        rw [← total, List.getElem?_append_right le_rfl, Nat.sub_self]
        rfl
      rw [List.getElem?_map, Option.map_eq_some_iff] at next
      obtain ⟨read, isRead, same⟩ := next
      exact ⟨read, isRead, bytes, same.symm⟩
  · obtain ⟨none_, reset⟩ := gathers.drained drained
    rw [gathers.started none_, none_] at total
    exact ⟨by rw [← total]; exact (List.append_nil _).symm, reset⟩

end Steps

end ReadClient

/-! ## Draining -/

section Draining

namespace ReadClient

variable {mem : ByteMem} {client client' : ReadClient}

theorem cycle_load (settled : client.reads.Settled) (others : Nat → BitVec 8)
    (underway : client.reads.arQueue ≠ [] ∨ client.reads.arPort ≠ none ∨ client.reads.owed ≠ [])
    (stepped : client.cycle mem (some others) true = some client') :
    client'.reads.load < client.reads.load := by
  rw [ReadClient.cycle] at stepped
  obtain ⟨reads', arrived, rest⟩ := Option.bind_eq_some_iff.mp stepped
  obtain rfl := Option.some.inj rest
  have port := arPosedge_load settled
  have beat := rPosedge_load arrived
  have taken := arNegedge_load reads' true
  have le := port.le
  have le' := beat.le
  show (reads'.arNegedge true).load < client.reads.load
  by_contra less
  -- no stage has anything to do
  obtain ⟨same, queue⟩ := port.still (by omega)
  obtain ⟨same', owed⟩ := beat.still (by omega)
  obtain ⟨-, free⟩ := taken.resolve_right (by omega)
  rw [same] at same' owed
  rw [same'] at free
  have noPort := free.resolve_right (by decide)
  have noQueue := Settled.queue_eq_nil settled noPort queue
  have noBeat : client.reads.owed = [] := by
    rcases owed with absent | none_
    · rwa [Option.bind_some, Option.map_eq_none_iff, List.head?_eq_none_iff] at absent
    · exact none_
  rcases underway with queued | atPort | owes
  · exact queued noQueue
  · exact atPort noPort
  · exact owes noBeat

/-- Until everything is drained there is a step that brings it closer to the client. -/
theorem Gathers.progress {buffered requested : List PlannedBeat}
    (gathers : client.Gathers mem buffered requested) (busy : ¬client.reads.Drained) :
    ∃ event client', event.Drains ∧ client.step mem event = some client' ∧
      client'.reads.load < client.reads.load := by
  by_cases pending : client.reads.arPending = []
  · by_cases arrived : client.reads.rQueue = []
    · have underway : client.reads.arQueue ≠ [] ∨ client.reads.arPort ≠ none ∨
          client.reads.owed ≠ [] := by
        by_contra still
        rw [not_or, not_or, not_ne_iff, not_ne_iff, not_ne_iff] at still
        exact busy ⟨pending, still.1, still.2.1, still.2.2, arrived⟩
      obtain ⟨client', _, _, stepped, -⟩ := gathers.cycle (some fun _ => 0) true
      exact ⟨.cycle (some fun _ => 0) true, client', trivial, stepped,
        cycle_load gathers.settled _ underway stepped⟩
    · obtain ⟨client', _, stepped, -⟩ := gathers.consume
      refine ⟨.consume, client', trivial, stepped, ?_⟩
      rw [ReadClient.consume, if_neg (by simpa using arrived)] at stepped
      obtain ⟨⟨reads', data, last⟩, consumed, rest⟩ := Option.bind_eq_some_iff.mp stepped
      have less := consumeRBeat_load consumed
      cases last with
      | true =>
        obtain rfl := Option.some.inj rest
        exact less
      | false =>
        obtain rfl := Option.some.inj rest
        exact less
  · have less := (sendArBeat_load client.reads).resolve_left fun stays => pending stays.2
    exact ⟨.sendAr, _, trivial, rfl, less⟩

/-- What is on its way can be drained. -/
theorem Gathers.drains {buffered requested : List PlannedBeat}
    (gathers : client.Gathers mem buffered requested) : ∃ events client',
      (∀ event ∈ events, event.Drains) ∧
        (axiReader mem).runFrom (some client) events = some client' ∧
          client'.ReadsBack mem ∧ client'.reads.Drained ∧ client'.issued = client.issued := by
  induction load : client.reads.load using Nat.strong_induction_on
    generalizing client buffered requested with
  | _ load inductionHypothesis =>
    by_cases drained : client.reads.Drained
    · exact ⟨[], client, fun _ member => absurd member List.not_mem_nil, rfl, gathers.readsBack,
        drained, rfl⟩
    · obtain ⟨event, next, drains, stepped, less⟩ := gathers.progress drained
      have aligned : event.Aligned := by
        cases event with
        | read addr nBytes => cases drains
        | _ => trivial
      obtain ⟨next', stepped', ⟨_, _, gathers'⟩, same⟩ := gathers.step aligned
      obtain rfl : next = next' := Option.some.inj (stepped.symm.trans stepped')
      obtain ⟨events, final, allDrain, run, holds, empty, sameIssued⟩ :=
        inductionHypothesis next.reads.load (load ▸ less) gathers' rfl
      refine ⟨event :: events, final, List.forall_mem_cons.mpr ⟨drains, allDrain⟩, ?_, holds, empty,
        sameIssued.trans (same drains)⟩
      rw [← run, ← stepped]
      rfl

end ReadClient

end Draining

/-- In every run whose reads have bytes and start at lines of the bus no assertion fails, the
    completed reads are the first ones issued, with their bytes, and all reads can be drained. -/
theorem axiReader_readsBack (mem : ByteMem) (events : List ReadEvent)
    (aligned : ∀ event ∈ events, event.Aligned) : ∃ client,
      (axiReader mem).run events = some client ∧ client.ReadsBack mem ∧
        ∃ more client', (∀ event ∈ more, event.Drains) ∧
          (axiReader mem).run (events ++ more) = some client' ∧
            client'.completed = client.issued.map (readBytes mem) ∧ client'.reads = .reset := by
  have preserved : ∀ (client : ReadClient) (event : ReadEvent),
      (∃ buffered requested, client.Gathers mem buffered requested) → event.Aligned →
        ∃ next, client.step mem event = some next ∧
          ∃ buffered requested, next.Gathers mem buffered requested := by
    rintro client event ⟨buffered, requested, gathers⟩ aligned
    obtain ⟨next, stepped, holds, -⟩ := gathers.step aligned
    exact ⟨next, stepped, holds⟩
  obtain ⟨client, run, buffered, requested, gathers⟩ := Machine.failing_run
    (fun client => ∃ buffered requested, ReadClient.Gathers mem client buffered requested)
    ⟨[], [], ReadClient.reset_gathers⟩ preserved aligned
  obtain ⟨more, client', drain, goesOn, holds, drained, same⟩ := gathers.drains
  obtain ⟨complete, reset⟩ := holds.drained drained
  refine ⟨client, run, gathers.readsBack, more, client', drain, ?_, by rw [complete, same], reset⟩
  exact (Machine.failing_run_append run).trans goesOn

/-- Two reads, the first one over the end of a page, so that it has two bursts. -/
def twoReads : List ReadEvent :=
  [.read 4032 100, .sendAr, .sendAr, .read 64 3, .sendAr] ++
    List.replicate 4 (.cycle (some fun _ => 0) true) ++ [.consume, .consume]

/-- The beats of the first read are put together, and that of the second waits. -/
theorem axiReader_readsBack_two : ∃ client,
    (axiReader fun i => BitVec.ofNat 8 i).run twoReads = some client ∧
      (client.ReadsBack fun i => BitVec.ofNat 8 i) ∧
        client.completed = [readBytes (fun i => BitVec.ofNat 8 i) (4032, 100)] ∧
          client.reads.rQueue.length = 1 := by
  obtain ⟨client, run, holds, -⟩ := axiReader_readsBack (fun i => BitVec.ofNat 8 i) twoReads (by decide)
  have reached : ((axiReader fun i => BitVec.ofNat 8 i).run twoReads).map (fun client =>
      (client.completed, client.reads.rQueue.length)) =
        some ([readBytes (fun i => BitVec.ofNat 8 i) (4032, 100)], 1) := by
    decide +kernel
  rw [run, Option.map_some, Option.some.injEq, Prod.mk.injEq] at reached
  exact ⟨client, run, holds, reached⟩

/-- A byte that is not at the start of its line is taken from lane 0. -/
theorem axiReader_wrong_byte : ¬∀ (mem : ByteMem) (events : List ReadEvent), ∃ client,
    (axiReader mem).run events = some client ∧ client.ReadsBack mem := by
  intro readsBack
  obtain ⟨client, run, holds⟩ := readsBack (fun i => BitVec.ofNat 8 i)
    [.read 1 1, .sendAr, .cycle none true, .cycle (some fun _ => 0) true, .consume]
  have completed : ((axiReader fun i => BitVec.ofNat 8 i).run [.read 1 1, .sendAr, .cycle none true,
      .cycle (some fun _ => 0) true, .consume]).map ReadClient.completed = some [[0]] := by
    decide +kernel
  have issued : ((axiReader fun i => BitVec.ofNat 8 i).run [.read 1 1, .sendAr, .cycle none true,
      .cycle (some fun _ => 0) true, .consume]).map ReadClient.issued = some [(1, 1)] := by
    decide +kernel
  rw [run, Option.map_some, Option.some.injEq] at completed issued
  have first := holds.completed
  rw [completed, issued] at first
  exact absurd first (by decide)

end Pspin
