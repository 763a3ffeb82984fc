import Pspin.VerilatorModel.NicOutbound

/-! # Runs of the outbound engine

Packets go through the reads, the network queue and out in the order in which they are made, so
that what was sent is the start of all packets.  The reads of the AXI master fill the packets one
after another; a packet that is complete has all its bytes.
-/

namespace Pspin

open Clocked

/-- A packet as it was made. -/
def NetworkPacket.fresh (pkt : NetworkPacket) : NetworkPacket := { pkt with currentOffset := 0 }

/-- A packet that has some more of its bytes. -/
def NetworkPacket.filled (pkt : NetworkPacket) (bytes : Nat) : NetworkPacket :=
  { pkt with currentOffset := pkt.currentOffset + BitVec.ofNat 32 bytes }

@[simp] theorem NetworkPacket.fresh_filled (pkt : NetworkPacket) (bytes : Nat) :
    (pkt.filled bytes).fresh = pkt.fresh := rfl

/-- The bytes that the packet at the front has. -/
def headOffset : List NetworkPacket → Nat
  | [] => 0
  | pkt :: _ => pkt.currentOffset.toNat

namespace NicOutbound

/-- No command and no packet waits. -/
structure Idle (no : NicOutbound) : Prop where
  commands : no.commands = []
  dmaPktInFlight : no.dmaPktInFlight = []
  networkQueue : no.networkQueue = []

/-- The responses to a command. -/
def responsesOf (no : NicOutbound) (number : Nat) : List (Nat × BitVec 8) :=
  no.responses.filter fun response => response.1 = number

/-- Every command is cut into packets, packets leave as they were made, and a command is answered
    once, when all its packets have left. -/
structure Exact (params : NicOutboundParams) (no : NicOutbound) : Prop where
  cut : ∀ number cmd, no.accepted[number]? = some cmd →
    (no.commandsOf number = [] ∧ cmd.CutInto (no.packetsOf number)) ∨
      ∃ rest served, no.commandsOf number = [rest] ∧ served < cmd.length.toNat ∧
        cmd.CutSoFar (no.packetsOf number) served
  frames : ∀ pkt ∈ no.packets, ∃ cmd, no.accepted[pkt.number]? = some cmd ∧ cmd.Frames params pkt
  inOrder : no.sent.map NetworkPacket.fresh <+: no.packets
  answered : ∀ number cmd, no.accepted[number]? = some cmd →
    (cmd.CutInto (no.sentOf number) ∧ no.responsesOf number = [(number, cmd.cmdId)]) ∨
      ((∀ pkt ∈ no.sentOf number, pkt.isLast = false) ∧ no.responsesOf number = [])
  done : no.Idle → ∀ number cmd, no.accepted[number]? = some cmd →
    no.responsesOf number = [(number, cmd.cmdId)]

/-- The packets are where they belong, and those in flight wait for the beats of their reads. -/
structure Moves (params : NicOutboundParams) (no : NicOutbound)
    (buffered requested : List PlannedBeat) : Prop where
  serves : Serves (fun _ _ => True) no.axiDriver buffered requested
  reads : carry (· + ·) (headOffset no.dmaPktInFlight) (bytesLeft (buffered ++ requested)) =
    no.dmaPktInFlight.map fun pkt => pkt.payloadLength.toNat
  waiting : ∀ pkt ∈ no.dmaPktInFlight.tail, pkt.currentOffset = 0
  cutting : Cutting params no.commands no.accepted no.packets
  inOrder : (no.sent ++ no.networkQueue ++ no.dmaPktInFlight).map NetworkPacket.fresh = no.packets
  answers : no.responses =
    (no.sent.filter NetworkPacket.isLast).map fun pkt => (pkt.number, pkt.cmdId)

section Steps

variable {params : NicOutboundParams} {no : NicOutbound} {buffered requested : List PlannedBeat}

theorem reset_moves (params : NicOutboundParams) : Moves params reset [] [] where
  serves := reset_serves
  reads := rfl
  waiting := fun _ member => absurd member List.not_mem_nil
  cutting :=
    { cut := fun _ _ none_ => by cases none_
      commandsKnown := fun _ member => absurd member List.not_mem_nil
      packetsKnown := fun _ member => absurd member List.not_mem_nil
      frames := fun _ member => absurd member List.not_mem_nil
      fits := fun _ member => absurd member List.not_mem_nil }
  inOrder := rfl
  answers := rfl

/-- What the AXI master does for itself moves no packet. -/
theorem Moves.driver (moves : no.Moves params buffered requested) {axiDriver : AxiReads}
    {buffered' requested' : List PlannedBeat}
    (serves : Serves (fun _ _ => True) axiDriver buffered' requested')
    (same : buffered' ++ requested' = buffered ++ requested) :
    Moves params { no with axiDriver := axiDriver } buffered' requested' := by
  refine ⟨serves, ?_, moves.waiting, moves.cutting, moves.inOrder, moves.answers⟩
  rw [same]
  exact moves.reads

/-- Packets that wait have no bytes yet. -/
theorem headOffset_fresh {pkts : List NetworkPacket} (fresh : ∀ pkt ∈ pkts, pkt.currentOffset = 0) :
    headOffset pkts = 0 := by
  cases pkts with
  | nil => rfl
  | cons pkt pkts => exact congrArg BitVec.toNat (fresh pkt List.mem_cons_self)

theorem headOffset_concat {pkts : List NetworkPacket} {pkt : NetworkPacket}
    (fresh : pkt.currentOffset = 0) : headOffset (pkts ++ [pkt]) = headOffset pkts := by
  cases pkts with
  | nil => exact congrArg BitVec.toNat fresh
  | cons first pkts => rfl

section Front

variable {planned : PlannedBeat} {rest : List PlannedBeat} {pkt : NetworkPacket}
  {pkts : List NetworkPacket} {axiDriver : AxiReads} {bytes : Nat}

theorem filled_toNat (inside : pkt.currentOffset.toNat + bytes ≤ pkt.payloadLength.toNat) :
    (pkt.filled bytes).currentOffset.toNat = pkt.currentOffset.toNat + bytes := by
  have bound := pkt.payloadLength.isLt
  show (pkt.currentOffset + BitVec.ofNat 32 bytes).toNat = _
  rw [BitVec.toNat_add, BitVec.toNat_ofNat, Nat.add_mod_mod, Nat.mod_eq_of_lt (by omega)]

/-- A packet waits for a beat that was returned, and gets all that is left of its read. -/
theorem Moves.front (moves : no.Moves params (planned :: rest) requested) :
    ∃ pkt pkts, no.dmaPktInFlight = pkt :: pkts ∧
      carry (· + ·) pkt.currentOffset.toNat (bytesLeft (planned :: (rest ++ requested))) =
        pkt.payloadLength.toNat :: pkts.map fun pkt => pkt.payloadLength.toNat := by
  have reads := moves.reads
  rw [List.cons_append] at reads
  cases inFlight : no.dmaPktInFlight with
  | nil =>
    rw [inFlight] at reads
    exact absurd (totals_eq_nil.mp (carry_eq_nil.mp reads)) (List.cons_ne_nil _ _)
  | cons pkt pkts =>
    rw [inFlight] at reads
    exact ⟨pkt, pkts, rfl, reads⟩

/-- The last beat of a read makes its packet complete. -/
theorem Moves.complete (moves : no.Moves params (planned :: rest) requested)
    (serves : Serves (fun _ _ => True) axiDriver rest requested)
    (inFlight : no.dmaPktInFlight = pkt :: pkts)
    (reads : carry (· + ·) pkt.currentOffset.toNat (bytesLeft (planned :: (rest ++ requested))) =
      pkt.payloadLength.toNat :: pkts.map fun pkt => pkt.payloadLength.toNat)
    (last : planned.readLast = true) :
    (pkt.filled planned.size).currentOffset = pkt.payloadLength ∧
      Moves params { no with
        axiDriver := axiDriver
        networkQueue := no.networkQueue ++ [pkt.filled planned.size], dmaPktInFlight := pkts }
        rest requested := by
  have waiting := moves.waiting
  have inOrder := moves.inOrder
  rw [inFlight] at waiting inOrder
  rw [bytesLeft, carry_last _ last] at reads
  obtain ⟨all, later⟩ := List.cons.inj reads
  have none_ : headOffset pkts = 0 := headOffset_fresh waiting
  constructor
  · rw [← BitVec.toNat_inj, filled_toNat (Nat.le_of_eq all)]
    exact all
  · refine ⟨serves, ?_, ?_, moves.cutting, ?_, moves.answers⟩
    · show carry (· + ·) (headOffset pkts) _ = _
      rw [none_, carry_identity]
      exact later
    · exact fun later member => waiting later (List.mem_of_mem_tail member)
    · rw [← inOrder]
      simp

/-- Any other beat leaves its packet at the front. -/
theorem Moves.fill (moves : no.Moves params (planned :: rest) requested)
    (serves : Serves (fun _ _ => True) axiDriver rest requested)
    (inFlight : no.dmaPktInFlight = pkt :: pkts)
    (reads : carry (· + ·) pkt.currentOffset.toNat (bytesLeft (planned :: (rest ++ requested))) =
      pkt.payloadLength.toNat :: pkts.map fun pkt => pkt.payloadLength.toNat)
    (more : planned.readLast = false) :
    Moves params { no with
      axiDriver := axiDriver, dmaPktInFlight := pkt.filled planned.size :: pkts } rest requested := by
  have waiting := moves.waiting
  have inOrder := moves.inOrder
  have whole : Whole (planned :: (rest ++ requested)) := moves.serves.whole
  obtain ⟨total, totals', same⟩ := whole.closed.later (· + ·) PlannedBeat.size more
  rw [inFlight] at waiting inOrder
  rw [bytesLeft, carry_more _ whole.closed more] at reads
  have inside : pkt.currentOffset.toNat + planned.size ≤ pkt.payloadLength.toNat := by
    rw [same] at reads
    have first : pkt.currentOffset.toNat + planned.size + total = pkt.payloadLength.toNat :=
      (List.cons.inj reads).1
    omega
  refine ⟨serves, ?_, waiting, moves.cutting, ?_, moves.answers⟩
  · show carry (· + ·) (pkt.filled planned.size).currentOffset.toNat _ = _
    rw [filled_toNat inside]
    exact reads
  · rw [← inOrder]
    simp

end Front

/-- A beat that is consumed goes to the packet at the front, which has all its bytes with the last
    one. -/
theorem Moves.respond (moves : no.Moves params buffered requested) :
    ∃ no' buffered', no.progressAxiReadResponses = some no' ∧
      no'.Moves params buffered' requested ∧ no'.accepted = no.accepted := by
  rw [progressAxiReadResponses]
  cases idle : no.axiDriver.rQueue.isEmpty with
  | true => exact ⟨no, buffered, rfl, moves, rfl⟩
  | false =>
    have arrived : no.axiDriver.rQueue ≠ [] := by
      rwa [← List.isEmpty_eq_false_iff]
    -- the driver hands out the first beat that was planned, cut to the bytes it was planned for
    obtain ⟨axiDriver, planned, data, rest, rfl, -, consumed, serves, -⟩ :=
      moves.serves.consumeRBeat arrived axiSw
    obtain ⟨pkt, pkts, inFlight, reads⟩ := moves.front
    have size : planned.size ≤ axiSw := Whole.size_le moves.serves.whole
    have bytes : ((List.range (min axiSw planned.size)).map data).length = planned.size := by
      rw [List.length_map, List.length_range, Nat.min_eq_right size]
    simp only [inFlight, consumed, Option.bind_eq_bind, Option.bind_some, bytes]
    cases last : planned.readLast with
    | true =>
      obtain ⟨complete, moves'⟩ := moves.complete serves inFlight reads last
      exact ⟨_, rest, if_pos complete, moves', rfl⟩
    | false =>
      exact ⟨_, rest, rfl, moves.fill serves inFlight reads last, rfl⟩

/-- The packet that leaves is the oldest one, and the last one of a command is its answer. -/
theorem Moves.progressNetqueue (moves : no.Moves params buffered requested) :
    (no.progressNetqueue params).Moves params buffered requested := by
  obtain ⟨serves, reads, waiting, cutting, inOrder, answers⟩ := moves
  rw [NicOutbound.progressNetqueue]
  dsimp only
  -- no packet leaves while the one before it is on the wire
  split
  · exact ⟨serves, reads, waiting, cutting, inOrder, answers⟩
  · cases queue : no.networkQueue with
    | nil =>
      rw [queue] at inOrder
      exact ⟨serves, reads, waiting, cutting, inOrder, answers⟩
    | cons pkt networkQueue =>
      rw [queue] at inOrder
      refine ⟨serves, reads, waiting, cutting, ?_, ?_⟩
      · rw [← inOrder]
        simp
      · rw [List.filter_append, List.map_append, ← answers]
        cases last : pkt.isLast <;> simp [last]

/-- A command that is accepted gets the next number. -/
theorem Moves.handleCmdPosedge (moves : no.Moves params buffered requested) {inp : NicOutboundIn}
    (valid : inp.Valid params) : ∃ no', no.handleCmdPosedge params inp.cmdReq = some no' ∧
      no'.Moves params buffered requested := by
  rw [NicOutboundIn.Valid] at valid
  cases cmdReq : inp.cmdReq with
  | none => exact ⟨no, rfl, moves⟩
  | some req =>
    obtain ⟨sourceAddr, length, fid, cmdId⟩ := req
    obtain ⟨positive, single⟩ := valid _ cmdReq
    rw [NicOutbound.handleCmdPosedge]
    dsimp only
    split
    · rw [if_neg (fun long => absurd long.2 (BitVec.not_lt.mpr (single long.1)))]
      refine ⟨_, rfl, moves.serves, moves.reads, moves.waiting, ?_, moves.inOrder, moves.answers⟩
      exact moves.cutting.accept (BitVec.lt_def.mp positive) single rfl
    · exact ⟨no, rfl, moves⟩

/-- A packet is made with a read for its bytes, behind those of the packets before it. -/
theorem Moves.progressPackets (moves : no.Moves params buffered requested)
    (room : 32 < params.maxPktLength.toNat) : ∃ no' requested',
      no.progressPackets params = some no' ∧ no'.Moves params buffered requested' ∧
        no'.accepted = no.accepted := by
  rw [NicOutbound.progressPackets]
  split
  next goes =>
    obtain ⟨cmd, commands, queue⟩ := List.exists_cons_of_ne_nil goes.1
    have cutting := moves.cutting
    rw [queue] at cutting
    obtain ⟨pkt, commands', taken, piece, cutting'⟩ := cutting.next room
    obtain ⟨axiDriver, issued, serves, -⟩ :=
      moves.serves.read (pkt.sourceAddr.setWidth 32 : Word).toNat piece.some_
    rw [queue]
    simp only [taken, issued, Option.bind_eq_bind, Option.bind_some]
    refine ⟨_, _, rfl, ⟨serves, ?_, ?_, cutting', ?_, moves.answers⟩, rfl⟩
    -- the reads so far end with their packets, so that the new one begins behind them
    · have closed : Closed PlannedBeat.readLast (buffered ++ requested) := moves.serves.whole.closed
      have fresh : bytesLeft (buffered ++ requested) = [] →
          ∀ total, headOffset no.dmaPktInFlight + total = total := by
        intro idle total
        have reads := moves.reads
        rw [idle] at reads
        rw [List.map_eq_nil_iff.mp reads.symm]
        exact Nat.zero_add total
      show carry (· + ·) (headOffset (no.dmaPktInFlight ++ [pkt])) _ = List.map _ (_ ++ [pkt])
      rw [headOffset_concat piece.fresh, ← List.append_assoc, bytesLeft_append closed,
        bytesLeft_readPlan piece.some_, carry_append fresh, moves.reads, List.map_append]
      rfl
    -- only the packet at the front can have bytes yet
    · have waiting := moves.waiting
      intro later member
      cases inFlight : no.dmaPktInFlight with
      | nil =>
        rw [inFlight] at member
        cases member
      | cons first others =>
        rw [inFlight] at waiting member
        rcases List.mem_append.mp member with before | new
        · exact waiting later before
        · rw [List.mem_singleton.mp new]
          exact piece.fresh
    · rw [← moves.inOrder]
      simp [NetworkPacket.fresh, ← piece.fresh]
  next => exact ⟨no, requested, rfl, moves, rfl⟩

end Steps

/-! ## Packets that have left -/

section Answers

variable {params : NicOutboundParams} {no : NicOutbound} {buffered requested : List PlannedBeat}
  {cmd : NicCommand} {number : Nat} {pkts : List NetworkPacket}

/-- What a packet has of its bytes does not matter for what it carries. -/
theorem CutInto.fresh (cut : cmd.CutInto (pkts.map NetworkPacket.fresh)) : cmd.CutInto pkts := by
  obtain ⟨tiles, front, final, same, last, before⟩ := cut
  rw [List.map_map] at tiles
  obtain ⟨front', final', rfl, rfl, single⟩ := List.map_eq_append_iff.mp same
  obtain ⟨pkt, rfl, rfl⟩ := List.map_eq_singleton_iff.mp single
  refine ⟨tiles, front', pkt, rfl, last, fun pkt member => ?_⟩
  have isFresh : pkt.fresh ∈ front'.map NetworkPacket.fresh := List.mem_map_of_mem member
  exact before pkt.fresh isFresh

/-- The packets of a command that have left are followed by those that have not. -/
theorem Moves.packetsOf_eq (moves : no.Moves params buffered requested) (number : Nat) :
    no.packetsOf number = (no.sentOf number ++ (no.networkQueue ++ no.dmaPktInFlight).filter
      fun pkt => pkt.number = number).map NetworkPacket.fresh := by
  rw [packetsOf, sentOf, ← List.filter_append, ← moves.inOrder, List.append_assoc, List.filter_map]
  rfl

theorem Moves.responsesOf_eq (moves : no.Moves params buffered requested) (number : Nat) :
    no.responsesOf number =
      ((no.sentOf number).filter NetworkPacket.isLast).map fun pkt => (pkt.number, pkt.cmdId) := by
  rw [responsesOf, sentOf, moves.answers, List.filter_map, List.filter_filter, List.filter_filter]
  refine congrArg _ (List.filter_congr fun pkt _ => Bool.and_comm _ _)

/-- When all packets of a command have left, it is answered. -/
theorem Moves.answer (moves : no.Moves params buffered requested)
    (accepted : no.accepted[number]? = some cmd) (cut : cmd.CutInto (no.sentOf number)) :
    no.responsesOf number = [(number, cmd.cmdId)] := by
  obtain ⟨-, front, final, sent, last, before⟩ := cut
  have member : final ∈ no.sentOf number := sent ▸ List.mem_append_right _ List.mem_cons_self
  obtain ⟨left, isNumber⟩ := List.mem_filter.mp member
  have same : final.number = number := of_decide_eq_true isNumber
  have made : final.fresh ∈ no.packets := by
    rw [← moves.inOrder]
    exact List.mem_map_of_mem (List.mem_append_left _ (List.mem_append_left _ left))
  have frames := moves.cutting.frames final.fresh made cmd (same.symm ▸ accepted)
  have cmdId : final.cmdId = cmd.cmdId := frames.cmdId
  have none_ : front.filter NetworkPacket.isLast = [] :=
    List.filter_eq_nil_iff.mpr fun pkt member => by simp [before pkt member]
  rw [moves.responsesOf_eq, sent, List.filter_append, none_, List.nil_append,
    List.filter_cons_of_pos last, List.filter_nil, List.map_singleton, same, cmdId]

/-- Before its last packet has left, a command is not answered. -/
theorem Moves.noAnswer (moves : no.Moves params buffered requested)
    (more : ∀ pkt ∈ no.sentOf number, pkt.isLast = false) : no.responsesOf number = [] := by
  rw [moves.responsesOf_eq, List.filter_eq_nil_iff.mpr fun pkt member => by simp [more pkt member]]
  rfl

theorem Moves.answered (moves : no.Moves params buffered requested)
    (accepted : no.accepted[number]? = some cmd) :
    (cmd.CutInto (no.sentOf number) ∧ no.responsesOf number = [(number, cmd.cmdId)]) ∨
      ((∀ pkt ∈ no.sentOf number, pkt.isLast = false) ∧ no.responsesOf number = []) := by
  have made := moves.packetsOf_eq number
  -- a command is cut into all its packets or still has a rest
  rcases moves.cutting.cut number cmd accepted with ⟨-, all⟩ | ⟨rest, served, -, soFar, -⟩
  · have whole : cmd.CutInto (no.packetsOf number) := all
    rw [made] at whole
    have cut := CutInto.fresh whole
    rcases List.eq_nil_or_concat ((no.networkQueue ++ no.dmaPktInFlight).filter
      fun pkt => pkt.number = number) with none_ | ⟨front, final, later⟩
    · rw [none_, List.append_nil] at cut
      exact Or.inl ⟨cut, moves.answer accepted cut⟩
    · -- the last packet has not left, since it is behind the others
      rw [later, List.concat_eq_append, ← List.append_assoc] at cut
      obtain ⟨-, front', final', same, -, before⟩ := cut
      obtain ⟨rfl, -⟩ := List.append_inj' same rfl
      have more : ∀ pkt ∈ no.sentOf number, pkt.isLast = false := fun pkt member =>
        before pkt (List.mem_append_left _ member)
      exact Or.inr ⟨more, moves.noAnswer more⟩
  · have more : ∀ pkt ∈ no.sentOf number, pkt.isLast = false := by
      intro pkt member
      refine soFar.2 pkt.fresh ?_
      show pkt.fresh ∈ no.packetsOf number
      rw [made]
      exact List.mem_map_of_mem (List.mem_append_left _ member)
    exact Or.inr ⟨more, moves.noAnswer more⟩

theorem Moves.exact (moves : no.Moves params buffered requested) : no.Exact params where
  cut number cmd accepted := by
    rcases moves.cutting.cut number cmd accepted with all | ⟨rest, served, single, soFar, left⟩
    · exact Or.inl all
    · have waits : rest ∈ no.commands :=
        List.mem_of_mem_filter (single ▸ List.mem_cons_self)
      have some_ := (moves.cutting.fits rest waits).1
      have length := left.length
      exact Or.inr ⟨rest, served, single, by omega, soFar⟩
  frames pkt member := by
    have known := List.getElem?_eq_getElem (moves.cutting.packetsKnown pkt member)
    exact ⟨_, known, moves.cutting.frames pkt member _ known⟩
  inOrder := by
    rw [← moves.inOrder, List.append_assoc, List.map_append]
    exact List.prefix_append _ _
  answered number cmd accepted := moves.answered accepted
  done idle number cmd accepted := by
    -- nothing is left, so that every packet made was sent
    rcases moves.cutting.cut number cmd accepted with ⟨-, all⟩ | ⟨rest, served, single, -⟩
    · have made := moves.packetsOf_eq number
      rw [idle.networkQueue, idle.dmaPktInFlight, List.append_nil, List.filter_nil,
        List.append_nil] at made
      have whole : cmd.CutInto (no.packetsOf number) := all
      rw [made] at whole
      exact moves.answer accepted (CutInto.fresh whole)
    · rw [idle.commands] at single
      cases single

end Answers

end NicOutbound

end Pspin
