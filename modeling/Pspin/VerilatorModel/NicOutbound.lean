import Pspin.Clocked.Fallible
import Pspin.VerilatorModel.AxiMasterRead

/-! # Packets to the network

`NICOutbound` cuts commands into packets.  Its packetizer takes a piece off the oldest command and
puts the rest of it behind the others; the piece is read from memory through the AXI master, and
packets leave in the order of their reads.  A command is answered when its last packet leaves.

Commands are numbered as they are accepted, and packets know the number of their command.  The
bytes of a packet are not used.
-/

namespace Pspin

open Clocked

/-- `RDMA_HEADER_LENGTH` -/
def rdmaHeaderLength : Word := 32

/-- `NUM_PARALLEL_CMD` -/
def numParallelCmd : Nat := 16

/-- `WORD_SIZE` -/
def wordSize : Nat := 64

/-- `NICCommand`, with its number -/
structure NicCommand where
  sourceAddr : BitVec 64
  length : Word
  fid : Word
  cmdId : BitVec 8
  number : Nat
deriving DecidableEq

/-- `NetworkPacket`, with the number of its command -/
structure NetworkPacket where
  sourceAddr : BitVec 64
  currentOffset : Word
  length : Word
  payloadLength : Word
  cmdId : BitVec 8
  isLast : Bool
  number : Nat
deriving DecidableEq

/-- What `NICOutbound` is built with; `gap` is `network_G * WORD_SIZE`. -/
structure NicOutboundParams where
  gap : Nat
  maxPktLength : Word
  networkBufferSize : Nat

/-- The header of the packets of a command: `fid` tells RDMA. -/
def NicCommand.headerLength (cmd : NicCommand) : Word := if cmd.fid = 0 then 0 else rdmaHeaderLength

/-- The packetizer, the queues of packets and the AXI master.  Below them, what is only recorded:
    the commands accepted, the packets made and sent, and the responses. -/
structure NicOutbound where
  axiDriver : AxiReads
  commands : List NicCommand
  dmaPktInFlight : List NetworkPacket
  networkQueue : List NetworkPacket
  waitCycles : Nat
  accepted : List NicCommand
  packets : List NetworkPacket
  sent : List NetworkPacket
  responses : List (Nat × BitVec 8)

/-- What a cycle depends on: what the memory returns, whether it takes a burst, and the command that
    is offered. -/
structure NicOutboundIn where
  rData : Option (Nat → BitVec 8)
  arReady : Bool
  cmdReq : Option (BitVec 64 × Word × Word × BitVec 8)

namespace NicOutbound

def reset : NicOutbound := ⟨.reset, [], [], [], 0, [], [], [], []⟩

variable (params : NicOutboundParams) (no : NicOutbound)

/-- `Packetizer::get_next_packet`, unless an assertion fails. -/
def getNextPacket : List NicCommand → Option (NetworkPacket × List NicCommand)
  | [] => none
  | cmd :: commands =>
    if cmd.fid = 0 ∧ params.maxPktLength < cmd.length then none
    else
      let headerLength := cmd.headerLength
      let payloadlen :=
        if cmd.length < params.maxPktLength - headerLength then cmd.length
        else params.maxPktLength - headerLength
      let pkt : NetworkPacket :=
        { sourceAddr := cmd.sourceAddr
          currentOffset := 0
          length := headerLength + payloadlen
          payloadLength := payloadlen
          cmdId := cmd.cmdId
          isLast := decide (cmd.length - payloadlen = 0)
          number := cmd.number }
      let cmd := { cmd with
        length := cmd.length - payloadlen
        sourceAddr := cmd.sourceAddr + payloadlen.setWidth 64 }
      some (pkt, if 0 < cmd.length then commands ++ [cmd] else commands)

/-- `handle_cmd_posedge`, unless an assertion fails. -/
def handleCmdPosedge (cmdReq : Option (BitVec 64 × Word × Word × BitVec 8)) : Option NicOutbound :=
  match cmdReq with
  | none => some no
  | some (sourceAddr, length, fid, cmdId) =>
    if no.commands.length < numParallelCmd then
      if fid = 0 ∧ params.maxPktLength < length then none
      else
        let cmd : NicCommand := ⟨sourceAddr, length, fid, cmdId, no.accepted.length⟩
        some { no with commands := no.commands ++ [cmd], accepted := no.accepted ++ [cmd] }
    else some no

/-- `progress_packets`, unless an assertion fails. -/
def progressPackets : Option NicOutbound :=
  if no.commands ≠ [] ∧
      no.networkQueue.length + no.dmaPktInFlight.length < params.networkBufferSize then do
    let (pkt, commands) ← getNextPacket params no.commands
    let axiDriver ← no.axiDriver.read (pkt.sourceAddr.setWidth 32 : Word).toNat pkt.payloadLength
    some { no with
      axiDriver := axiDriver, commands := commands
      dmaPktInFlight := no.dmaPktInFlight ++ [pkt], packets := no.packets ++ [pkt] }
  else some no

/-- `progress_netqueue` -/
def progressNetqueue : NicOutbound :=
  let waitCycles := no.waitCycles - 1
  let no := { no with waitCycles := waitCycles }
  if waitCycles > 0 then no
  else
    match no.networkQueue with
    | [] => no
    | pkt :: networkQueue =>
      { no with
        networkQueue := networkQueue
        waitCycles := params.gap * (pkt.length.toNat / wordSize) % 2 ^ 32
        sent := no.sent ++ [pkt]
        responses := if pkt.isLast then no.responses ++ [(pkt.number, pkt.cmdId)] else no.responses }

/-- `progress_axi_read_responses`, unless an assertion fails. -/
def progressAxiReadResponses : Option NicOutbound :=
  if no.axiDriver.rQueue.isEmpty then some no
  else
    match no.dmaPktInFlight with
    | [] => none
    | pkt :: dmaPktInFlight => do
      let (axiDriver, data, readComplete) ← no.axiDriver.consumeRBeat axiSw
      let pkt := { pkt with currentOffset := pkt.currentOffset + BitVec.ofNat 32 data.length }
      if readComplete then
        if pkt.currentOffset = pkt.payloadLength then
          some { no with
            axiDriver := axiDriver
            networkQueue := no.networkQueue ++ [pkt], dmaPktInFlight := dmaPktInFlight }
        else none
      else some { no with axiDriver := axiDriver, dmaPktInFlight := pkt :: dmaPktInFlight }

/-- `posedge` and `negedge` -/
def cycle (inp : NicOutboundIn) : Option NicOutbound := do
  let axiDriver ← no.axiDriver.sendArBeat.arPosedge.rPosedge inp.rData
  let no ← progressAxiReadResponses { no with axiDriver := axiDriver }
  let no ← (no.progressNetqueue params).handleCmdPosedge params inp.cmdReq
  let no ← no.progressPackets params
  some { no with axiDriver := no.axiDriver.arNegedge inp.arReady }

end NicOutbound

/-- The outbound engine, until an assertion fails. -/
def nicOutbound (params : NicOutboundParams) : Machine (Option NicOutbound) NicOutboundIn :=
  Machine.failing NicOutbound.reset fun no inp => no.cycle params inp

/-- A command of some bytes, and of at most one packet unless it is RDMA. -/
def NicOutboundIn.Valid (params : NicOutboundParams) (inp : NicOutboundIn) : Prop :=
  ∀ req ∈ inp.cmdReq, 0 < req.2.1 ∧ (req.2.2.1 = 0 → req.2.1 ≤ params.maxPktLength)

theorem NicOutboundIn.valid_of_none {params : NicOutboundParams} {inp : NicOutboundIn}
    (quiet : inp.cmdReq = none) : inp.Valid params := by
  intro req isReq
  rw [quiet] at isReq
  cases isReq

/-! ## What packets a command is cut into -/

/-- The bytes of a command that a packet carries, from the first byte of the command on. -/
def NicCommand.regionOf (cmd : NicCommand) (pkt : NetworkPacket) : Region :=
  ⟨(pkt.sourceAddr - cmd.sourceAddr).toNat, pkt.payloadLength.toNat⟩

/-- The packets carry the first bytes of the command and none is its last. -/
def NicCommand.CutSoFar (cmd : NicCommand) (pkts : List NetworkPacket) (served : Nat) : Prop :=
  Tiles 0 (pkts.map cmd.regionOf) served ∧ ∀ pkt ∈ pkts, pkt.isLast = false

/-- The packets carry all bytes of the command and the final one is its last. -/
def NicCommand.CutInto (cmd : NicCommand) (pkts : List NetworkPacket) : Prop :=
  Tiles 0 (pkts.map cmd.regionOf) cmd.length.toNat ∧
    ∃ front final, pkts = front ++ [final] ∧ final.isLast = true ∧ ∀ pkt ∈ front, pkt.isLast = false

/-- A packet has the header and the answer of its command, and is not too long. -/
structure NicCommand.Frames (cmd : NicCommand) (params : NicOutboundParams) (pkt : NetworkPacket) :
    Prop where
  length : pkt.length.toNat = cmd.headerLength.toNat + pkt.payloadLength.toNat
  small : pkt.length.toNat ≤ params.maxPktLength.toNat
  some_ : 0 < pkt.payloadLength.toNat
  cmdId : pkt.cmdId = cmd.cmdId

namespace NicOutbound

variable (no : NicOutbound)

def packetsOf (number : Nat) : List NetworkPacket :=
  no.packets.filter fun pkt => pkt.number = number

def commandsOf (number : Nat) : List NicCommand :=
  no.commands.filter fun cmd => cmd.number = number

def sentOf (number : Nat) : List NetworkPacket :=
  no.sent.filter fun pkt => pkt.number = number

end NicOutbound

/-- What is left of a command when some of its bytes are cut off. -/
structure NicCommand.Rest (cmd : NicCommand) (served : Nat) (rest : NicCommand) : Prop where
  length : served + rest.length.toNat = cmd.length.toNat
  sourceAddr : rest.sourceAddr = cmd.sourceAddr + BitVec.ofNat 64 served
  fid : rest.fid = cmd.fid
  cmdId : rest.cmdId = cmd.cmdId

/-- Every command is cut into all its packets, or what is left of it waits. -/
structure Cutting (params : NicOutboundParams) (commands accepted : List NicCommand)
    (packets : List NetworkPacket) : Prop where
  cut : ∀ number cmd, accepted[number]? = some cmd →
    (commands.filter (fun cmd => cmd.number = number) = [] ∧
      cmd.CutInto (packets.filter fun pkt => pkt.number = number)) ∨
    ∃ rest served, commands.filter (fun cmd => cmd.number = number) = [rest] ∧
      cmd.CutSoFar (packets.filter fun pkt => pkt.number = number) served ∧ cmd.Rest served rest
  commandsKnown : ∀ cmd ∈ commands, cmd.number < accepted.length
  packetsKnown : ∀ pkt ∈ packets, pkt.number < accepted.length
  frames : ∀ pkt ∈ packets, ∀ cmd, accepted[pkt.number]? = some cmd → cmd.Frames params pkt
  fits : ∀ cmd ∈ commands, 0 < cmd.length.toNat ∧ (cmd.fid = 0 → cmd.length ≤ params.maxPktLength)

section Packetizer

variable {params : NicOutboundParams} {commands accepted : List NicCommand}
  {packets : List NetworkPacket} {cmd : NicCommand} {served : Nat} {pkt : NetworkPacket}

theorem headerLength_le (cmd : NicCommand) : cmd.headerLength.toNat ≤ 32 := by
  rw [NicCommand.headerLength]
  split <;> decide

/-- A packet of the next bytes of a command: as many as fit behind the header. -/
structure Piece (params : NicOutboundParams) (cmd : NicCommand) (pkt : NetworkPacket) : Prop where
  sourceAddr : pkt.sourceAddr = cmd.sourceAddr
  fresh : pkt.currentOffset = 0
  some_ : 0 < pkt.payloadLength.toNat
  inside : pkt.payloadLength.toNat ≤ cmd.length.toNat
  length : pkt.length.toNat = cmd.headerLength.toNat + pkt.payloadLength.toNat
  small : pkt.length.toNat ≤ params.maxPktLength.toNat
  isLast : pkt.isLast = true ↔ pkt.payloadLength.toNat = cmd.length.toNat
  cmdId : pkt.cmdId = cmd.cmdId
  number : pkt.number = cmd.number

/-- What a packet leaves of its command. -/
def NicCommand.without (cmd : NicCommand) (pkt : NetworkPacket) : NicCommand :=
  { cmd with
    length := cmd.length - pkt.payloadLength
    sourceAddr := cmd.sourceAddr + pkt.payloadLength.setWidth 64 }

theorem getNextPacket_eq (room : 32 < params.maxPktLength.toNat) (positive : 0 < cmd.length.toNat)
    (single : cmd.fid = 0 → cmd.length ≤ params.maxPktLength) (commands : List NicCommand) :
    ∃ pkt, Piece params cmd pkt ∧ NicOutbound.getNextPacket params (cmd :: commands) = some (pkt,
      if pkt.isLast = true then commands else commands ++ [cmd.without pkt]) := by
  have header := headerLength_le cmd
  have room' : (params.maxPktLength - cmd.headerLength).toNat =
      params.maxPktLength.toNat - cmd.headerLength.toNat :=
    BitVec.toNat_sub_of_le (BitVec.le_def.mpr (by omega))
  have allowed : ¬(cmd.fid = 0 ∧ params.maxPktLength < cmd.length) := by
    rintro ⟨noRdma, long⟩
    exact absurd long (BitVec.not_lt.mpr (single noRdma))
  -- the smaller of what is left and what fits behind the header
  obtain ⟨payload, isPayload⟩ : ∃ payload, payload =
      if cmd.length < params.maxPktLength - cmd.headerLength then cmd.length
      else params.maxPktLength - cmd.headerLength := ⟨_, rfl⟩
  have bytes : 0 < payload.toNat ∧ payload.toNat ≤ cmd.length.toNat ∧
      cmd.headerLength.toNat + payload.toNat ≤ params.maxPktLength.toNat := by
    rw [isPayload]
    split
    next less =>
      have below := BitVec.lt_def.mp less
      exact ⟨positive, le_rfl, by omega⟩
    next less =>
      have above := BitVec.le_def.mp (BitVec.not_lt.mp less)
      exact ⟨by omega, above, by omega⟩
  obtain ⟨some_, inside, small⟩ := bytes
  have whole : (cmd.headerLength + payload).toNat = cmd.headerLength.toNat + payload.toNat := by
    have bound := params.maxPktLength.isLt
    rw [BitVec.toNat_add, Nat.mod_eq_of_lt (by omega)]
  have left : (cmd.length - payload).toNat = cmd.length.toNat - payload.toNat :=
    BitVec.toNat_sub_of_le (BitVec.le_def.mpr inside)
  have ends : cmd.length - payload = 0 ↔ payload.toNat = cmd.length.toNat := by
    rw [← BitVec.toNat_inj, left]
    show cmd.length.toNat - payload.toNat = 0 ↔ _
    omega
  refine ⟨⟨cmd.sourceAddr, 0, cmd.headerLength + payload, payload, cmd.cmdId,
    decide (cmd.length - payload = 0), cmd.number⟩, ⟨rfl, rfl, some_, inside, whole, whole ▸ small,
      decide_eq_true_iff.trans ends, rfl, rfl⟩, ?_⟩
  have goesOn : 0 < cmd.length - payload ↔ ¬cmd.length - payload = 0 := by
    rw [BitVec.lt_def, ← BitVec.toNat_inj]
    exact Nat.pos_iff_ne_zero
  rw [NicOutbound.getNextPacket, if_neg allowed]
  simp only [← isPayload, goesOn, decide_eq_true_eq, ite_not]
  rfl

section Numbers

variable {α : Type*} {numberOf : α → Nat} {item : α} {items : List α} {number : Nat}

theorem filter_number_append_same (same : numberOf item = number) :
    (items ++ [item]).filter (fun item => numberOf item = number) =
      items.filter (fun item => numberOf item = number) ++ [item] := by
  rw [List.filter_append, List.filter_cons_of_pos (by simpa using same), List.filter_nil]

theorem filter_number_append_other (other : numberOf item ≠ number) :
    (items ++ [item]).filter (fun item => numberOf item = number) =
      items.filter (fun item => numberOf item = number) := by
  rw [List.filter_append, List.filter_cons_of_neg (by simpa using other), List.filter_nil,
    List.append_nil]

theorem filter_number_unknown {bound : Nat} (known : ∀ item ∈ items, numberOf item < bound) :
    items.filter (fun item => numberOf item = bound) = [] := by
  refine List.filter_eq_nil_iff.mpr fun item member => ?_
  have other := (known item member).ne
  simpa using other

end Numbers

/-- A new command has all its bytes left. -/
theorem Cutting.accept (cutting : Cutting params commands accepted packets)
    (positive : 0 < cmd.length.toNat) (single : cmd.fid = 0 → cmd.length ≤ params.maxPktLength)
    (numbered : cmd.number = accepted.length) :
    Cutting params (commands ++ [cmd]) (accepted ++ [cmd]) packets := by
  obtain ⟨cut, commandsKnown, packetsKnown, frames, fits⟩ := cutting
  have longer : accepted.length < (accepted ++ [cmd]).length := by
    rw [List.length_append]
    exact Nat.lt_succ_self _
  have before (number : Nat) (known : number < accepted.length) :
      (accepted ++ [cmd])[number]? = accepted[number]? := List.getElem?_append_left known
  refine ⟨fun number other isOther => ?_, List.forall_mem_append.mpr ⟨fun cmd member =>
      (commandsKnown cmd member).trans longer, List.forall_mem_singleton.mpr (numbered ▸ longer)⟩,
    fun pkt member => (packetsKnown pkt member).trans longer, fun pkt member other isOther => ?_,
    List.forall_mem_append.mpr ⟨fits, List.forall_mem_singleton.mpr ⟨positive, single⟩⟩⟩
  · by_cases known : number < accepted.length
    · have unrelated : cmd.number ≠ number := by omega
      rw [filter_number_append_other unrelated]
      exact cut number other (before number known ▸ isOther)
    · obtain ⟨isNew, rfl⟩ : number = accepted.length ∧ cmd = other := by
        rw [List.getElem?_append_right (Nat.not_lt.mp known), List.getElem?_singleton] at isOther
        split at isOther
        next first => exact ⟨by omega, Option.some.inj isOther⟩
        next => cases isOther
      right
      refine ⟨cmd, 0, ?_, ?_, Nat.zero_add _, ?_, rfl, rfl⟩
      · rw [filter_number_append_same (numbered.trans isNew.symm), isNew,
          filter_number_unknown commandsKnown]
        rfl
      · rw [isNew, filter_number_unknown packetsKnown]
        exact ⟨rfl, fun _ none_ => absurd none_ List.not_mem_nil⟩
      · exact (BitVec.add_zero _).symm
  · rw [before _ (packetsKnown pkt member)] at isOther
    exact frames pkt member other isOther

/-- The oldest command is what is left of the one with its number. -/
theorem Cutting.oldest (cutting : Cutting params (cmd :: commands) accepted packets) :
    ∃ orig served, accepted[cmd.number]? = some orig ∧ orig.Rest served cmd ∧
      orig.CutSoFar (packets.filter fun pkt => pkt.number = cmd.number) served ∧
        commands.filter (fun other => other.number = cmd.number) = [] := by
  have known := cutting.commandsKnown cmd List.mem_cons_self
  have here : (cmd :: commands).filter (fun other => other.number = cmd.number) =
      cmd :: commands.filter fun other => other.number = cmd.number :=
    List.filter_cons_of_pos (by simp)
  refine ⟨accepted[cmd.number], ?_⟩
  have isOrig : accepted[cmd.number]? = some accepted[cmd.number] := List.getElem?_eq_getElem known
  rcases cutting.cut cmd.number _ isOrig with ⟨none_, -⟩ | ⟨rest, served, single, cut, left⟩
  · rw [here] at none_
    cases none_
  · rw [here] at single
    obtain ⟨rfl, others⟩ := List.cons.inj single
    exact ⟨served, isOrig, left, cut, others⟩

section Pieces

variable {orig : NicCommand} {pkts : List NetworkPacket}

/-- A packet of the bytes that are next follows the others. -/
theorem CutSoFar.piece (cut : orig.CutSoFar pkts served) (rest : orig.Rest served cmd)
    (piece : Piece params cmd pkt) :
    Tiles 0 ((pkts ++ [pkt]).map orig.regionOf) (served + pkt.payloadLength.toNat) := by
  have start : (pkt.sourceAddr - orig.sourceAddr).toNat = served := by
    have small : served < 2 ^ 64 := by
      have length := rest.length
      have bound := orig.length.isLt
      omega
    rw [piece.sourceAddr, rest.sourceAddr, BitVec.add_comm, BitVec.add_sub_cancel,
      BitVec.toNat_ofNat, Nat.mod_eq_of_lt small]
  have region : orig.regionOf pkt = ⟨served, pkt.payloadLength.toNat⟩ := by
    rw [NicCommand.regionOf, start]
  rw [List.map_append, List.map_singleton, region]
  exact cut.1.concat rfl

/-- The last packet ends the command. -/
theorem CutSoFar.finish (cut : orig.CutSoFar pkts served) (rest : orig.Rest served cmd)
    (piece : Piece params cmd pkt) (last : pkt.isLast = true) : orig.CutInto (pkts ++ [pkt]) := by
  have tiles := CutSoFar.piece cut rest piece
  rw [piece.isLast.mp last, rest.length] at tiles
  exact ⟨tiles, pkts, pkt, rfl, last, cut.2⟩

/-- Any other packet leaves a rest. -/
theorem CutSoFar.goOn (cut : orig.CutSoFar pkts served) (rest : orig.Rest served cmd)
    (piece : Piece params cmd pkt) (more : pkt.isLast = false) :
    orig.CutSoFar (pkts ++ [pkt]) (served + pkt.payloadLength.toNat) ∧
      orig.Rest (served + pkt.payloadLength.toNat) (cmd.without pkt) ∧
        0 < (cmd.without pkt).length.toNat := by
  have inside := piece.inside
  have notAll : pkt.payloadLength.toNat ≠ cmd.length.toNat := by
    intro all
    rw [piece.isLast.mpr all] at more
    cases more
  have left : (cmd.without pkt).length.toNat = cmd.length.toNat - pkt.payloadLength.toNat :=
    BitVec.toNat_sub_of_le (BitVec.le_def.mpr inside)
  have length := rest.length
  refine ⟨⟨CutSoFar.piece cut rest piece, List.forall_mem_append.mpr ⟨cut.2,
    List.forall_mem_singleton.mpr more⟩⟩, ⟨by omega, ?_, rest.fid, rest.cmdId⟩, by omega⟩
  show cmd.sourceAddr + pkt.payloadLength.setWidth 64 = _
  rw [rest.sourceAddr, BitVec.ofNat_add, BitVec.add_assoc, BitVec.ofNat_toNat]

theorem Piece.frames (piece : Piece params cmd pkt) (rest : orig.Rest served cmd) :
    orig.Frames params pkt := by
  refine ⟨?_, piece.small, piece.some_, piece.cmdId.trans rest.cmdId⟩
  rw [piece.length, NicCommand.headerLength, NicCommand.headerLength, rest.fid]

end Pieces

/-- A packet takes the next bytes of its command, and what is left goes behind the other commands. -/
theorem Cutting.next (cutting : Cutting params (cmd :: commands) accepted packets)
    (room : 32 < params.maxPktLength.toNat) : ∃ pkt commands',
      NicOutbound.getNextPacket params (cmd :: commands) = some (pkt, commands') ∧
        Piece params cmd pkt ∧ Cutting params commands' accepted (packets ++ [pkt]) := by
  obtain ⟨orig, served, isOrig, rest, soFar, alone⟩ := cutting.oldest
  obtain ⟨cut, commandsKnown, packetsKnown, frames, fits⟩ := cutting
  obtain ⟨⟨positive, single⟩, fitsRest⟩ := List.forall_mem_cons.mp fits
  obtain ⟨known, commandsKnown'⟩ := List.forall_mem_cons.mp commandsKnown
  obtain ⟨pkt, piece, taken⟩ := getNextPacket_eq room positive single commands
  have packetsKnown' : ∀ pkt' ∈ packets ++ [pkt], pkt'.number < accepted.length :=
    List.forall_mem_append.mpr ⟨packetsKnown, List.forall_mem_singleton.mpr (piece.number ▸ known)⟩
  have frames' : ∀ pkt' ∈ packets ++ [pkt], ∀ cmd, accepted[pkt'.number]? = some cmd →
      cmd.Frames params pkt' := by
    refine List.forall_mem_append.mpr ⟨frames, List.forall_mem_singleton.mpr fun other isOther => ?_⟩
    rw [piece.number, isOrig, Option.some.injEq] at isOther
    exact isOther ▸ piece.frames rest
  -- nothing changes for the other commands
  have others (number : Nat) (different : cmd.number ≠ number) :
      (cmd :: commands).filter (fun cmd => cmd.number = number) =
        commands.filter fun cmd => cmd.number = number :=
    List.filter_cons_of_neg (by simpa using different)
  cases last : pkt.isLast with
  | true =>
    rw [last, if_pos rfl] at taken
    refine ⟨pkt, _, taken, piece, fun number other isOther => ?_, commandsKnown', packetsKnown',
      frames', fitsRest⟩
    by_cases same : cmd.number = number
    · left
      subst same
      obtain rfl : orig = other := Option.some.inj (isOrig.symm.trans isOther)
      rw [filter_number_append_same piece.number]
      exact ⟨alone, CutSoFar.finish soFar rest piece last⟩
    · rw [filter_number_append_other (piece.number ▸ same), ← others number same]
      exact cut number other isOther
  | false =>
    obtain ⟨cut', rest', some_⟩ := CutSoFar.goOn soFar rest piece last
    rw [last, if_neg Bool.false_ne_true] at taken
    refine ⟨pkt, _, taken, piece, fun number other isOther => ?_,
      List.forall_mem_append.mpr ⟨commandsKnown', List.forall_mem_singleton.mpr known⟩, packetsKnown',
      frames', List.forall_mem_append.mpr ⟨fitsRest, List.forall_mem_singleton.mpr ⟨some_, ?_⟩⟩⟩
    -- what is left of the command is the same command, at the end of the queue
    · have sameNumber : (cmd.without pkt).number = cmd.number := rfl
      by_cases same : cmd.number = number
      · right
        subst same
        obtain rfl : orig = other := Option.some.inj (isOrig.symm.trans isOther)
        rw [filter_number_append_same sameNumber, alone, filter_number_append_same piece.number]
        exact ⟨_, _, rfl, cut', rest'⟩
      · rw [filter_number_append_other (sameNumber ▸ same),
          filter_number_append_other (piece.number ▸ same), ← others number same]
        exact cut number other isOther
    · intro noRdma
      have smaller : (cmd.without pkt).length.toNat ≤ cmd.length.toNat := by
        have lengths := rest'.length
        have before := rest.length
        omega
      exact BitVec.le_def.mpr (smaller.trans (BitVec.le_def.mp (single noRdma)))

end Packetizer

end Pspin
