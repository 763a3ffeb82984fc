import Pspin.Clocked.Bits
import Pspin.Clocked.Machine

/-! # The packet buffer of `NICInbound`

`NICInbound` gives the packets that arrive a place in the L2 packet buffer, used
as a ring: `allocate_pkt_space` grants at the tail, `free_pkt_space` parks a freed
packet until the head reaches it.  A packet that does not fit before the end of
the buffer is placed at its start; `cut_ptr` is where the head then goes back.

Pointers are 64 bits wide, offsets, sizes and the packet count 32 bits.
-/

namespace Pspin

open Clocked

/-- `NI_PKT_ADDR_ALIGNMENT` -/
def niPktAddrAlignment : Nat := 64

/-- The packet buffer lies in the 32-bit address space. -/
structure PktRingParams where
  l2PktBuffStart : Nat
  l2PktBuffSize : Nat
  size_lt : l2PktBuffSize < 2 ^ 32
  addressed : l2PktBuffStart + l2PktBuffSize ≤ 2 ^ 32

/-- The state of the ring; `freeReqQueue` maps an offset to a size. -/
structure PktRing where
  headPtr : Nat
  tailPtr : Nat
  cutPtr : Nat
  cut : Bool
  inFlightPackets : Nat
  freeReqQueue : List (Nat × Nat)
deriving DecidableEq, Repr

namespace PktRing

def reset : PktRing where
  headPtr := 0
  tailPtr := 0
  cutPtr := 0
  cut := false
  inFlightPackets := 0
  freeReqQueue := []

/-- The size in whole segments, in 32 bits. -/
def roundedSize (pktSize : Nat) : Nat :=
  let segments := (pktSize + niPktAddrAlignment - 1) % 2 ^ 32 / niPktAddrAlignment
  segments * niPktAddrAlignment % 2 ^ 32

variable (params : PktRingParams) (ring : PktRing)

/-- What is left from the tail to the end of the buffer. -/
def leftAtEnd : Nat := (params.l2PktBuffSize + 2 ^ 64 - ring.tailPtr) % 2 ^ 64

/-- The first part of `allocate_pkt_space`: the ring with its tail where there is
    place for the size, if there is any. -/
def place (size : Nat) : Option PktRing :=
  if ring.tailPtr > ring.headPtr ∨ (ring.tailPtr = ring.headPtr ∧ ring.inFlightPackets = 0) then
    if ring.leftAtEnd params ≥ size then some ring
    else if ring.headPtr ≥ size then
      some { ring with cutPtr := ring.tailPtr, cut := true, tailPtr := 0 }
    else none
  else if ring.headPtr > ring.tailPtr then
    if ring.headPtr - ring.tailPtr ≥ size then some ring else none
  else none

/-- The second part: the packet is placed at the tail. -/
def grant (size : Nat) : PktRing :=
  { ring with
    tailPtr := (ring.tailPtr + size) % 2 ^ 64
    inFlightPackets := (ring.inFlightPackets + 1) % 2 ^ 32 }

/-- The address at the tail. -/
def tailAddr : Nat := (params.l2PktBuffStart + ring.tailPtr) % 2 ^ 32

/-- `allocate_pkt_space`: the address of the packet, unless there is no place. -/
def allocatePktSpace (pktSize : Nat) : Option (Nat × PktRing) :=
  (ring.place params (roundedSize pktSize)).map fun placed =>
    (placed.tailAddr params, placed.grant (roundedSize pktSize))

/-- A parked packet at an offset. -/
def parkedAt (offset : Nat) : Option (Nat × Nat) :=
  ring.freeReqQueue.find? fun entry => entry.1 == offset

/-- The body of the loop in `free_pkt_space`: the head moves over a parked packet. -/
def advance (entry : Nat × Nat) : PktRing :=
  let headPtr := (ring.headPtr + entry.2) % 2 ^ 64
  let advanced := { ring with
    headPtr := headPtr
    inFlightPackets := (ring.inFlightPackets + 2 ^ 32 - 1) % 2 ^ 32
    freeReqQueue := ring.freeReqQueue.erase entry }
  if ring.cut && headPtr == ring.cutPtr then { advanced with headPtr := 0, cut := false }
  else advanced

/-- The loop, which takes one entry out of the map each time. -/
def reclaim : Nat → PktRing → PktRing
  | 0, ring => ring
  | fuel + 1, ring =>
    match ring.parkedAt (ring.headPtr % 2 ^ 32) with
    | none => ring
    | some entry => reclaim fuel (ring.advance entry)

/-- In a turn of the loop the packet count is decremented at zero. -/
def underflows : Nat → PktRing → Bool
  | 0, _ => false
  | fuel + 1, ring =>
    match ring.parkedAt (ring.headPtr % 2 ^ 32) with
    | none => false
    | some entry => ring.inFlightPackets == 0 || underflows fuel (ring.advance entry)

/-- The offset of an address in the buffer. -/
def offsetOf (addr : Nat) : Nat := (addr + 2 ^ 32 - params.l2PktBuffStart) % 2 ^ 32

def insertParked (offset size : Nat) : PktRing :=
  { ring with freeReqQueue := (offset, size) :: ring.freeReqQueue }

/-- The start of `free_pkt_space` with its two assertions: the packet is parked. -/
def park (addr pktSize : Nat) : Option PktRing :=
  if addr ≥ params.l2PktBuffStart ∧ (ring.parkedAt (offsetOf params addr)).isNone then
    some (ring.insertParked (offsetOf params addr) (roundedSize pktSize))
  else none

/-- `free_pkt_space`, unless an assertion fires. -/
def freePktSpace (addr pktSize : Nat) : Option PktRing :=
  (ring.park params addr pktSize).map fun parked => parked.reclaim parked.freeReqQueue.length

end PktRing

/-- A packet that has been given a place. -/
structure Pkt where
  addr : Nat
  size : BitVec 32
deriving DecidableEq, Repr

/-- The calls. -/
inductive PktRingIn where
  | allocate (pktSize : BitVec 32)
  | free (pkt : Pkt)
deriving DecidableEq, Repr

def PktRing.step (params : PktRingParams) (ring : PktRing) : PktRingIn → PktRing
  | .allocate pktSize =>
    match ring.allocatePktSpace params pktSize.toNat with
    | none => ring
    | some (_, granted) => granted
  | .free pkt =>
    match ring.freePktSpace params pkt.addr pkt.size.toNat with
    | none => ring
    | some freed => freed

def pktRing (params : PktRingParams) : Machine PktRing PktRingIn := ⟨PktRing.reset, PktRing.step params⟩

/-- The packets in the buffer that are not freed, whether an assertion fired and
    whether the packet count was decremented at zero. -/
structure PktHistory where
  live : List Pkt
  aborted : Bool
  underflowed : Bool
deriving DecidableEq, Repr

namespace PktHistory

def empty : PktHistory where
  live := []
  aborted := false
  underflowed := false

def record (params : PktRingParams) (ring : PktRing) (history : PktHistory) : PktRingIn → PktHistory
  | .allocate pktSize =>
    match ring.allocatePktSpace params pktSize.toNat with
    | none => history
    | some (addr, _) => { history with live := ⟨addr, pktSize⟩ :: history.live }
  | .free pkt =>
    match ring.park params pkt.addr pkt.size.toNat with
    | none => { history with aborted := true }
    | some parked =>
      { history with
        live := history.live.erase pkt
        underflowed := history.underflowed || parked.underflows parked.freeReqQueue.length }

end PktHistory

/-- The ring and its packets. -/
abbrev PktTrace := PktRing × PktHistory

def pktTrace (params : PktRingParams) : Machine PktTrace PktRingIn :=
  (pktRing params).observedBy PktHistory.empty (PktHistory.record params)

end Pspin
