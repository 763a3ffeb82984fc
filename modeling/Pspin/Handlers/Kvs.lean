import Pspin.Clocked.Machine
import Pspin.Handlers.Packets
import Pspin.Runtime.SpinCmd

/-! # The key-value store

`kvs_header_handler` and the CPU server that it mirrors.  The server handles every
datagram that is long enough for a request; on the NIC only the first packet of a
message has a handler, which reads a request whatever the length and never sends the
reply it prepares.
-/

namespace Pspin

open Clocked

def maxKeys : Nat := 1024

/-- `kvs_header` of the NIC, `kvs_req_t` of the server. -/
structure KvsReq where
  op : BitVec 32
  key : BitVec 32
  value : BitVec 32
deriving DecidableEq, Repr

def sizeofKvsReq : Nat := 12

def KvsReq.load (mem : ByteMem) (offset : Nat) : KvsReq where
  op := mem.load32 offset
  key := mem.load32 (offset + 4)
  value := mem.load32 (offset + 8)

abbrev KvStore := Vector (BitVec 32) maxKeys

/-! ## The server -/

def bufSize : Nat := 1024

/-- The core of the server: the store and the replies. -/
def serveReq (kvStore : KvStore) (req : KvsReq) : KvStore × List KvsReq :=
  if key : req.key.toNat < maxKeys then
    if req.op = 2 then (kvStore.set req.key.toNat req.value, [])
    else if req.op = 1 then (kvStore, [{ req with value := kvStore[req.key.toNat] }])
    else (kvStore, [])
  else (kvStore, [])

/-- One turn of the loop of `cpu_server`.  `buffer` is what earlier datagrams left after the
    bytes that were received. -/
def cpuServer (kvStore : KvStore) (buffer : ByteMem) (datagram : List (BitVec 8)) :
    KvStore × List KvsReq :=
  let received := datagram.take bufSize
  if received.length < sizeofKvsReq then (kvStore, [])
  else serveReq kvStore (.load (.ofList received buffer) 0)

/-! ## The handler -/

/-- `swap_headers` -/
def swapHeaders (hdr : ByteMem) : ByteMem :=
  let tempIp := PktHdr.sourceId hdr
  let hdr := hdr.store32 12 (PktHdr.destId hdr)
  let hdr := hdr.store32 16 tempIp
  let tempPort := PktHdr.srcPort hdr
  let hdr := hdr.store16 20 (PktHdr.dstPort hdr)
  hdr.store16 22 tempPort

section SwapHeaders

open ByteMem

theorem swapHeaders_ips (hdr : ByteMem) :
    PktHdr.sourceId (swapHeaders hdr) = PktHdr.destId hdr ∧
      PktHdr.destId (swapHeaders hdr) = PktHdr.sourceId hdr := by
  simp [swapHeaders, PktHdr.sourceId, PktHdr.destId, load32_store32_apart, load32_store16_apart]

theorem swapHeaders_ports (hdr : ByteMem) :
    PktHdr.srcPort (swapHeaders hdr) = PktHdr.dstPort hdr ∧
      PktHdr.dstPort (swapHeaders hdr) = PktHdr.srcPort hdr := by
  simp [swapHeaders, PktHdr.srcPort, PktHdr.dstPort, load16_store32_apart, load16_store16_apart]

/-- The payload stays as it is. -/
theorem load32_swapHeaders (hdr : ByteMem) {offset : Nat} (payload : sizeofPktHdr ≤ offset) :
    (swapHeaders hdr).load32 offset = hdr.load32 offset := by
  have after : 28 ≤ offset := payload
  rw [swapHeaders, load32_store16_apart (by omega), load32_store16_apart (by omega),
    load32_store32_apart (by omega), load32_store32_apart (by omega)]

end SwapHeaders

/-- What a handler leaves behind: the store, the packet, and the commands it issued. -/
structure KvsEffect where
  kvStore : KvStore
  pktMem : ByteMem
  cmds : List SpinCmdCall

def kvsHeaderHandler (kvStore : KvStore) (pktMem : ByteMem) : KvsEffect :=
  let req := KvsReq.load pktMem sizeofPktHdr
  if key : req.key.toNat < maxKeys then
    if req.op = 2 then ⟨kvStore.set req.key.toNat req.value, pktMem, []⟩
    else if req.op = 1 then
      let val := kvStore[req.key.toNat]
      ⟨kvStore, swapHeaders (pktMem.store32 (sizeofPktHdr + 8) val), []⟩
    else ⟨kvStore, pktMem, []⟩
  else ⟨kvStore, pktMem, []⟩

/-! ## Delivery -/

/-- A packet with a request datagram.  `pktResidue` is what the packet buffer holds after the
    packet, `bufferResidue` what the server's buffer holds after the datagram. -/
structure KvsDelivery where
  msgid : MsgId
  eom : Bool
  header : Vector (BitVec 8) sizeofPktHdr
  datagram : List (BitVec 8)
  pktResidue : ByteMem
  bufferResidue : ByteMem

namespace KvsDelivery

variable (delivery : KvsDelivery)

def pktMem : ByteMem := .ofList (delivery.header.toList ++ delivery.datagram) delivery.pktResidue

/-- The request the handler reads. -/
def nicReq : KvsReq := .load delivery.pktMem sizeofPktHdr

/-- The request the server reads. -/
def serverReq : KvsReq := .load (.ofList (delivery.datagram.take bufSize) delivery.bufferResidue) 0

/-- The datagram is long enough for a request. -/
def IsRequest : Prop := sizeofKvsReq ≤ delivery.datagram.length

/-- A request for the value of a valid key. -/
def IsGet : Prop :=
  delivery.IsRequest ∧ delivery.serverReq.op = 1 ∧ delivery.serverReq.key.toNat < maxKeys

instance : Decidable delivery.IsRequest := inferInstanceAs (Decidable (_ ≤ _))

instance : Decidable delivery.IsGet := inferInstanceAs (Decidable (_ ∧ _ ∧ _))

end KvsDelivery

/-- The store on the NIC and the messages whose first packet was delivered and whose last
    one was not. -/
structure KvsNic where
  kvStore : KvStore
  opened : MsgId → Bool

namespace KvsNic

variable (nic : KvsNic) (delivery : KvsDelivery)

/-- The header handler runs on the first packet of a message; no other packet has a handler. -/
def handled : KvsEffect :=
  if nic.opened delivery.msgid then ⟨nic.kvStore, delivery.pktMem, []⟩
  else kvsHeaderHandler nic.kvStore delivery.pktMem

def deliver : KvsNic where
  kvStore := (nic.handled delivery).kvStore
  opened := fun msgid => if msgid = delivery.msgid then !delivery.eom else nic.opened msgid

end KvsNic

/-- The server and the NIC, which are delivered the same datagrams. -/
def kvsPair (kvStore : KvStore) : Machine (KvStore × KvsNic) KvsDelivery where
  reset := (kvStore, ⟨kvStore, fun _ => false⟩)
  step state delivery :=
    ((cpuServer state.1 delivery.bufferResidue delivery.datagram).1, state.2.deliver delivery)

/-! ## Stores -/

namespace KvStore

variable (kvStore : KvStore) (req : KvsReq)

/-- The store a request leaves. -/
def apply : KvStore :=
  if key : req.key.toNat < maxKeys then
    if req.op = 2 then kvStore.set req.key.toNat req.value else kvStore
  else kvStore

/-- The request sets no key, or one to the value it has. -/
def Keeps : Prop :=
  req.op = 2 → ∀ key : req.key.toNat < maxKeys, kvStore[req.key.toNat] = req.value

theorem apply_eq_self : kvStore.apply req = kvStore ↔ kvStore.Keeps req := by
  by_cases key : req.key.toNat < maxKeys
  · by_cases set : req.op = 2
    · rw [apply, dif_pos key, if_pos set]
      constructor
      · intro same _ _
        have here := congrArg (fun store : KvStore => store[req.key.toNat]) same
        simpa using here.symm
      · intro keeps
        rw [← keeps set key, Vector.set_getElem_self]
    · rw [apply, dif_pos key, if_neg set]
      exact iff_of_true rfl fun sets => absurd sets set
  · rw [apply, dif_neg key]
    exact iff_of_true rfl fun _ valid => absurd valid key

end KvStore

theorem kvsHeaderHandler_kvStore (kvStore : KvStore) (pktMem : ByteMem) :
    (kvsHeaderHandler kvStore pktMem).kvStore = kvStore.apply (.load pktMem sizeofPktHdr) := by
  by_cases key : (KvsReq.load pktMem sizeofPktHdr).key.toNat < maxKeys
  · simp [kvsHeaderHandler, KvStore.apply, key, apply_ite KvsEffect.kvStore]
  · simp [kvsHeaderHandler, KvStore.apply, key]

theorem serveReq_kvStore (kvStore : KvStore) (req : KvsReq) :
    (serveReq kvStore req).1 = kvStore.apply req := by
  by_cases key : req.key.toNat < maxKeys
  · simp [serveReq, KvStore.apply, key, apply_ite Prod.fst]
  · simp [serveReq, KvStore.apply, key]

/-- The handler issues no command, whatever the request. -/
theorem kvsHeaderHandler_cmds (kvStore : KvStore) (pktMem : ByteMem) :
    (kvsHeaderHandler kvStore pktMem).cmds = [] := by
  by_cases key : (KvsReq.load pktMem sizeofPktHdr).key.toNat < maxKeys
  · simp [kvsHeaderHandler, key, apply_ite KvsEffect.cmds]
  · simp [kvsHeaderHandler, key]

namespace KvsDelivery

variable (delivery : KvsDelivery) (kvStore : KvStore)

theorem cpuServer_kvStore :
    (cpuServer kvStore delivery.bufferResidue delivery.datagram).1 =
      if delivery.IsRequest then kvStore.apply delivery.serverReq else kvStore := by
  have received : (delivery.datagram.take bufSize).length < sizeofKvsReq ↔ ¬delivery.IsRequest := by
    rw [List.length_take, IsRequest, bufSize, sizeofKvsReq]
    omega
  by_cases request : delivery.IsRequest
  · rw [if_pos request, cpuServer, if_neg fun short => received.mp short request]
    exact serveReq_kvStore kvStore delivery.serverReq
  · rw [if_neg request, cpuServer, if_pos (received.mpr request)]

/-- Both sides read the same request from a datagram that holds one. -/
theorem nicReq_eq (request : delivery.IsRequest) : delivery.nicReq = delivery.serverReq := by
  have enough : 12 ≤ delivery.datagram.length := request
  have same : ∀ i, i < 12 → delivery.pktMem (sizeofPktHdr + i) =
      ByteMem.ofList (delivery.datagram.take bufSize) delivery.bufferResidue (0 + i) := by
    intro i inside
    have inDatagram : i < delivery.datagram.length := by omega
    have inBuffer : 0 + i < (delivery.datagram.take bufSize).length := by
      rw [List.length_take, bufSize]
      omega
    have inPacket : sizeofPktHdr + i < (delivery.header.toList ++ delivery.datagram).length := by
      rw [List.length_append, Vector.length_toList]
      omega
    rw [ByteMem.ofList_of_lt inBuffer, pktMem, ByteMem.ofList_of_lt inPacket, List.getElem_take,
      List.getElem_append_right (by simp)]
    simp
  rw [nicReq, serverReq, KvsReq.load, KvsReq.load, KvsReq.mk.injEq]
  exact ⟨ByteMem.load32_congr fun i inside => same i (by omega),
    ByteMem.load32_congr fun i inside => by
      simpa only [Nat.add_assoc] using same (4 + i) (by omega),
    ByteMem.load32_congr fun i inside => by
      simpa only [Nat.add_assoc] using same (8 + i) (by omega)⟩

end KvsDelivery

/-! ## Agreement -/

/-- The reply to a request: a value, with source and destination swapped. -/
structure ReplyTo (request reply : ByteMem) (value : BitVec 32) : Prop where
  sourceId : PktHdr.sourceId reply = PktHdr.destId request
  destId : PktHdr.destId reply = PktHdr.sourceId request
  srcPort : PktHdr.srcPort reply = PktHdr.dstPort request
  dstPort : PktHdr.dstPort reply = PktHdr.srcPort request
  value : (KvsReq.load reply sizeofPktHdr).value = value

/-- The handler prepares the reply in the packet. -/
theorem replyTo_kvsHeaderHandler (kvStore : KvStore) (pktMem : ByteMem)
    (get : (KvsReq.load pktMem sizeofPktHdr).op = 1)
    (key : (KvsReq.load pktMem sizeofPktHdr).key.toNat < maxKeys) :
    ReplyTo pktMem (kvsHeaderHandler kvStore pktMem).pktMem
      kvStore[(KvsReq.load pktMem sizeofPktHdr).key.toNat] := by
  have prepared : (kvsHeaderHandler kvStore pktMem).pktMem = swapHeaders
      (pktMem.store32 (sizeofPktHdr + 8) kvStore[(KvsReq.load pktMem sizeofPktHdr).key.toNat]) := by
    simp [kvsHeaderHandler, key, get]
  obtain ⟨source, dest⟩ := swapHeaders_ips
    (pktMem.store32 (sizeofPktHdr + 8) kvStore[(KvsReq.load pktMem sizeofPktHdr).key.toNat])
  obtain ⟨src, dst⟩ := swapHeaders_ports
    (pktMem.store32 (sizeofPktHdr + 8) kvStore[(KvsReq.load pktMem sizeofPktHdr).key.toNat])
  rw [prepared]
  exact ⟨source.trans (ByteMem.load32_store32_apart (by decide)),
    dest.trans (ByteMem.load32_store32_apart (by decide)),
    src.trans (ByteMem.load16_store32_apart (by decide)),
    dst.trans (ByteMem.load16_store32_apart (by decide)),
    (load32_swapHeaders _ (by decide)).trans (ByteMem.load32_store32 _ _ _)⟩

namespace KvsPair

variable (state : KvStore × KvsNic) (delivery : KvsDelivery)

/-- After a delivery the stores are equal, and one packet answers the request for a value. -/
structure Agrees : Prop where
  stores : (state.2.deliver delivery).kvStore =
    (cpuServer state.1 delivery.bufferResidue delivery.datagram).1
  replies : delivery.IsGet → ∀ key : delivery.serverReq.key.toNat < maxKeys,
    ∃ data length, (state.2.handled delivery).cmds = [.sendPacket data length] ∧
      ReplyTo delivery.pktMem (state.2.handled delivery).pktMem
        state.1[delivery.serverReq.key.toNat]

/-- What keeps the two from differing: nobody asks for a value, a datagram that is not the
    first of its message sets nothing new on the server, and one that is too short for a
    request sets nothing new on the NIC, with the bytes that follow it. -/
structure Harmless : Prop where
  noGet : ¬delivery.IsGet
  later : state.2.opened delivery.msgid = true → delivery.IsRequest →
    state.1.Keeps delivery.serverReq
  short : state.2.opened delivery.msgid = false → ¬delivery.IsRequest →
    state.1.Keeps delivery.nicReq

variable {state delivery}

theorem handled_cmds (nic : KvsNic) : (nic.handled delivery).cmds = [] := by
  unfold KvsNic.handled
  split
  · rfl
  · exact kvsHeaderHandler_cmds _ _

theorem deliver_kvStore (nic : KvsNic) : (nic.deliver delivery).kvStore =
    if nic.opened delivery.msgid then nic.kvStore else nic.kvStore.apply delivery.nicReq := by
  show (nic.handled delivery).kvStore = _
  unfold KvsNic.handled
  split
  · rfl
  · exact kvsHeaderHandler_kvStore _ _

/-- Stores that were equal stay so exactly if what one side leaves out sets nothing new. -/
theorem stores_iff (equal : state.2.kvStore = state.1) :
    (state.2.deliver delivery).kvStore =
        (cpuServer state.1 delivery.bufferResidue delivery.datagram).1 ↔
      (state.2.opened delivery.msgid = true → delivery.IsRequest →
        state.1.Keeps delivery.serverReq) ∧
      (state.2.opened delivery.msgid = false → ¬delivery.IsRequest →
        state.1.Keeps delivery.nicReq) := by
  rw [deliver_kvStore, equal, delivery.cpuServer_kvStore]
  cases first : state.2.opened delivery.msgid with
  | true =>
    by_cases request : delivery.IsRequest
    · simp [request, ← KvStore.apply_eq_self, eq_comm]
    · simp [request]
  | false =>
    by_cases request : delivery.IsRequest
    · simp [request, delivery.nicReq_eq request]
    · simp [request, KvStore.apply_eq_self]

theorem agrees_iff (equal : state.2.kvStore = state.1) :
    Agrees state delivery ↔ Harmless state delivery := by
  constructor
  · intro agrees
    obtain ⟨later, short⟩ := (stores_iff equal).mp agrees.stores
    refine ⟨fun get => ?_, later, short⟩
    -- the handler issues nothing that could be a reply
    obtain ⟨data, length, sent, -⟩ := agrees.replies get get.2.2
    rw [handled_cmds] at sent
    cases sent
  · intro harmless
    exact ⟨(stores_iff equal).mpr ⟨harmless.later, harmless.short⟩,
      fun get => absurd get harmless.noGet⟩

end KvsPair

/-- The NIC agrees with the server on a sequence of datagrams exactly if every one of them is
    harmless where it is delivered. -/
theorem kvs_agrees_iff (kvStore : KvStore) (deliveries : List KvsDelivery) :
    (kvsPair kvStore).Admits KvsPair.Agrees deliveries ↔
      (kvsPair kvStore).Admits KvsPair.Harmless deliveries := by
  refine Machine.Admits.congr (Machine.admits_true _ deliveries)
    (fun state => state.2.kvStore = state.1) rfl (fun state delivery equal _ => ?_) ?_
  · exact KvsPair.agrees_iff equal
  · intro state delivery equal _ harmless
    exact (KvsPair.agrees_iff equal).mpr harmless |>.stores

/-- A request for key 5, in a message of one packet, is not answered. -/
theorem kvs_get_unanswered :
    ¬(kvsPair (Vector.replicate maxKeys 0)).Admits KvsPair.Agrees
      [⟨7, true, Vector.replicate _ 0, [1, 0, 0, 0, 5, 0, 0, 0, 0, 0, 0, 0], fun _ => 0,
        fun _ => 0⟩] := by
  intro admitted
  obtain ⟨agrees, -⟩ := admitted
  obtain ⟨data, length, sent, -⟩ := agrees.replies (by decide +kernel) (by decide +kernel)
  rw [KvsPair.handled_cmds] at sent
  cases sent

end Pspin
