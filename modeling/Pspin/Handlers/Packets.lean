import Pspin.Clocked.ByteMem

/-! # Packet headers

The fields of `pkt_hdr_t` that handlers use, by their offsets, and `GET_IP_UDP_PLD`.
-/

namespace Pspin

open Clocked

def sizeofIpHdr : Nat := 20
def sizeofUdpHdr : Nat := 8
def sizeofPktHdr : Nat := sizeofIpHdr + sizeofUdpHdr

namespace PktHdr

variable (pkt : ByteMem)

/-- The upper bit field of the first byte. -/
def ihl : BitVec 4 := (pkt 0).extractLsb' 4 4

def length : BitVec 16 := pkt.load16 2

def sourceId : BitVec 32 := pkt.load32 12

def destId : BitVec 32 := pkt.load32 16

def srcPort : BitVec 16 := pkt.load16 20

def dstPort : BitVec 16 := pkt.load16 22

/-- `pkt_pld_len`; the length field is widened before the headers are taken off. -/
def pldLen : BitVec 32 :=
  (length pkt).setWidth 32 - BitVec.ofNat 32 sizeofIpHdr - BitVec.ofNat 32 sizeofUdpHdr

/-- Offset of `pkt_pld_ptr` in the packet. -/
def pldOffset : Nat := (ihl pkt).toNat * 4 + sizeofUdpHdr

/-- The words a handler finds in the payload: `pkt_pld_len / 4` of them from `pkt_pld_ptr` on. -/
def pldWords : List (BitVec 32) :=
  (List.range ((pldLen pkt).toNat / 4)).map fun i => pkt.load32 (pldOffset pkt + 4 * i)

end PktHdr

/-! ## Well-formed packets -/

/-- The whole little-endian words of some bytes. -/
def wordsOf : List (BitVec 8) → List (BitVec 32)
  | b₀ :: b₁ :: b₂ :: b₃ :: bytes => ((b₃ ++ b₂) ++ (b₁ ++ b₀)) :: wordsOf bytes
  | _ => []

theorem wordsOf_eq_map (bytes : List (BitVec 8)) (mem : ByteMem) (offset : Nat)
    (holds : ∀ i, (inside : i < bytes.length) → mem (offset + i) = bytes[i]) :
    wordsOf bytes = (List.range (bytes.length / 4)).map fun i => mem.load32 (offset + 4 * i) := by
  induction bytes using wordsOf.induct generalizing offset with
  | case1 b₀ b₁ b₂ b₃ bytes ih =>
    have count : (b₀ :: b₁ :: b₂ :: b₃ :: bytes).length / 4 = bytes.length / 4 + 1 := by
      simp only [List.length_cons]
      omega
    have first : mem.load32 offset = (b₃ ++ b₂) ++ (b₁ ++ b₀) := by
      rw [ByteMem.load32]
      congr 2
      · exact holds 3 (by simp)
      · exact holds 2 (by simp)
      · exact holds 1 (by simp)
      · exact holds 0 (by simp)
    rw [wordsOf, count, List.range_succ_eq_map, List.map_cons, List.map_map, ← first,
      ih (offset + 4) fun i inside => ?_]
    · refine List.cons_eq_cons.mpr ⟨rfl, List.map_congr_left fun i _ => ?_⟩
      show mem.load32 (offset + 4 + 4 * i) = mem.load32 (offset + 4 * (i + 1))
      congr 1
      omega
    · rw [Nat.add_assoc, holds (4 + i) (by simp only [List.length_cons]; omega)]
      simp [Nat.add_comm 4 i]
  -- fewer than four bytes are no word
  | case2 bytes short =>
    have few : bytes.length / 4 = 0 := by
      rcases bytes with _ | ⟨b₀, _ | ⟨b₁, _ | ⟨b₂, _ | ⟨b₃, bytes⟩⟩⟩⟩
      · rfl
      · simp
      · simp
      · simp
      · exact absurd rfl (short b₀ b₁ b₂ b₃ bytes)
    rw [few, wordsOf.eq_def]
    split
    next b₀ b₁ b₂ b₃ bytes => exact absurd rfl (short b₀ b₁ b₂ b₃ bytes)
    next => rfl

/-- A packet with well-formed headers: no IP options, and the length field counts the headers
    and the payload. -/
structure UdpPkt where
  mem : ByteMem
  payload : List (BitVec 8)
  ihl_eq : PktHdr.ihl mem = 5
  length_eq : (PktHdr.length mem).toNat = sizeofPktHdr + payload.length
  holds : ∀ i, (inside : i < payload.length) → mem (sizeofPktHdr + i) = payload[i]

namespace UdpPkt

variable (pkt : UdpPkt)

def words : List (BitVec 32) := wordsOf pkt.payload

theorem toNat_pldLen : (PktHdr.pldLen pkt.mem).toNat = pkt.payload.length := by
  have bound := (PktHdr.length pkt.mem).isLt
  have length := pkt.length_eq
  rw [PktHdr.pldLen]
  simp only [BitVec.toNat_sub, BitVec.toNat_setWidth, BitVec.toNat_ofNat, sizeofPktHdr, sizeofIpHdr,
    sizeofUdpHdr] at *
  omega

/-- A handler finds the words of the payload. -/
theorem pldWords_eq : PktHdr.pldWords pkt.mem = pkt.words := by
  have offset : PktHdr.pldOffset pkt.mem = sizeofPktHdr := by
    rw [PktHdr.pldOffset, pkt.ihl_eq]
    rfl
  rw [PktHdr.pldWords, toNat_pldLen, offset, words, wordsOf_eq_map _ _ _ pkt.holds]

/-! ### The packet that carries a payload -/

section OfPayload

variable (payload : List (BitVec 8))

/-- A header that counts itself and the payload. -/
def headerOf : List (BitVec 8) :=
  let length := BitVec.ofNat 16 (sizeofPktHdr + payload.length)
  [0x54, 0, length.extractLsb' 0 8, length.extractLsb' 8 8] ++ List.replicate 24 0

def memOf : ByteMem := .ofList (headerOf payload ++ payload) fun _ => 0

theorem ihl_memOf : PktHdr.ihl (memOf payload) = 5 := by
  simp [PktHdr.ihl, memOf, ByteMem.ofList, headerOf]

theorem length_memOf (fits : sizeofPktHdr + payload.length < 2 ^ 16) :
    (PktHdr.length (memOf payload)).toNat = sizeofPktHdr + payload.length := by
  let length := BitVec.ofNat 16 (sizeofPktHdr + payload.length)
  show (length.extractLsb' 8 8 ++ length.extractLsb' 0 8).toNat = _
  rw [BitVec.extractLsb'_append_extractLsb'_eq_extractLsb' (by rfl), BitVec.extractLsb'_eq_self,
    BitVec.toNat_ofNat, Nat.mod_eq_of_lt fits]

theorem memOf_payload (i : Nat) (inside : i < payload.length) :
    memOf payload (sizeofPktHdr + i) = payload[i] := by
  have size : (headerOf payload).length = sizeofPktHdr := rfl
  rw [memOf, ByteMem.ofList_of_lt (by rw [List.length_append]; omega),
    List.getElem_append_right (by omega)]
  congr 1
  omega

def ofPayload (fits : sizeofPktHdr + payload.length < 2 ^ 16) : UdpPkt :=
  ⟨memOf payload, payload, ihl_memOf payload, length_memOf payload fits, memOf_payload payload⟩

end OfPayload

end UdpPkt

/-- A packet of one word. -/
def wordPkt (byte : BitVec 8) : UdpPkt := .ofPayload [byte, 0, 0, 0] (show 32 < 2 ^ 16 by decide)

end Pspin
