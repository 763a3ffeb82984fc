import Pspin.Clocked.Packed
import Pspin.Config

/-! # Command descriptors

The packed structs a command descriptor is read through, and what each consumer takes
from it: the NIC outbound engine, `soc_dma_wrap` and `host_direct`.
-/

namespace Pspin

open Clocked

/-- The bits of `pspin_cmd_descr_t`; `words[0]` is the lowest word. -/
def PspinCmdDescr.bits (descr : PspinCmdDescr) : BitVec 608 :=
  packWords (fun i => descr[i]?.getD 0) 19

/-! ## Packed structs -/

/-- `nic_cmd_t` -/
structure NicCmd where
  unused : BitVec 384
  userPtr : BitVec 64
  length : MemSize
  srcAddr : HostAddr
  fid : BitVec 32
  nid : BitVec 32
deriving DecidableEq, Repr

namespace NicCmd

def ofBits (bits : BitVec 608) : NicCmd where
  unused := bits.extractLsb' 224 384
  userPtr := bits.extractLsb' 160 64
  length := bits.extractLsb' 128 32
  srcAddr := bits.extractLsb' 64 64
  fid := bits.extractLsb' 32 32
  nid := bits.extractLsb' 0 32

def bits (cmd : NicCmd) : BitVec 608 :=
  cmd.unused ++ (cmd.userPtr ++ (cmd.length ++ (cmd.srcAddr ++ (cmd.fid ++ cmd.nid))))

/-- The fields, the first one highest, make up the whole descriptor. -/
theorem bits_ofBits (bits : BitVec 608) : (ofBits bits).bits = bits := by
  show bits.extractLsb' 224 384 ++ (bits.extractLsb' 160 64 ++ (bits.extractLsb' 128 32 ++
    (bits.extractLsb' 64 64 ++ (bits.extractLsb' 32 32 ++ (bits.extractLsb' 0 32))))) = bits
  iterate 5 rw [BitVec.extractLsb'_append_extractLsb'_eq_extractLsb']
  · exact BitVec.extractLsb'_eq_self
  all_goals rfl

end NicCmd

/-- `host_dma_cmd_t` -/
structure HostDmaCmd where
  unused : BitVec 415
  userPtr : BitVec 64
  nicToHost : BitVec 1
  length : MemSize
  nicAddr : MemAddr
  hostAddr : HostAddr
deriving DecidableEq, Repr

namespace HostDmaCmd

def ofBits (bits : BitVec 608) : HostDmaCmd where
  unused := bits.extractLsb' 193 415
  userPtr := bits.extractLsb' 129 64
  nicToHost := bits.extractLsb' 128 1
  length := bits.extractLsb' 96 32
  nicAddr := bits.extractLsb' 64 32
  hostAddr := bits.extractLsb' 0 64

def bits (cmd : HostDmaCmd) : BitVec 608 :=
  cmd.unused ++ (cmd.userPtr ++ (cmd.nicToHost ++ (cmd.length ++ (cmd.nicAddr ++ cmd.hostAddr))))

theorem bits_ofBits (bits : BitVec 608) : (ofBits bits).bits = bits := by
  show bits.extractLsb' 193 415 ++ (bits.extractLsb' 129 64 ++ (bits.extractLsb' 128 1 ++
    (bits.extractLsb' 96 32 ++ (bits.extractLsb' 64 32 ++ (bits.extractLsb' 0 64))))) = bits
  iterate 5 rw [BitVec.extractLsb'_append_extractLsb'_eq_extractLsb']
  · exact BitVec.extractLsb'_eq_self
  all_goals rfl

end HostDmaCmd

/-- `host_direct_cmd_t` -/
structure HostDirectCmd where
  immData : BitVec 512
  unused : BitVec 22
  immDataSize : BitVec 9
  nicToHost : BitVec 1
  hostAddr : HostAddr
deriving DecidableEq, Repr

namespace HostDirectCmd

def ofBits (bits : BitVec 608) : HostDirectCmd where
  immData := bits.extractLsb' 96 512
  unused := bits.extractLsb' 74 22
  immDataSize := bits.extractLsb' 65 9
  nicToHost := bits.extractLsb' 64 1
  hostAddr := bits.extractLsb' 0 64

def bits (cmd : HostDirectCmd) : BitVec 608 :=
  cmd.immData ++ (cmd.unused ++ (cmd.immDataSize ++ (cmd.nicToHost ++ cmd.hostAddr)))

theorem bits_ofBits (bits : BitVec 608) : (ofBits bits).bits = bits := by
  show bits.extractLsb' 96 512 ++ (bits.extractLsb' 74 22 ++ (bits.extractLsb' 65 9 ++
    (bits.extractLsb' 64 1 ++ (bits.extractLsb' 0 64)))) = bits
  iterate 4 rw [BitVec.extractLsb'_append_extractLsb'_eq_extractLsb']
  · exact BitVec.extractLsb'_eq_self
  all_goals rfl

end HostDirectCmd

namespace PspinCmdDescr

variable (descr : PspinCmdDescr)

def nicCmd : NicCmd := .ofBits descr.bits

def hostDmaCmd : HostDmaCmd := .ofBits descr.bits

def hostDirectCmd : HostDirectCmd := .ofBits descr.bits

/-! ## Fields and words -/

private theorem getD_word (i : Nat) (inside : i < 19) : descr[i]?.getD 0 = descr[i] := by
  rw [Vector.getElem?_eq_getElem inside, Option.getD_some]

theorem word_eq (i : Nat) (inside : i < 19) : descr.bits.extractLsb' (32 * i) 32 = descr[i] :=
  (word_packWords _ i inside).trans (descr.getD_word i inside)

theorem words_eq (i : Nat) (inside : i + 1 < 19) :
    descr.bits.extractLsb' (32 * i) 64 = descr[i + 1] ++ descr[i] := by
  rw [← descr.getD_word (i + 1) inside, ← descr.getD_word i (Nat.lt_of_succ_lt inside)]
  exact words_packWords _ i inside

theorem field_eq (i start len : Nat) (inside : i < 19) (inWord : start + len ≤ 32) :
    descr.bits.extractLsb' (32 * i + start) len = descr[i].extractLsb' start len := by
  rw [← descr.getD_word i inside]
  exact extractLsb'_packWords _ i start len inside inWord

end PspinCmdDescr

/-! ## Consumers -/

/-- What the NIC outbound engine takes from a command; it ignores the user pointer. -/
structure NICCommand where
  sourceAddr : BitVec 64
  length : BitVec 32
  nid : BitVec 32
  fid : BitVec 32
deriving DecidableEq, Repr

def NicCmd.command (cmd : NicCmd) : NICCommand where
  sourceAddr := cmd.srcAddr
  length := cmd.length
  nid := cmd.nid
  fid := cmd.fid

/-- `transf_descr_soc_t`.  Bit 64 of an address tells the host from the NIC; bit 65 is
    not driven and left out. -/
structure TransfDescrSoc where
  numBytes : BitVec 32
  dstAddr : BitVec 65
  srcAddr : BitVec 65
  deburst : Bool
  decouple : Bool
  serialize : Bool
deriving DecidableEq, Repr

/-- `soc_dma_wrap` -/
def HostDmaCmd.xferDescr (cmd : HostDmaCmd) : TransfDescrSoc where
  numBytes := cmd.length
  dstAddr :=
    (if cmd.nicToHost = 1 then 1#1 else 0#1) ++
      ((if cmd.nicToHost = 1 then cmd.hostAddr.extractLsb' 32 32 else 0#32) ++
        if cmd.nicToHost = 1 then cmd.hostAddr.extractLsb' 0 32 else cmd.nicAddr)
  srcAddr :=
    (if cmd.nicToHost = 1 then 0#1 else 1#1) ++
      ((if cmd.nicToHost = 1 then 0#32 else cmd.hostAddr.extractLsb' 32 32) ++
        if cmd.nicToHost = 1 then cmd.nicAddr else cmd.hostAddr.extractLsb' 0 32)
  deburst := false
  decouple := true
  serialize := false

/-- The response queue and the port a transfer uses: `rx_req_valid` or `tx_req_valid`. -/
def HostDmaCmd.rxReqValid (cmd : HostDmaCmd) : Bool := cmd.nicToHost == 1

/-- A single write that `host_direct` makes: address, data and byte strobes. -/
structure HostDirectWrite where
  awAddr : BitVec 64
  wData : BitVec 512
  wStrb : BitVec 64
deriving DecidableEq, Repr

namespace HostDirectWrite

/-- The byte a lane of the bus carries, if its strobe is set. -/
def byte (write : HostDirectWrite) (lane : Nat) : Option (BitVec 8) :=
  if write.wStrb.getLsbD lane then some (write.wData.extractLsb' (8 * lane) 8) else none

end HostDirectWrite

/-- `host_direct`: commands to the host are writes, the others reads. -/
def HostDirectCmd.write? (cmd : HostDirectCmd) : Option HostDirectWrite :=
  if cmd.nicToHost = 1 then
    some {
      awAddr := cmd.hostAddr
      wData := cmd.immData
      wStrb := BitVec.allOnes 64 >>> (64#32 - cmd.immDataSize.setWidth 32) }
  else none

/-! ## What the consumers read -/

namespace PspinCmdDescr

variable (descr : PspinCmdDescr)

/-- The NIC outbound engine reads the first five words. -/
theorem command_nicCmd : descr.nicCmd.command =
    { sourceAddr := descr[3] ++ descr[2], length := descr[4], nid := descr[0], fid := descr[1] } := by
  simp only [nicCmd, NicCmd.command, NicCmd.ofBits, NICCommand.mk.injEq]
  exact ⟨descr.words_eq 2 (by decide), descr.word_eq 4 (by decide), descr.word_eq 0 (by decide),
    descr.word_eq 1 (by decide)⟩

/-- `soc_dma_wrap` reads the first four words and one bit of the fifth. -/
theorem hostDmaCmd_fields : descr.hostDmaCmd.hostAddr = descr[1] ++ descr[0] ∧
    descr.hostDmaCmd.nicAddr = descr[2] ∧ descr.hostDmaCmd.length = descr[3] ∧
    descr.hostDmaCmd.nicToHost = descr[4].extractLsb' 0 1 :=
  ⟨descr.words_eq 0 (by decide), descr.word_eq 2 (by decide), descr.word_eq 3 (by decide),
    descr.field_eq 4 0 1 (by decide) (by decide)⟩

theorem hostDirectCmd_fields : descr.hostDirectCmd.hostAddr = descr[1] ++ descr[0] ∧
    descr.hostDirectCmd.nicToHost = descr[2].extractLsb' 0 1 ∧
    descr.hostDirectCmd.immDataSize = descr[2].extractLsb' 1 9 :=
  ⟨descr.words_eq 0 (by decide), descr.field_eq 2 0 1 (by decide) (by decide),
    descr.field_eq 2 1 9 (by decide) (by decide)⟩

/-- The low half of the immediate data that a call can write. -/
theorem immData_low : descr.hostDirectCmd.immData.extractLsb' 0 64 = descr[4] ++ descr[3] := by
  rw [← descr.words_eq 3 (by decide)]
  exact extractLsb'_extractLsb'_inside descr.bits (show 0 + 64 ≤ 512 by decide)

end PspinCmdDescr

namespace HostDmaCmd

private theorem hostAddr_halves (addr : HostAddr) :
    addr.extractLsb' 32 32 ++ addr.extractLsb' 0 32 = addr := by
  rw [BitVec.extractLsb'_append_extractLsb'_eq_extractLsb']
  · exact BitVec.extractLsb'_eq_self
  · rfl

private theorem nicAddr_padded (addr : MemAddr) : 0#1 ++ (0#32 ++ addr) = 0#33 ++ addr := by
  apply BitVec.eq_of_getLsbD_eq
  intro bit inside
  simp only [BitVec.getLsbD_append, BitVec.getLsbD_zero]
  grind

variable {cmd : HostDmaCmd}

theorem xferDescr_toHost (toHost : cmd.nicToHost = 1) : cmd.xferDescr =
    { numBytes := cmd.length, dstAddr := 1#1 ++ cmd.hostAddr, srcAddr := 0#33 ++ cmd.nicAddr,
      deburst := false, decouple := true, serialize := false } := by
  simp only [xferDescr, if_pos toHost, TransfDescrSoc.mk.injEq, and_true, true_and]
  exact ⟨congrArg (1#1 ++ ·) (hostAddr_halves _), nicAddr_padded _⟩

theorem xferDescr_fromHost (fromHost : cmd.nicToHost = 0) : cmd.xferDescr =
    { numBytes := cmd.length, dstAddr := 0#33 ++ cmd.nicAddr, srcAddr := 1#1 ++ cmd.hostAddr,
      deburst := false, decouple := true, serialize := false } := by
  have other : cmd.nicToHost ≠ 1 := by rw [fromHost]; decide
  simp only [xferDescr, if_neg other, TransfDescrSoc.mk.injEq, and_true, true_and]
  exact ⟨nicAddr_padded _, congrArg (1#1 ++ ·) (hostAddr_halves _)⟩

end HostDmaCmd

namespace HostDirectCmd

variable {cmd : HostDirectCmd}

/-- A size up to that of the bus strobes as many lanes. -/
theorem strobe_eq {size : BitVec 9} (fits : size.toNat ≤ 64) (lane : Nat) :
    (BitVec.allOnes 64 >>> (64#32 - size.setWidth 32)).getLsbD lane =
      decide (lane < size.toNat) := by
  have shift : (64#32 - size.setWidth 32).toNat = 64 - size.toNat := by
    rw [BitVec.toNat_sub, BitVec.toNat_ofNat, BitVec.toNat_setWidth]
    omega
  rw [BitVec.ushiftRight_eq', BitVec.getLsbD_ushiftRight, BitVec.getLsbD_allOnes, shift,
    decide_eq_decide]
  omega

/-- A write of eight bytes carries the low eight bytes of the immediate data. -/
theorem write?_of_size (toHost : cmd.nicToHost = 1) (size : cmd.immDataSize = 8) :
    ∃ write, cmd.write? = some write ∧ write.awAddr = cmd.hostAddr ∧ ∀ lane,
      write.byte lane = if lane < 8 then
        some ((cmd.immData.extractLsb' 0 64).extractLsb' (8 * lane) 8) else none := by
  refine ⟨_, if_pos toHost, rfl, fun lane => ?_⟩
  have eight : cmd.immDataSize.toNat = 8 := by rw [size]; rfl
  rw [HostDirectWrite.byte, strobe_eq (by omega), eight]
  by_cases low : lane < 8
  · have inside : 8 * lane + 8 ≤ 64 := by omega
    rw [if_pos (decide_eq_true low), if_pos low, BitVec.extractLsb'_extractLsb'_of_le inside]
  · rw [if_neg (by simpa using low), if_neg low]

end HostDirectCmd

end Pspin
