import Pspin.Cmds.CmdDescr
import Pspin.PktScheduler.CmdAccesses

/-! # Command calls

The calls of `handler.h` that issue a command.  A command carries what the call's
arguments say whatever the registers held before: the call writes every field its
consumer reads.
-/

namespace Pspin

open Clocked

/-! ## Calls

The stores of each call.  `void *` and `uint32_t` are 32 bits wide, a `bool` becomes `0` or `1`.
-/

def nicCmdStores (dest fid data length : BitVec 32) : List CmdStore :=
  let srcAddrHigh : BitVec 32 := 0
  let cmdInfo : BitVec 32 := 2
  [⟨dest, 144⟩, ⟨fid, 148⟩, ⟨data, 152⟩, ⟨srcAddrHigh, 156⟩,
    ⟨length, 160⟩, ⟨cmdInfo, 140⟩]

def spinRdmaPut (dest data length : BitVec 32) : List CmdStore :=
  nicCmdStores dest 1 data length

def spinSendPacket (data length : BitVec 32) : List CmdStore :=
  nicCmdStores 0 0 data length

def dmaCmdStores (hostAddr : BitVec 64) (nicAddr length direction : BitVec 32)
    (generateEvent : Bool) : List CmdStore :=
  let hostAddressHigh := (hostAddr >>> 32).setWidth 32
  let hostAddressLow := hostAddr.setWidth 32
  let cmdInfo := (BitVec.ofBool generateEvent).setWidth 32
  [⟨hostAddressHigh, 148⟩, ⟨hostAddressLow, 144⟩, ⟨nicAddr, 152⟩,
    ⟨length, 156⟩, ⟨direction, 160⟩, ⟨cmdInfo, 140⟩]

def spinDmaToHost (hostAddr : BitVec 64) (nicAddr length : BitVec 32) (generateEvent : Bool) :
    List CmdStore :=
  dmaCmdStores hostAddr nicAddr length 1 generateEvent

def spinDmaFromHost (hostAddr : BitVec 64) (nicAddr length : BitVec 32) (generateEvent : Bool) :
    List CmdStore :=
  dmaCmdStores hostAddr nicAddr length 0 generateEvent

def spinWriteToHost (hostAddr userData : BitVec 64) : List CmdStore :=
  let hostAddressHigh := (hostAddr >>> 32).setWidth 32
  let hostAddressLow := hostAddr.setWidth 32
  let dataHigh := (userData >>> 32).setWidth 32
  let dataLow := userData.setWidth 32
  -- eight bytes, from the NIC to the host
  let sizeAndDirection : BitVec 32 := (0x8 <<< 1) ||| 0x1
  let cmdInfo : BitVec 32 := 4
  [⟨hostAddressHigh, 148⟩, ⟨hostAddressLow, 144⟩,
    ⟨sizeAndDirection, 152⟩, ⟨dataLow, 156⟩, ⟨dataHigh, 160⟩,
    ⟨cmdInfo, 140⟩]

inductive SpinCmdCall where
  | rdmaPut (dest data length : BitVec 32)
  | sendPacket (data length : BitVec 32)
  | dmaToHost (hostAddr : BitVec 64) (nicAddr length : BitVec 32) (generateEvent : Bool)
  | dmaFromHost (hostAddr : BitVec 64) (nicAddr length : BitVec 32) (generateEvent : Bool)
  | writeToHost (hostAddr userData : BitVec 64)
deriving DecidableEq, Repr

def SpinCmdCall.stores : SpinCmdCall → List CmdStore
  | rdmaPut dest data length => spinRdmaPut dest data length
  | sendPacket data length => spinSendPacket data length
  | dmaToHost hostAddr nicAddr length generateEvent =>
    spinDmaToHost hostAddr nicAddr length generateEvent
  | dmaFromHost hostAddr nicAddr length generateEvent =>
    spinDmaFromHost hostAddr nicAddr length generateEvent
  | writeToHost hostAddr userData => spinWriteToHost hostAddr userData

def SpinCmdCall.accesses (call : SpinCmdCall) : List BusAccess := issuing call.stores

/-! ## The command of a call -/

namespace SpinCmdCall

/-- All the stores of the calls are to registers that define a command. -/
theorem defines (call : SpinCmdCall) : ∀ store ∈ call.stores, store.Defines := by
  cases call <;>
    simp [stores, spinRdmaPut, spinSendPacket, nicCmdStores, spinDmaToHost, spinDmaFromHost,
      dmaCmdStores, spinWriteToHost, CmdStore.Defines]

/-- The consumer of a command is the intended one and reads what the arguments say. -/
def DecodedFrom (regs : CmdRegs) : SpinCmdCall → Prop
  | rdmaPut dest data length =>
    (regs.cmdType = .nicSend ∧ regs.intfId = BitVec.ofNat _ cmdNicOutboundId) ∧
      regs.generateEvent = false ∧
      regs.descr.nicCmd.command =
        { sourceAddr := data.setWidth 64, length := length, nid := dest, fid := 1 }
  | sendPacket data length =>
    (regs.cmdType = .nicSend ∧ regs.intfId = BitVec.ofNat _ cmdNicOutboundId) ∧
      regs.generateEvent = false ∧
      regs.descr.nicCmd.command =
        { sourceAddr := data.setWidth 64, length := length, nid := 0, fid := 0 }
  | dmaToHost hostAddr nicAddr length generateEvent =>
    (regs.cmdType = .hostMemCpy ∧ regs.intfId = BitVec.ofNat _ cmdEdmaId) ∧
      regs.generateEvent = generateEvent ∧ regs.descr.hostDmaCmd.rxReqValid = true ∧
      regs.descr.hostDmaCmd.xferDescr =
        { numBytes := length, dstAddr := 1#1 ++ hostAddr, srcAddr := 0#33 ++ nicAddr,
          deburst := false, decouple := true, serialize := false }
  | dmaFromHost hostAddr nicAddr length generateEvent =>
    (regs.cmdType = .hostMemCpy ∧ regs.intfId = BitVec.ofNat _ cmdEdmaId) ∧
      regs.generateEvent = generateEvent ∧ regs.descr.hostDmaCmd.rxReqValid = false ∧
      regs.descr.hostDmaCmd.xferDescr =
        { numBytes := length, dstAddr := 0#33 ++ nicAddr, srcAddr := 1#1 ++ hostAddr,
          deburst := false, decouple := true, serialize := false }
  | writeToHost hostAddr userData =>
    (regs.cmdType = .hostDirect ∧ regs.intfId = BitVec.ofNat _ cmdHostdirectId) ∧
      regs.generateEvent = false ∧ regs.descr.hostDirectCmd.immDataSize = 8 ∧
      ∃ write, regs.descr.hostDirectCmd.write? = some write ∧ write.awAddr = hostAddr ∧
        ∀ lane, write.byte lane =
          if lane < 8 then some (userData.extractLsb' (8 * lane) 8) else none

/-! ## Decoding -/

variable (regs : CmdRegs)

/-- The words of a DMA command. -/
def dmaDescr (descr : PspinCmdDescr) (hostAddr : BitVec 64) (nicAddr length direction : BitVec 32) :
    PspinCmdDescr :=
  ((((descr.setIfInBounds 1 ((hostAddr >>> 32).setWidth 32)).setIfInBounds 0
    (hostAddr.setWidth 32)).setIfInBounds 2 nicAddr).setIfInBounds 3 length).setIfInBounds 4 direction

/-- The words of a write with immediate data. -/
def writeDescr (descr : PspinCmdDescr) (hostAddr userData : BitVec 64) : PspinCmdDescr :=
  ((((descr.setIfInBounds 1 ((hostAddr >>> 32).setWidth 32)).setIfInBounds 0
    (hostAddr.setWidth 32)).setIfInBounds 2 17).setIfInBounds 3
    (userData.setWidth 32)).setIfInBounds 4 ((userData >>> 32).setWidth 32)

theorem foldl_nicCmdStores (dest fid data length : BitVec 32) :
    (nicCmdStores dest fid data length).foldl CmdRegs.store regs =
      { cmdType := .nicSend, intfId := BitVec.ofNat _ cmdNicOutboundId, generateEvent := false
        descr := ((((regs.descr.setIfInBounds 0 dest).setIfInBounds 1 fid).setIfInBounds 2
          data).setIfInBounds 3 0).setIfInBounds 4 length } := by
  simp only [nicCmdStores, List.foldl_cons, List.foldl_nil]
  rw [CmdRegs.store_word _ dest 144 0 (by decide) rfl, CmdRegs.store_word _ fid 148 1 (by decide) rfl,
    CmdRegs.store_word _ data 152 2 (by decide) rfl, CmdRegs.store_word _ 0 156 3 (by decide) rfl,
    CmdRegs.store_word _ length 160 4 (by decide) rfl,
    CmdRegs.store_type _ 2 (.nicSend, BitVec.ofNat _ cmdNicOutboundId) rfl]
  rfl

theorem foldl_dmaCmdStores (hostAddr : BitVec 64) (nicAddr length direction : BitVec 32)
    (generateEvent : Bool) :
    (dmaCmdStores hostAddr nicAddr length direction generateEvent).foldl CmdRegs.store regs =
      { cmdType := .hostMemCpy, intfId := BitVec.ofNat _ cmdEdmaId, generateEvent := generateEvent
        descr := dmaDescr regs.descr hostAddr nicAddr length direction } := by
  simp only [dmaCmdStores, List.foldl_cons, List.foldl_nil]
  rw [CmdRegs.store_word _ _ 148 1 (by decide) rfl, CmdRegs.store_word _ _ 144 0 (by decide) rfl,
    CmdRegs.store_word _ nicAddr 152 2 (by decide) rfl, CmdRegs.store_word _ length 156 3 (by decide) rfl,
    CmdRegs.store_word _ direction 160 4 (by decide) rfl,
    CmdRegs.store_type _ _ (.hostMemCpy, BitVec.ofNat _ cmdEdmaId) (by cases generateEvent <;> rfl)]
  cases generateEvent <;> rfl

theorem foldl_spinWriteToHost (hostAddr userData : BitVec 64) :
    (spinWriteToHost hostAddr userData).foldl CmdRegs.store regs =
      { cmdType := .hostDirect, intfId := BitVec.ofNat _ cmdHostdirectId, generateEvent := false
        descr := writeDescr regs.descr hostAddr userData } := by
  simp only [spinWriteToHost, List.foldl_cons, List.foldl_nil]
  rw [CmdRegs.store_word _ _ 148 1 (by decide) rfl, CmdRegs.store_word _ _ 144 0 (by decide) rfl,
    CmdRegs.store_word _ _ 152 2 (by decide) rfl, CmdRegs.store_word _ _ 156 3 (by decide) rfl,
    CmdRegs.store_word _ _ 160 4 (by decide) rfl,
    CmdRegs.store_type _ 4 (.hostDirect, BitVec.ofNat _ cmdHostdirectId) rfl]
  rfl

theorem split_word (value : BitVec 64) :
    (value >>> 32).setWidth 32 ++ value.setWidth 32 = value := by
  apply BitVec.eq_of_getLsbD_eq
  intro bit inside
  simp only [BitVec.getLsbD_append, BitVec.getLsbD_setWidth, BitVec.getLsbD_ushiftRight]
  grind

theorem zero_append_word (value : BitVec 32) : 0#32 ++ value = value.setWidth 64 := by
  apply BitVec.eq_of_getLsbD_eq
  intro bit inside
  simp only [BitVec.getLsbD_append, BitVec.getLsbD_setWidth, BitVec.getLsbD_zero]
  grind

theorem decodedFrom (call : SpinCmdCall) :
    DecodedFrom (call.stores.foldl CmdRegs.store regs) call := by
  cases call with
  | rdmaPut dest data length =>
    rw [stores, spinRdmaPut, foldl_nicCmdStores]
    refine ⟨⟨rfl, rfl⟩, rfl, ?_⟩
    simp [PspinCmdDescr.command_nicCmd, zero_append_word]
  | sendPacket data length =>
    rw [stores, spinSendPacket, foldl_nicCmdStores]
    refine ⟨⟨rfl, rfl⟩, rfl, ?_⟩
    simp [PspinCmdDescr.command_nicCmd, zero_append_word]
  | dmaToHost hostAddr nicAddr length generateEvent =>
    rw [stores, spinDmaToHost, foldl_dmaCmdStores]
    obtain ⟨host, nic, size, direction⟩ := PspinCmdDescr.hostDmaCmd_fields
      (dmaDescr regs.descr hostAddr nicAddr length 1)
    refine ⟨⟨rfl, rfl⟩, rfl, ?_, ?_⟩
    · rw [HostDmaCmd.rxReqValid, direction]
      simp [dmaDescr]
    · rw [HostDmaCmd.xferDescr_toHost (direction.trans (by simp [dmaDescr])), host, nic, size]
      simp [dmaDescr, split_word]
  | dmaFromHost hostAddr nicAddr length generateEvent =>
    rw [stores, spinDmaFromHost, foldl_dmaCmdStores]
    obtain ⟨host, nic, size, direction⟩ := PspinCmdDescr.hostDmaCmd_fields
      (dmaDescr regs.descr hostAddr nicAddr length 0)
    refine ⟨⟨rfl, rfl⟩, rfl, ?_, ?_⟩
    · rw [HostDmaCmd.rxReqValid, direction]
      simp [dmaDescr]
    · rw [HostDmaCmd.xferDescr_fromHost (direction.trans (by simp [dmaDescr])), host, nic, size]
      simp [dmaDescr, split_word]
  | writeToHost hostAddr userData =>
    rw [stores, foldl_spinWriteToHost]
    obtain ⟨host, direction, size⟩ := PspinCmdDescr.hostDirectCmd_fields
      (writeDescr regs.descr hostAddr userData)
    have toHost : (writeDescr regs.descr hostAddr userData).hostDirectCmd.nicToHost = 1 := by
      rw [direction]
      simp [writeDescr]
    have eight : (writeDescr regs.descr hostAddr userData).hostDirectCmd.immDataSize = 8 := by
      rw [size]
      simp [writeDescr]
    obtain ⟨write, accepted, address, bytes⟩ := HostDirectCmd.write?_of_size toHost eight
    refine ⟨⟨rfl, rfl⟩, rfl, eight, write, accepted, ?_, ?_⟩
    · rw [address, host]
      simp [writeDescr, split_word]
    · intro lane
      rw [bytes lane, PspinCmdDescr.immData_low]
      simp [writeDescr, split_word]

end SpinCmdCall

theorem spinCmd_roundTrip {params : HpuDriverParams} (call : SpinCmdCall)
    (driver last : HpuDriver params) (inputs : List (HpuDriverIn params))
    (ready : driver.cmdFrontend.stateQ = .ready)
    (run : HpuDriver.Performs false call.accesses driver inputs last) :
    last.cmdFrontend.stateQ = .ready ∧
      ∃ cmd, HpuDriver.issued driver inputs = [cmd] ∧ call.DecodedFrom cmd.regs := by
  obtain ⟨after, cmd, issues, regs⟩ := run.issued_singleton call.defines rfl ready
  exact ⟨after, cmd, issues, by rw [regs]; exact call.decodedFrom driver.cmdRegs⟩

/-- A call on an HPU whose last command left other words in the registers. -/
theorem spinCmd_roundTrip_stale :
    let params : HpuDriverParams := ⟨8, 0, 0, 2, by decide⟩
    let store (value : BitVec 32) (offset : Nat) : HpuDriverIn params :=
      ⟨false, default, false, ⟨true, cmdReg offset, false, value⟩, true, true, false, default⟩
    let load : HpuDriverIn params :=
      ⟨false, default, false, ⟨true, cmdReg 128, true, 0⟩, true, true, false, default⟩
    let stale : HpuDriver params := (hpuDriver params).run
      [store 0xffffffff 152, store 0xffffffff 160, store 0xffffffff 164]
    let inputs := [store 1 148, store 0x40 144, store 17 152, store 7 156, store 0 160,
      store 4 140, load]
    ∃ cmd, HpuDriver.issued stale inputs = [cmd] ∧
      (SpinCmdCall.writeToHost 0x100000040 7).DecodedFrom cmd.regs := by
  intro params store load stale inputs
  have run : HpuDriver.Performs false (SpinCmdCall.writeToHost 0x100000040 7).accesses stale inputs
      (inputs.foldl HpuDriver.step stale) :=
    .granted ⟨rfl, rfl, rfl, rfl⟩ (by decide +kernel) <|
    .granted ⟨rfl, rfl, rfl, rfl⟩ (by decide +kernel) <|
    .granted ⟨rfl, rfl, rfl, rfl⟩ (by decide +kernel) <|
    .granted ⟨rfl, rfl, rfl, rfl⟩ (by decide +kernel) <|
    .granted ⟨rfl, rfl, rfl, rfl⟩ (by decide +kernel) <|
    .granted ⟨rfl, rfl, rfl, rfl⟩ (by decide +kernel) <|
    .granted ⟨rfl, rfl, rfl⟩ (by decide +kernel) .done
  exact (spinCmd_roundTrip _ stale _ inputs (by decide +kernel) run).2

end Pspin
