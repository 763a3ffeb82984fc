import Pspin.Clocked.Machine
import Pspin.Config
import Pspin.CommonCells.FifoV3
import Pspin.CommonCells.Lzc

/-! # `cmd_frontend`

The half of an HPU driver that issues the commands of its core.  The core writes
the words of a command and reads the issue register; the read is granted when the
command is in the buffer, and stalls while commands are disabled, no id is free or
the buffer is full.  Waits stall until the response of an id arrives.
-/

namespace Pspin

open Clocked

/-- `NUM_CMDS` is `2 ^ idBits`; ids fit into the words of the bus. -/
structure CmdFrontendParams where
  numCores : Nat
  coreId : Nat
  clusterId : BitVec 6
  idBits : Nat
  numBufferedCmd : Nat
  idBits_le : idBits ≤ 32
  someBuffer : 0 < numBufferedCmd

namespace CmdFrontendParams

variable (params : CmdFrontendParams)

def numCmds : Nat := 2 ^ params.idBits

abbrev LocalCmdId := BitVec params.idBits

abbrev Cmd := PspinCmd params.numCores params.idBits

abbrev CmdResp := PspinCmdResp params.numCores params.idBits

end CmdFrontendParams

inductive CmdFrontendState where
  | disabled
  | ready
  | waitingBuffer
  | waitingID
  | waiting
deriving DecidableEq, Repr

structure CmdFrontend (params : CmdFrontendParams) where
  stateQ : CmdFrontendState
  freeCmdIdsQ : params.LocalCmdId → Bool
  wtCmdIdxQ : params.LocalCmdId
  rvalidQ : Bool
  rdataQ : BitVec 32
  cmdQ : params.Cmd
  hpuCmdFifo : FifoV3 params.Cmd params.numBufferedCmd

structure CmdFrontendIn (params : CmdFrontendParams) where
  bus : XbarPeriphReq
  cmdRespValidI : Bool
  cmdRespI : params.CmdResp
  disabledI : Bool
  cmdReadyI : Bool

/-! ## Decoding requests -/

namespace XbarPeriphReq

variable (bus : XbarPeriphReq)

def addIssue : Nat := 0
def addWait : Nat := 1
def addTest : Nat := 2

/-- Index of the addressed word. -/
def addIdx : Nat := (bus.add.extractLsb' 2 5).toNat

def cmdIssued : Bool := bus.req && decide (bus.addIdx = addIssue) && bus.wen

def waitIssued : Bool := bus.req && decide (bus.addIdx = addWait) && !bus.wen

def testIssued : Bool := bus.req && decide (bus.addIdx = addTest) && bus.wen

end XbarPeriphReq

namespace CmdFrontendIn

variable {params : CmdFrontendParams} (inp : CmdFrontendIn params)

/-- The id a wait or a test is for. -/
def wtCmdIdx : params.LocalCmdId := inp.bus.wdata.setWidth _

/-- The id of the command that is answered. -/
def respId : params.LocalCmdId := inp.cmdRespI.cmdId.localCmdId

end CmdFrontendIn

namespace CmdFrontend

variable {params : CmdFrontendParams}

def reset : CmdFrontend params where
  stateQ := .ready
  freeCmdIdsQ := fun _ => false
  wtCmdIdxQ := 0
  rvalidQ := false
  rdataQ := 0
  cmdQ := default
  hpuCmdFifo := FifoV3.reset params.someBuffer

variable (frontend : CmdFrontend params) (inp : CmdFrontendIn params)

/-! ## Ids and the command buffer -/

/-- `~free_cmd_ids_q`: a set bit of the register is an id in use. -/
def unusedCmdIds (k : Nat) : Bool := !frontend.freeCmdIdsQ (BitVec.ofNat params.idBits k)

def noPendingCmdO : Bool := (List.range params.numCmds).all frontend.unusedCmdIds

def cmdIdx : params.LocalCmdId :=
  BitVec.ofNat params.idBits (lzcCnt params.numCmds frontend.unusedCmdIds)

def noFreeCmdIds : Bool := lzcEmpty params.numCmds frontend.unusedCmdIds

def cmdBuffFull : Bool := frontend.hpuCmdFifo.fullO

def cmdValidO : Bool := !frontend.hpuCmdFifo.emptyO

def cmdO : params.Cmd := frontend.hpuCmdFifo.dataO

def wtCmdIdxD : params.LocalCmdId :=
  if inp.bus.waitIssued || inp.bus.testIssued then inp.wtCmdIdx else frontend.wtCmdIdxQ

def wtCmdFinished : Bool :=
  !frontend.freeCmdIdsQ (frontend.wtCmdIdxD inp) ||
    inp.cmdRespValidI && decide (inp.respId = frontend.wtCmdIdxD inp)

/-! ## State transitions -/

def stateD : CmdFrontendState :=
  match frontend.stateQ with
  | .ready =>
    if inp.bus.waitIssued && !frontend.wtCmdFinished inp then .waiting
    else if inp.bus.cmdIssued then
      (if inp.disabledI then .disabled
      else if frontend.noFreeCmdIds then .waitingID
      else if frontend.cmdBuffFull then .waitingBuffer
      else .ready)
    else .ready
  | .disabled =>
    if inp.disabledI then .disabled
    else if frontend.noFreeCmdIds then .waitingID
    else if frontend.cmdBuffFull then .waitingBuffer
    else .ready
  | .waitingID =>
    if inp.cmdRespValidI then (if frontend.cmdBuffFull then .waitingBuffer else .ready)
    else .waitingID
  | .waitingBuffer => if frontend.cmdBuffFull then .waitingBuffer else .ready
  | .waiting =>
    if inp.cmdRespValidI && decide (inp.respId = frontend.wtCmdIdxQ) then .ready else .waiting

def assignId : Bool :=
  match frontend.stateQ with
  | .ready => inp.bus.cmdIssued && !inp.disabledI && !frontend.noFreeCmdIds
  | .disabled => !inp.disabledI && !frontend.noFreeCmdIds
  | _ => false

def freeCmdIdsD (id : params.LocalCmdId) : Bool :=
  if decide (frontend.stateQ ≠ .waitingID) && inp.cmdRespValidI && decide (id = inp.respId) then false
  else if frontend.assignId inp && decide (id = frontend.cmdIdx) then true
  else frontend.freeCmdIdsQ id

/-- We reply if the request does not block us or if it unblocks us. -/
def gntO : Bool := inp.bus.req && decide (frontend.stateD inp = .ready)

/-! ## The command -/

/-- The core defines a command, by its type and flags or by a word. -/
def definesType : Bool :=
  inp.bus.req && decide (frontend.stateQ = .ready) && decide (inp.bus.addIdx = 3) && !inp.bus.wen

def definesWord : Bool :=
  inp.bus.req && decide (frontend.stateQ = .ready) &&
    decide (4 ≤ inp.bus.addIdx ∧ inp.bus.addIdx ≤ 10) && !inp.bus.wen

/-- Type and interface of a command, by the bits that select them. -/
def cmdKind (bits : BitVec 2) : Option (PspinCmdType × PspinCmdIntfId) :=
  match bits with
  | 0b00#2 => some (.hostMemCpy, BitVec.ofNat _ cmdEdmaId)
  | 0b01#2 => some (.nicSend, BitVec.ofNat _ cmdNicOutboundId)
  | 0b10#2 => some (.hostDirect, BitVec.ofNat _ cmdHostdirectId)
  | _ => none

/-- Type and interface after a cycle; the unused selection changes neither. -/
def kindD : PspinCmdType × PspinCmdIntfId :=
  if frontend.definesType inp then
    (cmdKind (inp.bus.wdata.extractLsb' 1 2)).getD (frontend.cmdQ.cmdType, frontend.cmdQ.intfId)
  else (frontend.cmdQ.cmdType, frontend.cmdQ.intfId)

def localCmdIdD : params.LocalCmdId :=
  match frontend.stateQ with
  | .waitingID => if inp.cmdRespValidI then inp.respId else frontend.cmdQ.cmdId.localCmdId
  | _ => if frontend.assignId inp then frontend.cmdIdx else frontend.cmdQ.cmdId.localCmdId

def cmdD : params.Cmd where
  intfId := (frontend.kindD inp).2
  cmdId :=
    { clusterId := params.clusterId.setWidth _
      coreId := BitVec.ofNat _ params.coreId
      localCmdId := frontend.localCmdIdD inp }
  cmdType := (frontend.kindD inp).1
  descr :=
    if frontend.definesWord inp then
      frontend.cmdQ.descr.setIfInBounds (inp.bus.addIdx - 4) inp.bus.wdata
    else frontend.cmdQ.descr
  generateEvent :=
    if frontend.definesType inp then inp.bus.wdata.getLsbD 0 else frontend.cmdQ.generateEvent

/-- We push if there is a command and nothing blocks it any more. -/
def cmdBuffPush : Bool :=
  !frontend.cmdBuffFull && inp.bus.cmdIssued && decide (frontend.stateD inp = .ready)

/-! ## Read data -/

def rdataD : BitVec 32 :=
  match frontend.stateQ with
  | .ready =>
    if inp.bus.testIssued then (if frontend.wtCmdFinished inp then 1 else 0)
    else if inp.bus.cmdIssued then frontend.cmdIdx.setWidth 32
    else frontend.rdataQ
  | .waiting => if inp.cmdRespValidI then inp.respId.setWidth 32 else frontend.rdataQ
  | _ => frontend.rdataQ

def rRdataO : BitVec 32 := frontend.rdataQ

def rValidO : Bool := frontend.rvalidQ

/-- One clock edge. -/
def step : CmdFrontend params where
  stateQ := frontend.stateD inp
  freeCmdIdsQ := frontend.freeCmdIdsD inp
  wtCmdIdxQ := frontend.wtCmdIdxD inp
  rvalidQ := frontend.gntO inp
  rdataQ := frontend.rdataD inp
  cmdQ := frontend.cmdD inp
  hpuCmdFifo := frontend.hpuCmdFifo.step (frontend.cmdD inp) (frontend.cmdBuffPush inp)
    (inp.cmdReadyI && frontend.cmdValidO)

/-! ## Nothing in flight -/

theorem noPendingCmdO_eq_true :
    frontend.noPendingCmdO = true ↔ ∀ id, frontend.freeCmdIdsQ id = false := by
  simp only [noPendingCmdO, List.all_eq_true, List.mem_range, unusedCmdIds, Bool.not_eq_true']
  constructor
  · intro unset id
    have bit := unset id.toNat id.isLt
    rwa [BitVec.ofNat_toNat, BitVec.setWidth_eq] at bit
  · exact fun unset k _ => unset _

/-- While commands are disabled none gets an id. -/
theorem noPendingCmdO_step (disabled : inp.disabledI = true)
    (none : frontend.noPendingCmdO = true) : (frontend.step inp).noPendingCmdO = true := by
  rw [noPendingCmdO_eq_true] at none ⊢
  intro id
  have quiet : frontend.assignId inp = false := by
    unfold assignId
    split <;> simp [disabled]
  show frontend.freeCmdIdsD inp id = false
  unfold freeCmdIdsD
  split
  · rfl
  · simp [quiet, none id]

end CmdFrontend

def cmdFrontend (params : CmdFrontendParams) :
    Machine (CmdFrontend params) (CmdFrontendIn params) where
  reset := CmdFrontend.reset
  step := CmdFrontend.step

end Pspin
