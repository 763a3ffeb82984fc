import Pspin.Clocked.Bits

/-! # Shared types and parameters

The part of `pspin_cfg_pkg` the packet scheduler reads.  Addresses, sizes and
message ids have their widths; an all-zero reset value is the `default` of a
type.  Fields no modelled unit reads (`her_size`, the AXI channels, the immediate
data of a command response) are left out.
-/

namespace Pspin

def cMsgidWidth : Nat := 10
def numClusters : Nat := 4
def numCores : Nat := 8

def numMpqCells : Nat := 128
def numMpqStaticCells : Nat := 1

def l1ClusterBase : Nat := 0x10000000
def l1ClusterMemSize : Nat := 0x00400000
def l1RuntimeOffset : Nat := 0x00000400
def l1RuntimeSize : Nat := 0x00004000
def l1PktBuffOffset : Nat := l1RuntimeOffset + l1RuntimeSize
def l1PktBuffSize : Nat := 0x00010000
def l1ScratchpadOffset : Nat := l1PktBuffOffset + l1PktBuffSize

def bufferedHersPerCluster : Nat := 12
def numHersPerCluster : Nat := bufferedHersPerCluster + numCores

def numHpuCmds : Nat := 4

def numCmdInterfaces : Nat := 3
def cmdHostdirectId : Nat := 0
def cmdNicOutboundId : Nat := 1
def cmdEdmaId : Nat := 2

abbrev MemAddr := BitVec 32
abbrev MemSize := BitVec 32
abbrev HostAddr := BitVec 64
abbrev PktPtr := BitVec 32
abbrev MsgId := BitVec cMsgidWidth
abbrev ClusterId := Fin numClusters

instance : NeZero numClusters := ⟨by decide⟩

/-! ## Descriptors -/

/-- `feedback_descr_t` -/
structure FeedbackDescr where
  pktAddr : MemAddr
  pktSize : MemSize
  msgid : MsgId
  triggerFeedback : Bool
deriving DecidableEq, Inhabited, Repr

/-- `mpq_meta_t` -/
structure MpqMeta where
  handlerMemAddr : MemAddr
  handlerMemSize : MemSize
  hostMemAddr : HostAddr
  hostMemSize : MemSize
  hhAddr : MemAddr
  hhSize : MemSize
  phAddr : MemAddr
  phSize : MemSize
  thAddr : MemAddr
  thSize : MemSize
  scratchpadAddr : Vector MemAddr numClusters
  scratchpadSize : Vector MemSize numClusters
deriving DecidableEq, Inhabited, Repr

/-- `her_descr_t` -/
structure HerDescr where
  msgid : MsgId
  eom : Bool
  herAddr : MemAddr
  xferSize : MemSize
  mpqMeta : MpqMeta
deriving DecidableEq, Inhabited, Repr

/-- `handler_task_t` -/
structure HandlerTask where
  msgid : MsgId
  handlerFun : MemAddr
  handlerFunSize : MemSize
  handlerMemAddr : MemAddr
  handlerMemSize : MemSize
  hostMemAddr : HostAddr
  hostMemSize : MemSize
  pktAddr : MemAddr
  pktSize : MemSize
  triggerFeedback : Bool
  scratchpadAddr : Vector MemAddr numClusters
  scratchpadSize : Vector MemSize numClusters
deriving DecidableEq, Inhabited, Repr

/-- `transf_descr_32_t` -/
structure TransfDescr32 where
  numBytes : BitVec 32
  dstAddr : BitVec 32
  srcAddr : BitVec 32
  deburst : Bool
  decouple : Bool
  serialize : Bool
deriving DecidableEq, Inhabited, Repr

/-- `hpu_handler_task_t` -/
structure HpuHandlerTask where
  handlerTask : HandlerTask
  pktPtr : PktPtr
deriving DecidableEq, Inhabited, Repr

/-- `task_feedback_descr_t` -/
structure TaskFeedbackDescr where
  feedbackDescr : FeedbackDescr
  pktPtr : PktPtr
deriving DecidableEq, Inhabited, Repr

/-- The feedback that answers a task: its own packet, message and trigger flag. -/
def HandlerTask.feedback (task : HandlerTask) : FeedbackDescr where
  pktAddr := task.pktAddr
  pktSize := task.pktSize
  msgid := task.msgid
  triggerFeedback := task.triggerFeedback

/-- The feedback that answers a dispatched task. -/
def HpuHandlerTask.feedback (task : HpuHandlerTask) : TaskFeedbackDescr where
  feedbackDescr := task.handlerTask.feedback
  pktPtr := task.pktPtr

/-! ## Commands

The ids of an HPU's commands are `idBits` wide, so that it has `2 ^ idBits` of them.
-/

/-- `pspin_cmd_id_t` -/
structure PspinCmdId (numCores idBits : Nat) where
  clusterId : BitVec (Clocked.clog2 numClusters)
  coreId : BitVec (Clocked.clog2 numCores)
  localCmdId : BitVec idBits
deriving DecidableEq, Inhabited, Repr

/-- `pspin_cmd_type_t` -/
inductive PspinCmdType where
  | hostMemCpy
  | nicSend
  | hostDirect
deriving DecidableEq, Inhabited, Repr

/-- `pspin_cmd_intf_id_t` -/
abbrev PspinCmdIntfId := BitVec (Clocked.clog2 numCmdInterfaces)

/-- `pspin_cmd_descr_t`, as words. -/
abbrev PspinCmdDescr := Vector (BitVec 32) 19

/-- `pspin_cmd_t` -/
structure PspinCmd (numCores idBits : Nat) where
  intfId : PspinCmdIntfId
  cmdId : PspinCmdId numCores idBits
  cmdType : PspinCmdType
  descr : PspinCmdDescr
  generateEvent : Bool
deriving DecidableEq, Inhabited, Repr

/-- `pspin_cmd_resp_t` -/
structure PspinCmdResp (numCores idBits : Nat) where
  cmdId : PspinCmdId numCores idBits
deriving DecidableEq, Inhabited, Repr

/-- What a core drives on its `XBAR_PERIPH_BUS`; the byte enables are not used. -/
structure XbarPeriphReq where
  req : Bool
  add : BitVec 32
  wen : Bool
  wdata : BitVec 32
deriving DecidableEq, Inhabited, Repr

/-! ## Message queues -/

/-- `mpq_state_t` -/
inductive MpqState where
  | free
  | header
  | headerRunning
  | payload
  | payloadDraining
  | completion
  | completionRunning
deriving DecidableEq, Inhabited, Repr

/-- Width of the two counters of `mpq_t`. -/
def mpqCountWidth : Nat := Clocked.clog2 numMpqCells + 1

/-- `mpq_t` -/
structure Mpq where
  state : MpqState
  length : Nat
  inFlight : Nat
  hasCompletion : Bool
  eomSeen : Bool
deriving DecidableEq, Inhabited, Repr

end Pspin
