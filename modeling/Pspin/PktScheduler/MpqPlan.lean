import Pspin.PktScheduler.MpqEngine

/-! # The tasks of a message

What a stream of HERs of one message queue asks for, with no engine in sight.  A
HER that opens a message fixes the metadata for all of its packets.  Each HER
has a block of tasks that read its packet; a plan is all blocks in order.
-/

namespace Pspin

inductive TaskKind where
  | header
  | payload
  | completion
deriving DecidableEq, Repr

/-- A task and the part it plays in its message. -/
structure Planned where
  kind : TaskKind
  task : HandlerTask
deriving DecidableEq, Repr

/-- Header and completion tasks share the message with no other running task. -/
def Planned.solitary (planned : Planned) : Bool := decide (planned.kind ≠ .payload)

namespace MpqPlan

/-- The packet of a HER. -/
def pktOf (her : HerDescr) : MpqPkt where
  pktAddr := her.herAddr
  pktSize := her.xferSize

def hasHeader (mpqMeta : MpqMeta) : Bool := decide (mpqMeta.hhAddr ≠ 0)

def hasCompletion (mpqMeta : MpqMeta) : Bool := decide (mpqMeta.thAddr ≠ 0)

variable (msgid : MsgId)

def headerTask (mpqMeta : MpqMeta) (pkt : MpqPkt) (triggerFeedback : Bool) : Planned where
  kind := .header
  task := MpqEngine.buildTask msgid mpqMeta mpqMeta.hhAddr mpqMeta.hhSize pkt triggerFeedback

def payloadTask (mpqMeta : MpqMeta) (pkt : MpqPkt) (triggerFeedback : Bool) : Planned where
  kind := .payload
  task := MpqEngine.buildTask msgid mpqMeta mpqMeta.phAddr mpqMeta.phSize pkt triggerFeedback

def completionTask (mpqMeta : MpqMeta) (pkt : MpqPkt) (triggerFeedback : Bool) : Planned where
  kind := .completion
  task := MpqEngine.buildTask msgid mpqMeta mpqMeta.thAddr mpqMeta.thSize pkt triggerFeedback

/-- The payload task of a packet, and the completion task after the last one.  The
    packet is given back with the last task that reads it. -/
def packetBlock (mpqMeta : MpqMeta) (her : HerDescr) : List Planned :=
  if her.eom && hasCompletion mpqMeta then
    [payloadTask msgid mpqMeta (pktOf her) false, completionTask msgid mpqMeta (pktOf her) true]
  else [payloadTask msgid mpqMeta (pktOf her) true]

def headerBlock (mpqMeta : MpqMeta) (her : HerDescr) : List Planned :=
  if hasHeader mpqMeta then [headerTask msgid mpqMeta (pktOf her) false] else []

/-- The tasks of a HER, given the metadata of the message it continues, if any. -/
def block : Option MpqMeta → HerDescr → List Planned
  | none, her => headerBlock msgid her.mpqMeta her ++ packetBlock msgid her.mpqMeta her
  | some mpqMeta, her => packetBlock msgid mpqMeta her

/-- The metadata of the message that is open after a HER. -/
def metaAfter (opened : Option MpqMeta) (her : HerDescr) : Option MpqMeta :=
  if her.eom then none else some (opened.getD her.mpqMeta)

/-- The metadata of the message a stream of HERs leaves open. -/
def openMeta (hers : List HerDescr) : Option MpqMeta := hers.foldl metaAfter none

def blocksFrom : Option MpqMeta → List HerDescr → List (List Planned)
  | _, [] => []
  | opened, her :: hers => block msgid opened her :: blocksFrom (metaAfter opened her) hers

def blocks (hers : List HerDescr) : List (List Planned) := blocksFrom msgid none hers

def plan (hers : List HerDescr) : List Planned := (blocks msgid hers).flatten

/-- The metadata of the message each HER belongs to. -/
def metasFrom : Option MpqMeta → List HerDescr → List MpqMeta
  | _, [] => []
  | opened, her :: hers => opened.getD her.mpqMeta :: metasFrom (metaAfter opened her) hers

/-- The payload task of a packet: it gives the packet back unless a completion task
    still reads it. -/
def payloadOf (mpqMeta : MpqMeta) (her : HerDescr) : Planned :=
  payloadTask msgid mpqMeta (pktOf her) !(her.eom && hasCompletion mpqMeta)

/-- One payload task for each HER, with the metadata of its own message. -/
def payloadPlan (hers : List HerDescr) : List Planned :=
  List.zipWith (payloadOf msgid) (metasFrom none hers) hers

/-! ## A plan grows with its stream -/

@[simp] theorem openMeta_append (hers : List HerDescr) (her : HerDescr) :
    openMeta (hers ++ [her]) = metaAfter (openMeta hers) her := by
  simp [openMeta]

theorem blocksFrom_append (opened : Option MpqMeta) (hers : List HerDescr) (her : HerDescr) :
    blocksFrom msgid opened (hers ++ [her]) =
      blocksFrom msgid opened hers ++ [block msgid (hers.foldl metaAfter opened) her] := by
  induction hers generalizing opened with
  | nil => rfl
  | cons first hers inductionHypothesis =>
    simp only [List.cons_append, blocksFrom, inductionHypothesis, List.foldl_cons]

theorem plan_append (hers : List HerDescr) (her : HerDescr) :
    plan msgid (hers ++ [her]) = plan msgid hers ++ block msgid (openMeta hers) her := by
  simp [plan, blocks, blocksFrom_append, openMeta]

/-! ## What a block is

Every task of a block reads the packet of its HER, and the last one alone gives
it back.
-/

/-- `tasks` is what is done with the packet of a HER. -/
structure Serves (her : HerDescr) (tasks : List Planned) : Prop where
  own_packet : ∀ planned ∈ tasks,
    planned.task.pktAddr = her.herAddr ∧ planned.task.pktSize = her.xferSize
  gives_back : ∃ before last, tasks = before ++ [last] ∧
    (∀ planned ∈ before, planned.task.triggerFeedback = false) ∧ last.task.triggerFeedback = true

theorem packetBlock_serves (mpqMeta : MpqMeta) (her : HerDescr) :
    Serves her (packetBlock msgid mpqMeta her) := by
  unfold packetBlock
  split
  · exact ⟨by simp [payloadTask, completionTask, MpqEngine.buildTask, pktOf],
      [payloadTask msgid mpqMeta (pktOf her) false], _, rfl,
      by simp [payloadTask, MpqEngine.buildTask], rfl⟩
  · exact ⟨by simp [payloadTask, MpqEngine.buildTask, pktOf], [], _, rfl, by simp, rfl⟩

theorem block_serves (opened : Option MpqMeta) (her : HerDescr) :
    Serves her (block msgid opened her) := by
  cases opened with
  | some mpqMeta => exact packetBlock_serves msgid mpqMeta her
  | none =>
    obtain ⟨own, before, last, split, quiet, triggers⟩ := packetBlock_serves msgid her.mpqMeta her
    have header : ∀ planned ∈ headerBlock msgid her.mpqMeta her,
        planned = headerTask msgid her.mpqMeta (pktOf her) false := by
      unfold headerBlock
      split <;> simp
    refine ⟨?_, headerBlock msgid her.mpqMeta her ++ before, last, ?_, ?_, triggers⟩
    · intro planned member
      rcases List.mem_append.mp member with inHeader | inPacket
      · rw [header planned inHeader]
        exact ⟨rfl, rfl⟩
      · exact own planned inPacket
    · rw [block, split, List.append_assoc]
    · intro planned member
      rcases List.mem_append.mp member with inHeader | inBefore
      · rw [header planned inHeader]
        rfl
      · exact quiet planned inBefore

theorem blocksFrom_serve (opened : Option MpqMeta) (hers : List HerDescr) :
    List.Forall₂ Serves hers (blocksFrom msgid opened hers) := by
  induction hers generalizing opened with
  | nil => exact .nil
  | cons her hers inductionHypothesis =>
    exact .cons (block_serves msgid opened her) (inductionHypothesis _)

/-- The payload task is the only one of its block. -/
theorem filter_payload_block (opened : Option MpqMeta) (her : HerDescr) :
    (block msgid opened her).filter (fun planned => decide (planned.kind = .payload)) =
      [payloadOf msgid (opened.getD her.mpqMeta) her] := by
  have packet (mpqMeta : MpqMeta) : (packetBlock msgid mpqMeta her).filter
      (fun planned => decide (planned.kind = .payload)) = [payloadOf msgid mpqMeta her] := by
    unfold packetBlock payloadOf
    cases her.eom && hasCompletion mpqMeta <;> simp [payloadTask, completionTask]
  cases opened with
  | some mpqMeta => exact packet mpqMeta
  | none =>
    have header : (headerBlock msgid her.mpqMeta her).filter
        (fun planned => decide (planned.kind = .payload)) = [] := by
      unfold headerBlock
      split <;> simp [headerTask]
    rw [block, List.filter_append, header, packet]
    rfl

theorem filter_payload_plan (hers : List HerDescr) :
    (plan msgid hers).filter (fun planned => decide (planned.kind = .payload)) =
      payloadPlan msgid hers := by
  suffices each : ∀ opened, (blocksFrom msgid opened hers).flatten.filter
      (fun planned => decide (planned.kind = .payload)) =
      List.zipWith (payloadOf msgid) (metasFrom opened hers) hers from each none
  induction hers with
  | nil => intro opened; rfl
  | cons her hers inductionHypothesis =>
    intro opened
    simp only [blocksFrom, List.flatten_cons, List.filter_append, filter_payload_block,
      inductionHypothesis, metasFrom, List.zipWith_cons_cons, List.singleton_append]

theorem length_metasFrom (opened : Option MpqMeta) (hers : List HerDescr) :
    (metasFrom opened hers).length = hers.length := by
  induction hers generalizing opened with
  | nil => rfl
  | cons her hers inductionHypothesis => simp [metasFrom, inductionHypothesis]

theorem length_payloadPlan (hers : List HerDescr) :
    (payloadPlan msgid hers).length = hers.length := by
  simp [payloadPlan, length_metasFrom]

/-- One payload task for each HER. -/
theorem countP_payload_plan (hers : List HerDescr) :
    (plan msgid hers).countP (fun planned => decide (planned.kind = .payload)) = hers.length := by
  rw [List.countP_eq_length_filter, filter_payload_plan, length_payloadPlan]

end MpqPlan

end Pspin
