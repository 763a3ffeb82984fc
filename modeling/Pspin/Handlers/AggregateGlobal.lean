import Pspin.Handlers.MapReduce
import Pspin.PktScheduler.TaskFrontend

/-! # `aggregate_global`

The handlers take `task->scratchpad` for the words to add to, but it is the table of the
addresses of the scratchpads, in registers of the driver that only answer reads.  The payload
handlers add to nothing and the completion handler sums up the addresses.
-/

namespace Pspin

open Clocked

/-! ## The table of scratchpad addresses -/

/-- The register of `task->scratchpad[i]`. -/
def scratchpadReg (i : ClusterId) : BitVec 8 := BitVec.ofNat 8 (0x18 + 4 * i.val)

theorem taskInfo_scratchpadReg (current : HpuHandlerTask) (i : ClusterId) :
    TaskFrontend.taskInfo current (scratchpadReg i) =
      some (TaskFrontend.l1ScratchpadAddr current.handlerTask)[i] := by
  match i with
  | 0 => rfl
  | 1 => rfl
  | 2 => rfl
  | 3 => rfl

/-- Whatever a handler does to the table, it reads the address and leaves the task as it is. -/
theorem step_scratchpadReg {frontend : TaskFrontend} {inp : TaskFrontendIn}
    (running : frontend.stateQ = .running) (req : inp.reqI = true) {i : ClusterId}
    (reg : inp.addI.setWidth 8 = scratchpadReg i) :
    (frontend.step inp).stateQ = .running ∧
      (frontend.step inp).currentTaskQ = frontend.currentTaskQ ∧
      (frontend.step inp).rRdataO =
        (TaskFrontend.l1ScratchpadAddr frontend.currentTaskQ.handlerTask)[i] := by
  have other : scratchpadReg i ≠ 0x50#8 := by
    clear reg
    revert i
    decide
  refine ⟨?_, ?_, ?_⟩
  · simp [TaskFrontend.step, TaskFrontend.stateD, TaskFrontend.triggerFeedback, running, reg, other]
  · simp [TaskFrontend.step, TaskFrontend.currentTaskD, TaskFrontend.hpuTaskReadyO, running]
  · simp only [TaskFrontend.rRdataO, TaskFrontend.step, TaskFrontend.rdataD, TaskFrontend.gntO,
      running, req, reg, taskInfo_scratchpadReg]
    rfl

/-! ## The handlers -/

/-- Where a handler is: the words of the packet left to sum, the next entry of the table to
    gather, or the write of the result. -/
inductive AggregatePos where
  | map (words : List Word) (aggregator : Word)
  | gather (i : ClusterId) (result : Word)
  | write (result : Word)
deriving DecidableEq, Repr

/-- What a handler reads as `scratchpad[i]`. -/
def scratchpadEntry (current : HpuHandlerTask) (i : ClusterId) : Word :=
  (TaskFrontend.taskInfo current (scratchpadReg i)).getD 0

namespace AggregatePos

def act (current : HpuHandlerTask) :
    AggregatePos → Scratchpads → HandlerStep AggregatePos (BitVec 64) × Scratchpads
  | map (word :: words) aggregator, scratchpads => (.next (map words (aggregator + word)), scratchpads)
  -- the `amo_add` is a request to the table
  | map [] _, scratchpads => (.done none, scratchpads)
  | gather i result, scratchpads =>
    let result := result + scratchpadEntry current i
    (.next (nextTurn i (fun next => gather next result) (write result)), scratchpads)
  | write result, scratchpads => (.done (some (result.setWidth 64)), scratchpads)

end AggregatePos

/-- `aggregate_global_ph` and `aggregate_global_th`.  The tasks of a message show the same table. -/
def aggregateGlobal {Core : Type} (current : HpuHandlerTask) :
    HandlerProgram Core UdpPkt AggregatePos Scratchpads (BitVec 64) where
  hasHeader := false
  start
    | .completion, _, _ => .gather 0 0
    | _, _, pkt => .map (PktHdr.pldWords pkt.mem) 0
  act := AggregatePos.act current

/-- What the four entries of the table sum to. -/
def sumOfTable (current : HpuHandlerTask) : Word := ∑ i, scratchpadEntry current i

/-- What a completion handler has gathered. -/
def AggregatePos.Gathered (current : HpuHandlerTask) : AggregatePos → Prop
  | map .. => True
  | gather i result => result = ∑ cell with cell < i, scratchpadEntry current cell
  | write result => result = sumOfTable current

/-- Whatever the packets and the scratchpads hold, the sum of the table is sent. -/
theorem aggregateGlobal_keeps {Core : Type} (current : HpuHandlerTask) :
    MsgRun.Keeps (aggregateGlobal current : HandlerProgram Core UdpPkt _ _ _)
      (AggregatePos.Gathered current) (fun _ => True)
      fun value => value = (sumOfTable current).setWidth 64 where
  start := by
    intro kind core pkt
    cases kind with
    | completion =>
      show (0 : Word) = ∑ cell with cell < 0, scratchpadEntry current cell
      simp
    | _ => trivial
  next := by
    intro position position' scratchpads scratchpads' gathered _ acts
    refine ⟨?_, trivial⟩
    cases position with
    | map words aggregator =>
      cases words with
      | cons word words =>
        cases acts
        trivial
      | nil => cases acts
    | gather i result =>
      cases acts
      have sum : result = _ := gathered
      -- the sum so far is over the entries before this one
      by_cases inside : i.val + 1 < numClusters
      · rw [nextTurn_turn inside, AggregatePos.Gathered, sum_lt_next _ inside, sum]
      · rw [nextTurn_exit inside, AggregatePos.Gathered, sumOfTable, sum_lt_last _ inside, sum]
    | write result => cases acts
  done := by
    intro position out scratchpads scratchpads' gathered _ acts
    refine ⟨trivial, ?_⟩
    cases position with
    | map words aggregator =>
      cases words with
      | cons word words => cases acts
      | nil =>
        cases acts
        simp
    | gather i result => cases acts
    | write result =>
      cases acts
      rintro value ⟨⟩
      exact congrArg (BitVec.setWidth 64) gathered

/-! ## Whole runs -/

theorem setWidth_64_inj {word word' : Word} : word.setWidth 64 = word'.setWidth 64 ↔ word = word' := by
  refine ⟨fun same => ?_, congrArg _⟩
  have cut := congrArg (BitVec.setWidth 32) same
  simpa using cut

/-- What a completion handler sends is the sum of its message's words exactly when they sum to
    what the addresses of the scratchpads sum to. -/
theorem aggregateGlobal_sum_iff {Core Msg : Type} [DecidableEq Core] [DecidableEq Msg]
    (current : HpuHandlerTask) (scratchpads : Scratchpads)
    (events : List (MsgEvent Core Msg UdpPkt)) :
    ∀ written ∈ ((msgRun (aggregateGlobal current) scratchpads).run events).written,
      (written.value = (sumOf written.pkts).setWidth 64 ↔ sumOf written.pkts =
        ∑ i : ClusterId, (TaskFrontend.l1ScratchpadAddr current.handlerTask)[i]) := by
  have kept := (aggregateGlobal_keeps current).kept scratchpads trivial events
  intro written among
  rw [kept.written written among, setWidth_64_inj, eq_comm, sumOfTable]
  simp only [scratchpadEntry, taskInfo_scratchpadReg, Option.getD_some]

/-- One packet, whose word is 1, in a message with scratchpads at the start of their memories. -/
def onePkt : List (MsgEvent ClusterId Unit UdpPkt) :=
  .start 0 .payload () (wordPkt 1) :: stepsOf 0 2 ++
  .start 0 .completion () (wordPkt 1) :: stepsOf 0 5

theorem aggregateGlobal_sum_iff_onePkt :
    ∃ written ∈ ((msgRun (aggregateGlobal default) fun _ => 0).run onePkt).written,
      (written.value = (sumOf written.pkts).setWidth 64 ↔ sumOf written.pkts =
        ∑ i : ClusterId, (TaskFrontend.l1ScratchpadAddr (HpuHandlerTask.handlerTask default))[i]) :=
  have sent := List.head_mem (List.ne_nil_of_length_pos (by decide +kernel))
  ⟨_, sent, aggregateGlobal_sum_iff default _ onePkt _ sent⟩

/-- A word of 1 is sent as the sum of four addresses. -/
theorem aggregateGlobal_sends_addresses : ∃ events : List (MsgEvent ClusterId Unit UdpPkt),
    (msgRun (aggregateGlobal default) fun _ => 0).Admits
      (fun run event => run.Permits (aggregateGlobal default) event) events ∧
    ∃ written ∈ ((msgRun (aggregateGlobal default) fun _ => 0).run events).written,
      written.value ≠ (sumOf written.pkts).setWidth 64 :=
  ⟨onePkt, by decide +kernel, by decide +kernel⟩

end Pspin
