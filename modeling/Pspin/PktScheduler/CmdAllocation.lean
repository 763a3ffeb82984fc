import Mathlib.Data.List.Nodup
import Pspin.PktScheduler.CmdAccesses
import Pspin.PktScheduler.CmdHandles

/-! # The allocation of command ids

An id leaves the register of ids in use with the response of its command, unless a command waits
for it and takes it over.  Beside the commands in flight the observer here keeps the words the core
wrote, so that a command can be compared with the issue it stems from, and what went through the
buffer.
-/

namespace Pspin

open Clocked

/-- The issues of a core and their commands.  `regs` are the command registers by the writes that
    were granted, `issueRegs` what they were when the request on the bus was first presented, and
    `issues` that for each issue granted.  The commands are those that entered the buffer, left it
    and were answered. -/
structure CmdIssues (params : CmdFrontendParams) where
  regs : CmdRegs
  issueRegs : CmdRegs
  issues : List CmdRegs
  enqueued : List params.Cmd
  left : List params.Cmd
  answered : List params.Cmd

namespace CmdIssues

open CmdFrontend CmdHistory

variable {params : CmdFrontendParams}

def empty : CmdIssues params where
  regs := (default : params.Cmd).regs
  issueRegs := (default : params.Cmd).regs
  issues := []
  enqueued := []
  left := []
  answered := []

variable (trace : CmdTrace params) (history : CmdIssues params) (inp : CmdFrontendIn params)

/-- The registers when the request on the bus was first presented. -/
def issueRegsNow : CmdRegs := if trace.2.held.isNone then history.regs else history.issueRegs

def record : CmdIssues params where
  regs :=
    if inp.bus.req && !inp.bus.wen && trace.1.gntO inp then
      history.regs.write inp.bus.addIdx inp.bus.wdata
    else history.regs
  issueRegs := issueRegsNow trace history
  issues := history.issues ++
    if inp.bus.cmdIssued && trace.1.gntO inp then [issueRegsNow trace history] else []
  enqueued := history.enqueued ++ if trace.1.cmdBuffPush inp then [trace.1.cmdD inp] else []
  left := history.left ++ if inp.cmdReadyI && trace.1.cmdValidO then [trace.1.cmdO] else []
  answered := history.answered ++
    if inp.cmdRespValidI then
      ((sentNow trace.1 trace.2 inp).find? fun cmd => decide (cmd.localId = inp.respId)).toList
    else []

end CmdIssues

abbrev CmdIssueTrace (params : CmdFrontendParams) := CmdTrace params × CmdIssues params

def cmdIssueTrace (params : CmdFrontendParams) :
    Machine (CmdIssueTrace params) (CmdFrontendIn params) :=
  (cmdTrace params).observedBy CmdIssues.empty CmdIssues.record

/-- Taking out the first element that satisfies a predicate. -/
theorem perm_find?_eraseP {α : Type} (p : α → Bool) (list : List α) :
    ((list.find? p).toList ++ list.eraseP p).Perm list := by
  induction list with
  | nil => exact .nil
  | cons first list inductionHypothesis =>
    cases here : p first with
    | true => simp [here]
    | false =>
      simp only [List.find?_cons, List.eraseP_cons, here, cond_false]
      exact List.perm_middle.trans (inductionHypothesis.cons first)

namespace CmdTrace

variable {params : CmdFrontendParams} {trace : CmdTrace params} {inp : CmdFrontendIn params}

open CmdFrontend

/-- Every id is free or that of one command in flight. -/
theorem InFlight.unused_add_ids (inFlight : InFlight trace) :
    ((List.range params.numCmds).filter trace.1.unusedCmdIds).length + trace.ids.length =
      params.numCmds := by
  have distinct : (trace.ids.map BitVec.toNat).Nodup :=
    List.Nodup.map (fun _ _ => BitVec.eq_of_toNat_eq) inFlight.nodup
  -- the ids in flight are those whose bit is set
  have used : (trace.ids.map BitVec.toNat).Perm
      ((List.range params.numCmds).filter fun k => !trace.1.unusedCmdIds k) := by
    rw [List.perm_ext_iff_of_nodup distinct (List.nodup_range.filter _)]
    intro k
    simp only [List.mem_map, List.mem_filter, List.mem_range, unusedCmdIds, Bool.not_not,
      inFlight.marks]
    constructor
    · rintro ⟨id, inUse, rfl⟩
      refine ⟨id.isLt, ?_⟩
      rwa [BitVec.ofNat_toNat, BitVec.setWidth_eq]
    · rintro ⟨below, inUse⟩
      exact ⟨_, inUse, (BitVec.toNat_ofNat k _).trans (Nat.mod_eq_of_lt below)⟩
  have all := (List.range params.numCmds).length_eq_length_filter_add trace.1.unusedCmdIds
  rw [List.length_range] at all
  rw [← List.length_map BitVec.toNat, used.length_eq]
  exact all.symm

/-- A stalled frontend has a request on the bus that is granted when the stall ends. -/
theorem InFlight.requests_of_stalled (inFlight : InFlight trace) (holds : trace.HoldsRequest inp)
    (stalled : trace.1.stateQ ≠ .ready) :
    inp.bus.cmdIssued = true ∨ inp.bus.waitIssued = true := by
  cases state : trace.1.stateQ with
  | ready => exact absurd state stalled
  | disabled => exact .inl (inFlight.cmdIssued holds (.inl state))
  | waitingID => exact .inl (inFlight.cmdIssued holds (.inr (.inl state)))
  | waitingBuffer => exact .inl (inFlight.cmdIssued holds (.inr (.inr state)))
  | waiting => exact .inr (inFlight.waitIssued holds state).1

/-- An issue is granted in the cycle in which its command enters the buffer. -/
theorem InFlight.cmdBuffPush_eq (inFlight : InFlight trace) (holds : trace.HoldsRequest inp) :
    trace.1.cmdBuffPush inp = (inp.bus.cmdIssued && trace.1.gntO inp) := by
  cases issued : inp.bus.cmdIssued with
  | false => simp [cmdBuffPush, issued]
  | true =>
    have req : inp.bus.req = true := by
      simp only [XbarPeriphReq.cmdIssued, Bool.and_eq_true] at issued
      exact issued.1.1
    have noWait : inp.bus.waitIssued = false := by
      by_contra waits
      rw [Bool.not_eq_false] at waits
      rw [not_cmdIssued_of_waitIssued waits] at issued
      cases issued
    -- a stalled wait is offered again, so that no issue comes in between
    have busy : trace.1.stateQ ≠ .waiting := by
      intro waiting
      rw [(inFlight.waitIssued holds waiting).1] at noWait
      cases noWait
    by_cases ready : trace.1.stateD inp = .ready
    · rw [cmdBuffPush_of_stateD busy issued noWait ready]
      simp [gntO, req, ready]
    · simp [cmdBuffPush, gntO, ready]

end CmdTrace

namespace CmdIssueTrace

open CmdFrontend CmdHistory CmdTrace

variable {params : CmdFrontendParams} (trace : CmdIssueTrace params)

/-- Ids are those of the commands in flight and commands those of the issues granted. -/
structure AllocatesIds : Prop where
  marks : ∀ id, trace.1.1.freeCmdIdsQ id = true ↔ id ∈ trace.1.ids
  nodup : trace.1.ids.Nodup
  /-- No id is lost: with the free ones those in flight are all there are. -/
  kept : ((List.range params.numCmds).filter trace.1.1.unusedCmdIds).length +
    trace.1.ids.length = params.numCmds
  few : trace.1.ids.length ≤ params.numCmds
  /-- The commands that entered the buffer are those of the issues granted, in order. -/
  issued : trace.2.enqueued.map PspinCmd.regs = trace.2.issues
  once : ∀ inp, trace.1.HoldsRequest inp →
    trace.1.1.cmdBuffPush inp = (inp.bus.cmdIssued && trace.1.1.gntO inp)
  /-- None is dropped by the buffer, and those not answered are in flight. -/
  buffered : Flows trace.2.enqueued trace.2.left trace.1.1.hpuCmdFifo.contents
  accounted : (trace.2.answered ++ trace.1.outstanding).Perm trace.2.enqueued
  room : ∀ inp, trace.1.1.cmdBuffPush inp = true →
    trace.1.1.hpuCmdFifo.contents.length < params.numBufferedCmd

/-- The invariant. -/
structure Allocated : Prop where
  inFlight : InFlight trace.1
  regs : trace.1.1.cmdQ.regs = trace.2.regs
  presented : trace.1.2.held.isSome = true → trace.2.issueRegs = trace.2.regs
  issued : trace.2.enqueued.map PspinCmd.regs = trace.2.issues
  buffered : Flows trace.2.enqueued trace.2.left trace.1.1.hpuCmdFifo.contents
  accounted : (trace.2.answered ++ trace.1.outstanding).Perm trace.2.enqueued

def step (inp : CmdFrontendIn params) : CmdIssueTrace params :=
  (trace.1.step inp, CmdIssues.record trace.1 trace.2 inp)

variable {trace} {inp : CmdFrontendIn params}

theorem allocated_reset : Allocated (cmdIssueTrace params).reset where
  inFlight := inFlight_reset
  regs := rfl
  presented held := by cases held
  issued := rfl
  buffered := .nil
  accounted := .nil

/-- A write to the wait register changes none of the command registers. -/
theorem write_wait {bus : XbarPeriphReq} (waits : bus.waitIssued = true) (regs : CmdRegs) :
    regs.write bus.addIdx bus.wdata = regs := by
  simp only [XbarPeriphReq.waitIssued, Bool.and_eq_true] at waits
  have index : bus.addIdx = 1 := of_decide_eq_true waits.1.2
  simp [CmdRegs.write, index]

namespace Allocated

variable (allocated : trace.Allocated)

include allocated

/-- The registers are those of the time when the issue on the bus was presented. -/
theorem issueRegsNow_eq : CmdIssues.issueRegsNow trace.1 trace.2 = trace.2.regs := by
  unfold CmdIssues.issueRegsNow
  cases held : trace.1.2.held with
  | none => rfl
  | some bus => exact allocated.presented (by simp [held])

section Step

variable (holds : trace.1.HoldsRequest inp)

include holds

/-- The registers change with the writes that are granted. -/
theorem regs_step : (trace.1.1.cmdD inp).regs = (CmdIssues.record trace.1 trace.2 inp).regs := by
  by_cases quiet : inp.bus.req = false ∨ inp.bus.wen = true
  · have none : (inp.bus.req && !inp.bus.wen && trace.1.1.gntO inp) = false := by
      rcases quiet with idle | read
      · simp [idle]
      · simp [read]
    rw [regs_cmdD_of_not_write quiet, allocated.regs]
    simp [CmdIssues.record, none]
  · simp only [not_or, Bool.not_eq_false, Bool.not_eq_true] at quiet
    have noIssue : inp.bus.cmdIssued = false := by simp [XbarPeriphReq.cmdIssued, quiet.2]
    by_cases ready : trace.1.1.stateQ = .ready
    · rw [regs_cmdD_of_write ready quiet.1 quiet.2, allocated.regs]
      cases waits : inp.bus.waitIssued with
      | true => simp [CmdIssues.record, write_wait waits]
      | false =>
        have granted : trace.1.1.gntO inp = true := by
          simp [gntO, quiet.1, stateD_of_not_issued ready noIssue waits]
        simp [CmdIssues.record, quiet, granted]
    · -- what stalls and is a write is a wait
      have waits := (allocated.inFlight.requests_of_stalled holds ready).resolve_left (by simp [noIssue])
      have kept : (trace.1.1.cmdD inp).regs = trace.1.1.cmdQ.regs := by
        simp [PspinCmd.regs, cmdD, kindD, definesType, definesWord, ready]
      rw [kept, allocated.regs]
      simp [CmdIssues.record, write_wait waits]

theorem issued_step : (trace.step inp).2.enqueued.map PspinCmd.regs = (trace.step inp).2.issues := by
  have enqueued : (trace.step inp).2.enqueued = trace.2.enqueued ++
    if trace.1.1.cmdBuffPush inp then [trace.1.1.cmdD inp] else [] := rfl
  have issues : (trace.step inp).2.issues = trace.2.issues ++
    if inp.bus.cmdIssued && trace.1.1.gntO inp then
      [CmdIssues.issueRegsNow trace.1 trace.2] else [] := rfl
  rw [enqueued, issues, List.map_append, allocated.issued, allocated.issueRegsNow_eq,
    ← allocated.inFlight.cmdBuffPush_eq holds]
  congr 1
  cases pushes : trace.1.1.cmdBuffPush inp with
  | false => rfl
  | true =>
    have read : inp.bus.wen = true := by
      simp only [cmdBuffPush, XbarPeriphReq.cmdIssued, Bool.and_eq_true] at pushes
      exact pushes.1.2.2
    simp [regs_cmdD_of_not_write (.inr read), allocated.regs]

end Step

theorem presented_step (held : (trace.step inp).1.2.held.isSome = true) :
    (trace.step inp).2.issueRegs = (trace.step inp).2.regs := by
  have refused : trace.1.1.gntO inp = false := by
    have now : (trace.step inp).1.2.held =
      if inp.bus.req && !trace.1.1.gntO inp then some inp.bus else none := rfl
    rw [now] at held
    cases granted : trace.1.1.gntO inp with
    | false => rfl
    | true => simp [granted] at held
  have kept : (trace.step inp).2.regs = trace.2.regs := by
    simp [CmdIssueTrace.step, CmdIssues.record, refused]
  rw [kept]
  exact allocated.issueRegsNow_eq

theorem buffered_step : Flows (trace.step inp).2.enqueued (trace.step inp).2.left
    (trace.step inp).1.1.hpuCmdFifo.contents := by
  refine FifoV3.flows_step allocated.buffered (fun pushes => ?_) (fun sends => ?_)
  · simp only [cmdBuffPush, cmdBuffFull, Bool.and_eq_true, Bool.not_eq_true'] at pushes
    exact pushes.1.1
  · rw [← FifoV3.emptyO_eq_false]
    simp only [cmdValidO, Bool.and_eq_true, Bool.not_eq_true'] at sends
    exact sends.2

/-- The command that a response answers is no longer in flight, and no other. -/
theorem accounted_step :
    ((trace.step inp).2.answered ++ (trace.step inp).1.outstanding).Perm
      (trace.step inp).2.enqueued := by
  have answers : ((if inp.cmdRespValidI then
      ((sentNow trace.1.1 trace.1.2 inp).find? fun cmd => decide (cmd.localId = inp.respId)).toList
      else []) ++ afterResp inp (sentNow trace.1.1 trace.1.2 inp)).Perm
        (sentNow trace.1.1 trace.1.2 inp) := by
    unfold afterResp
    cases inp.cmdRespValidI with
    | false => exact .refl _
    | true => exact perm_find?_eraseP _ _
  -- what was sent splits into the command answered and the others
  have outstanding : (trace.step inp).1.outstanding = _ := outstanding_eq
  have before := allocated.accounted
  rw [← sentNow_append trace.1 inp] at before
  have balanced := (((answers.append_right _).append_left _).trans before).append_right
    (if trace.1.1.cmdBuffPush inp then [trace.1.1.cmdD inp] else [])
  rw [outstanding]
  simpa only [CmdIssueTrace.step, CmdIssues.record, List.append_assoc] using balanced

theorem step (holds : trace.1.HoldsRequest inp) (permits : trace.1.PermitsResp inp) :
    (trace.step inp).Allocated where
  inFlight := allocated.inFlight.step holds permits
  regs := allocated.regs_step holds
  presented := allocated.presented_step
  issued := allocated.issued_step holds
  buffered := allocated.buffered_step
  accounted := allocated.accounted_step

theorem allocatesIds : trace.AllocatesIds where
  marks := allocated.inFlight.marks
  nodup := allocated.inFlight.nodup
  kept := allocated.inFlight.unused_add_ids
  few := by
    rw [← allocated.inFlight.unused_add_ids]
    exact Nat.le_add_left _ _
  issued := allocated.issued
  once _ holds := allocated.inFlight.cmdBuffPush_eq holds
  buffered := allocated.buffered
  accounted := allocated.accounted
  room inp pushes := by
    simp only [cmdBuffPush, cmdBuffFull, Bool.and_eq_true, Bool.not_eq_true'] at pushes
    exact FifoV3.fullO_eq_false.mp pushes.1.1

end Allocated

/-- Allocation: in every run in which the core holds its requests and responses are for sent
    commands, ids and commands in flight belong together, and each issue granted enters one
    command made of the words written before it. -/
theorem cmdFrontend_allocates (params : CmdFrontendParams) (inputs : List (CmdFrontendIn params))
    (permitted : (cmdIssueTrace params).Admits
      (fun trace inp => trace.1.HoldsRequest inp ∧ trace.1.PermitsResp inp) inputs) :
    AllocatesIds ((cmdIssueTrace params).run inputs) :=
  (permitted.invariant Allocated allocated_reset
    fun _ _ allocated permits => allocated.step permits.1 permits.2).allocatesIds

/-- With two ids and room for one command: an issue stalls while commands are disabled, the next
    one for an id and then for room, and a wait for a response. -/
theorem cmdFrontend_allocates_stalled :
    let params : CmdFrontendParams := ⟨8, 0, 0, 1, 1, by decide, by decide⟩
    let issue := busCycle params 0 0
    let wait := busCycle params 4 1
    let blocked := { issue with cmdReadyI := false }
    let inputs := [issue, { issue with disabledI := true }, issue, blocked,
      { blocked with cmdRespValidI := true }, issue, issue, { issue with bus := default }, wait,
      { wait with cmdRespValidI := true, cmdRespI := ⟨⟨0, 0, 1⟩⟩ }]
    let trace := (cmdIssueTrace params).run inputs
    (trace.1.ids = [0] ∧ trace.2.issues.length = 3 ∧ trace.1.1.stateQ = .ready) ∧
      AllocatesIds trace :=
  ⟨by decide +kernel, cmdFrontend_allocates _ _ (by decide +kernel)⟩

end CmdIssueTrace

end Pspin
