import Pspin.PktScheduler.CmdInFlight

/-! # Command handles

The word an issue returns is the first free id of the cycle in which the issue was
first presented; the id of the command is chosen when the stall ends.  Where the two
agree the word is the handle of the command, and a wait for it is granted only after
the response of the command.  They need not agree: an id can be freed while commands
are disabled, and a command that waits for an id gets the one that is answered.
-/

namespace Pspin

open Clocked

namespace CmdTrace

open CmdFrontend CmdHistory

variable {params : CmdFrontendParams}

/-- What an issue returns to be waited for. -/
def handle (cmd : params.Cmd) : BitVec 32 := cmd.localId.setWidth 32

/-- The id chosen when a stall ends is the one that was free first when the issue was
    presented. -/
def KeepsIdx (trace : CmdTrace params) (inp : CmdFrontendIn params) : Prop :=
  (trace.1.stateQ = .disabled → inp.disabledI = false → trace.1.noFreeCmdIds = false →
      trace.1.cmdIdx = trace.2.issueIdx) ∧
    (trace.1.stateQ = .waitingID → inp.cmdRespValidI = true → inp.respId = trace.2.issueIdx)

instance (trace : CmdTrace params) (inp : CmdFrontendIn params) : Decidable (trace.KeepsIdx inp) :=
  inferInstanceAs (Decidable ((_ → _ → _ → _) ∧ (_ → _ → _)))

/-- Every issue returns the handle of the command it entered, in the cycle after it was
    granted, and no wait for a handle is granted before its command is answered. -/
structure Handles (trace : CmdTrace params) : Prop where
  returned : ∀ entry ∈ trace.2.returned, entry.1 = handle entry.2
  answers : ∀ cmd, trace.2.entered = some cmd →
    trace.1.rValidO = true ∧ trace.1.rRdataO = handle cmd
  early : trace.2.early = []

/-- What the induction carries: the word on show is that of the issue that stalls. -/
structure Showing (trace : CmdTrace params) : Prop where
  inFlight : InFlight trace
  idle : trace.1.stateQ = .ready → trace.2.held = none
  shown : trace.1.stateQ = .disabled ∨ trace.1.stateQ = .waitingID ∨
    trace.1.stateQ = .waitingBuffer → trace.1.rdataQ = trace.2.issueIdx.setWidth 32
  chosen : trace.1.stateQ = .waitingBuffer → trace.1.cmdQ.localId = trace.2.issueIdx
  answers : ∀ cmd, trace.2.entered = some cmd →
    trace.1.rValidO = true ∧ trace.1.rRdataO = handle cmd ∧ cmd ∈ trace.outstanding
  returned : ∀ entry ∈ trace.2.returned, entry.1 = handle entry.2
  handed : ∀ entry ∈ trace.2.handed, entry.1 = handle entry.2 ∧ entry.2 ∈ trace.outstanding
  early : trace.2.early = []

theorem Showing.handles {trace : CmdTrace params} (showing : Showing trace) : Handles trace where
  returned := showing.returned
  answers cmd entered := ⟨(showing.answers cmd entered).1, (showing.answers cmd entered).2.1⟩
  early := showing.early

theorem showing_reset : Showing (cmdTrace params).reset where
  inFlight := inFlight_reset
  idle _ := rfl
  shown states := by rcases states with ⟨⟨⟩⟩ | ⟨⟨⟩⟩ | ⟨⟨⟩⟩
  chosen state := by cases state
  answers _ none := by cases none
  returned _ none := by cases none
  handed _ none := by cases none
  early := rfl

/-- A handle names its command: waiting for it is waiting for the command's id. -/
theorem wtCmdIdx_handle {inp : CmdFrontendIn params} {cmd : params.Cmd}
    (waits : handle cmd = inp.bus.wdata) : inp.wtCmdIdx = cmd.localId := by
  rw [CmdFrontendIn.wtCmdIdx, ← waits, handle]
  exact BitVec.setWidth_setWidth_of_le _ params.idBits_le |>.trans (BitVec.setWidth_eq _)

section Step

variable {trace : CmdTrace params} {inp : CmdFrontendIn params}

/-! ## The word and the id of an issue -/

theorem Showing.issueIdxNow (showing : Showing trace)
    (stalls : trace.1.stateQ = .disabled ∨ trace.1.stateQ = .waitingID ∨
      trace.1.stateQ = .waitingBuffer) : issueIdxNow trace.1 trace.2 = trace.2.issueIdx := by
  obtain ⟨bus, held, -⟩ := showing.inFlight.issuing stalls
  rw [CmdHistory.issueIdxNow, held]
  rfl

theorem not_waiting (showing : Showing trace) (holds : trace.HoldsRequest inp)
    (issued : inp.bus.cmdIssued = true) : trace.1.stateQ ≠ .waiting := by
  intro waiting
  rw [not_cmdIssued_of_waitIssued (showing.inFlight.waitIssued holds waiting).1] at issued
  cases issued

/-- While an issue is on the bus, the word on show is its first free id. -/
theorem rdataD_eq (showing : Showing trace) (holds : trace.HoldsRequest inp)
    (issued : inp.bus.cmdIssued = true) :
    trace.1.rdataD inp = (issueIdxNow trace.1 trace.2).setWidth 32 := by
  cases state : trace.1.stateQ with
  | ready =>
    have test : inp.bus.testIssued = false := by
      simp only [XbarPeriphReq.cmdIssued, Bool.and_eq_true, decide_eq_true_eq] at issued
      simp [XbarPeriphReq.testIssued, issued.1.2, XbarPeriphReq.addIssue, XbarPeriphReq.addTest]
    have presented : issueIdxNow trace.1 trace.2 = trace.1.cmdIdx := by
      rw [issueIdxNow, showing.idle state]
      rfl
    simp [rdataD, state, test, issued, presented]
  | waiting => exact absurd state (not_waiting showing holds issued)
  | disabled =>
    rw [showing.issueIdxNow (.inl state), ← showing.shown (.inl state)]
    simp [rdataD, state]
  | waitingID =>
    rw [showing.issueIdxNow (.inr (.inl state)), ← showing.shown (.inr (.inl state))]
    simp [rdataD, state]
  | waitingBuffer =>
    rw [showing.issueIdxNow (.inr (.inr state)), ← showing.shown (.inr (.inr state))]
    simp [rdataD, state]

/-- The id of a command that enters, or waits for room, is the first free id of its issue. -/
theorem localCmdIdD_eq (showing : Showing trace) (holds : trace.HoldsRequest inp)
    (keeps : trace.KeepsIdx inp) (issued : inp.bus.cmdIssued = true)
    (chosen : trace.1.stateD inp = .ready ∨ trace.1.stateD inp = .waitingBuffer) :
    trace.1.localCmdIdD inp = issueIdxNow trace.1 trace.2 := by
  cases state : trace.1.stateQ with
  | ready =>
    have presented : issueIdxNow trace.1 trace.2 = trace.1.cmdIdx := by
      rw [issueIdxNow, showing.idle state]
      rfl
    -- a wait is not an issue
    have waits : inp.bus.waitIssued = false := by
      by_contra waits
      rw [Bool.not_eq_false] at waits
      rw [not_cmdIssued_of_waitIssued waits] at issued
      cases issued
    have assigns : trace.1.assignId inp = true := by
      simp only [stateD, state, waits, issued, Bool.false_and, Bool.false_eq_true, if_false,
        if_true] at chosen
      cases disabled : inp.disabledI <;> cases none : trace.1.noFreeCmdIds <;>
        simp [disabled, none] at chosen
      simp [assignId, state, issued, disabled, none]
    simp [localCmdIdD, state, assigns, presented]
  -- in the other states the request has been latched
  | disabled =>
    have enabled : inp.disabledI = false ∧ trace.1.noFreeCmdIds = false := by
      simp only [stateD, state] at chosen
      cases disabled : inp.disabledI <;> cases none : trace.1.noFreeCmdIds <;>
        simp [disabled, none] at chosen
      exact ⟨rfl, rfl⟩
    have assigns : trace.1.assignId inp = true := by
      simp [assignId, state, enabled.1, enabled.2]
    rw [showing.issueIdxNow (.inl state), ← keeps.1 state enabled.1 enabled.2]
    simp [localCmdIdD, state, assigns]
  | waitingID =>
    have answers : inp.cmdRespValidI = true := by
      by_contra quiet
      simp [stateD, state, quiet] at chosen
    rw [showing.issueIdxNow (.inr (.inl state)), ← keeps.2 state answers]
    simp [localCmdIdD, state, answers]
  | waitingBuffer =>
    rw [showing.issueIdxNow (.inr (.inr state)), ← showing.chosen state]
    simp [localCmdIdD, assignId, state, PspinCmd.localId]
  | waiting => exact absurd state (not_waiting showing holds issued)

/-- An issue is granted when its command enters the buffer. -/
theorem push_of_granted (showing : Showing trace) (holds : trace.HoldsRequest inp)
    (issued : inp.bus.cmdIssued = true) (granted : trace.1.stateD inp = .ready) :
    trace.1.cmdBuffPush inp = true := by
  have room : trace.1.cmdBuffFull = false := by
    by_contra full
    rw [Bool.not_eq_false] at full
    cases state : trace.1.stateQ with
    | waiting => exact absurd state (not_waiting showing holds issued)
    | _ =>
      simp only [stateD, state, issued, full] at granted
      split_ifs at granted
  simp [cmdBuffPush, room, issued, granted]

/-! ## Commands that stay unanswered -/

theorem outstanding_eq : (trace.step inp).outstanding = afterResp inp (sentNow trace.1 trace.2 inp) ++
    ((if inp.cmdReadyI && trace.1.cmdValidO then trace.1.hpuCmdFifo.contents.tail
      else trace.1.hpuCmdFifo.contents) ++
      if trace.1.cmdBuffPush inp then [trace.1.cmdD inp] else []) := by
  rw [outstanding, contents_step]
  rfl

theorem outstanding_remains {cmd : params.Cmd} (member : cmd ∈ trace.outstanding)
    (remains : ¬(inp.cmdRespValidI = true ∧ cmd.localId = inp.respId)) :
    cmd ∈ (trace.step inp).outstanding := by
  rw [← sentNow_append trace inp, List.mem_append] at member
  rw [outstanding_eq]
  rcases member with sent | buffered
  · apply List.mem_append_left
    unfold afterResp
    split
    next answers =>
      refine (List.mem_eraseP_of_neg ?_).mpr sent
      rw [decide_eq_true_eq]
      exact fun same => remains ⟨answers, same⟩
    next => exact sent
  · exact List.mem_append_right _ (List.mem_append_left _ buffered)

/-- The words handed out are handles of commands not answered before this cycle. -/
theorem handedNow_spec (showing : Showing trace) {entry : BitVec 32 × params.Cmd}
    (member : entry ∈ handedNow trace.1 trace.2 inp) :
    entry.1 = handle entry.2 ∧ entry.2 ∈ trace.outstanding ∧
      ¬(inp.cmdRespValidI = true ∧ entry.2.localId = inp.respId) := by
  obtain ⟨known, remains⟩ := List.mem_filter.mp member
  replace remains : ¬(inp.cmdRespValidI = true ∧ entry.2.localId = inp.respId) := by
    rintro ⟨answers, same⟩
    simp [answers, same] at remains
  rcases List.mem_append.mp known with before | now
  · exact ⟨(showing.handed entry before).1, (showing.handed entry before).2, remains⟩
  · simp only [returnedNow, Option.mem_toList, Option.map_eq_some_iff] at now
    obtain ⟨cmd, entered, rfl⟩ := now
    obtain ⟨-, shown, member⟩ := showing.answers cmd entered
    exact ⟨shown, member, remains⟩

/-- A wait is granted when the id it names is not in flight or answered in this cycle. -/
theorem wait_granted (showing : Showing trace) (holds : trace.HoldsRequest inp)
    (waits : inp.bus.waitIssued = true) (granted : trace.1.stateD inp = .ready) :
    trace.1.freeCmdIdsQ inp.wtCmdIdx = false ∨
      (inp.cmdRespValidI = true ∧ inp.respId = inp.wtCmdIdx) := by
  have issued := not_cmdIssued_of_waitIssued waits
  cases state : trace.1.stateQ with
  | ready =>
    have index : trace.1.wtCmdIdxD inp = inp.wtCmdIdx := by simp [wtCmdIdxD, waits]
    have finished : trace.1.wtCmdFinished inp = true := by
      by_contra unfinished
      rw [Bool.not_eq_true] at unfinished
      simp [stateD, state, waits, unfinished] at granted
    simpa [wtCmdFinished, index] using finished
  | waiting =>
    have index := (showing.inFlight.waitIssued holds state).2
    simp only [stateD, state] at granted
    split at granted
    next answered => exact .inr (by simpa [index] using answered)
    next => cases granted
  | disabled =>
    rw [showing.inFlight.cmdIssued holds (.inl state)] at issued
    cases issued
  | waitingID =>
    rw [showing.inFlight.cmdIssued holds (.inr (.inl state))] at issued
    cases issued
  | waitingBuffer =>
    rw [showing.inFlight.cmdIssued holds (.inr (.inr state))] at issued
    cases issued

theorem not_early (showing : Showing trace) (holds : trace.HoldsRequest inp)
    (waits : inp.bus.waitIssued = true) (granted : trace.1.stateD inp = .ready)
    {entry : BitVec 32 × params.Cmd} (member : entry ∈ handedNow trace.1 trace.2 inp) :
    entry.1 ≠ inp.bus.wdata := by
  intro word
  obtain ⟨shown, inUse, remains⟩ := handedNow_spec showing member
  have id : inp.wtCmdIdx = entry.2.localId := wtCmdIdx_handle (shown ▸ word)
  have set : trace.1.freeCmdIdsQ entry.2.localId = true :=
    (showing.inFlight.marks _).mpr (List.mem_append_left _ (List.mem_map_of_mem inUse))
  rcases wait_granted showing holds waits granted with free | ⟨answers, same⟩
  · rw [id, set] at free
    cases free
  · exact remains ⟨answers, by rw [same, id]⟩

theorem Showing.step (showing : Showing trace) (holds : trace.HoldsRequest inp)
    (permits : trace.PermitsResp inp) (keeps : trace.KeepsIdx inp) : Showing (trace.step inp) where
  inFlight := showing.inFlight.step holds permits
  idle state := by
    have next : trace.1.stateD inp = .ready := state
    show (if inp.bus.req && !trace.1.gntO inp then some inp.bus else none) = none
    cases requests : inp.bus.req <;> simp [gntO, requests, next]
  shown stalls := rdataD_eq showing holds (stalled_issue showing.inFlight holds stalls)
  chosen room :=
    localCmdIdD_eq showing holds keeps (stalled_issue showing.inFlight holds (.inr (.inr room)))
      (.inr room)
  answers cmd entered := by
    have recorded : (trace.step inp).2.entered =
      if inp.bus.cmdIssued && trace.1.gntO inp then some (trace.1.cmdD inp) else none := rfl
    rw [recorded] at entered
    split at entered
    next grants =>
      obtain ⟨issued, gnt⟩ := Bool.and_eq_true_iff.mp grants
      have granted : trace.1.stateD inp = .ready := by
        simp only [gntO, Bool.and_eq_true, decide_eq_true_eq] at gnt
        exact gnt.2
      rw [← Option.some_inj.mp entered]
      -- the handle that the core reads is the id of the command that enters
      refine ⟨gnt, ?_, ?_⟩
      · have id : handle (trace.1.cmdD inp) = (trace.1.localCmdIdD inp).setWidth 32 := rfl
        rw [id, localCmdIdD_eq showing holds keeps issued (.inl granted)]
        exact rdataD_eq showing holds issued
      · rw [outstanding_eq, push_of_granted showing holds issued granted]
        simp
    next => cases entered
  returned entry member := by
    rcases List.mem_append.mp member with before | now
    · exact showing.returned entry before
    · simp only [returnedNow, Option.mem_toList, Option.map_eq_some_iff] at now
      obtain ⟨cmd, entered, rfl⟩ := now
      exact (showing.answers cmd entered).2.1
  handed entry member := by
    obtain ⟨shown, inUse, remains⟩ := handedNow_spec showing member
    exact ⟨shown, outstanding_remains inUse remains⟩
  early := by
    have recorded : (trace.step inp).2.early = trace.2.early ++
      if inp.bus.waitIssued && trace.1.gntO inp then
        (handedNow trace.1 trace.2 inp).filter fun handle => decide (handle.1 = inp.bus.wdata)
      else [] := rfl
    rw [recorded, showing.early, List.nil_append]
    split
    next grants =>
      obtain ⟨waits, gnt⟩ := Bool.and_eq_true_iff.mp grants
      simp only [gntO, Bool.and_eq_true, decide_eq_true_eq] at gnt
      rw [List.filter_eq_nil_iff]
      intro entry member
      rw [decide_eq_true_eq]
      exact not_early showing holds waits gnt.2 member
    next => rfl

end Step

/-- Handles: in every run in which the core holds its requests, responses are for sent
    commands and ids chosen at the end of a stall are those shown when it began, every
    issue returns the handle of its command and no wait is granted early. -/
theorem cmdFrontend_handles (params : CmdFrontendParams) (inputs : List (CmdFrontendIn params))
    (permitted : (cmdTrace params).Admits
      (fun trace inp => (trace.HoldsRequest inp ∧ trace.PermitsResp inp) ∧ trace.KeepsIdx inp)
      inputs) :
    Handles ((cmdTrace params).run inputs) :=
  (permitted.invariant Showing showing_reset
    fun _ _ showing permits => showing.step permits.1.1 permits.1.2 permits.2).handles

/-- A cycle in which the core issues a command, or waits for the word it drives, and the
    command unit takes what is sent. -/
def busCycle (params : CmdFrontendParams) (add wdata : BitVec 32) : CmdFrontendIn params :=
  ⟨⟨true, add, decide (add = 0), wdata⟩, false, default, false, true⟩

/-- An issue stalls while commands are disabled and gets the id it was shown; the wait
    for it is granted with its response. -/
theorem cmdFrontend_handles_stalled :
    let params : CmdFrontendParams := ⟨8, 0, 0, 2, 4, by decide, by decide⟩
    let issue := busCycle params 0 0
    let wait := busCycle params 4 1
    let answer : params.CmdResp := ⟨⟨0, 0, 1⟩⟩
    let inputs := [issue, { issue with disabledI := true }, issue,
      { issue with bus := default }, wait, { wait with cmdRespValidI := true, cmdRespI := answer }]
    let trace := (cmdTrace params).run inputs
    (trace.2.returned.map Prod.fst = [0, 1] ∧ trace.2.held = none) ∧ Handles trace :=
  ⟨by decide +kernel, cmdFrontend_handles _ _ (by decide +kernel)⟩

/-- A second command is issued while commands are disabled and the first is in flight; it
    returns 1 but gets id 0, which the first command's response has freed, and a wait
    for 1 is granted while it is in flight. -/
theorem cmdFrontend_waits_early :
    let params : CmdFrontendParams := ⟨8, 0, 0, 2, 4, by decide, by decide⟩
    let issue := busCycle params 0 0
    let quiet := { issue with bus := default }
    let wait := busCycle params 4 1
    let inputs := [issue, quiet, { issue with disabledI := true },
      { issue with disabledI := true, cmdRespValidI := true }, issue, quiet, wait]
    (cmdTrace params).Admits (fun trace inp => trace.HoldsRequest inp ∧ trace.PermitsResp inp)
        inputs ∧
      ¬Handles ((cmdTrace params).run inputs) := by
  refine ⟨by decide +kernel, fun handles => ?_⟩
  have early := handles.early
  revert early
  decide +kernel

end CmdTrace

end Pspin
