import Pspin.Clocked.Flow
import Pspin.PktScheduler.CmdFrontend

/-! # The commands in flight

A history of a command frontend records the commands sent and not answered, the
request the core has to hold, and what was returned for each issue.  The ids marked
in use are those of the commands in the buffer, sent and not answered, and of the
one that waits for room in the buffer; no two of them share an id.
-/

namespace Pspin

open Clocked

/-- What crossed the interfaces of a command frontend.  `held` is the request that was
    not granted, `issueIdx` the first free id when it was first presented.  `entered`
    is the command of the issue granted in the last cycle, `returned` the words the
    core got for its issues with their commands, `handed` those not answered yet.
    `early` are commands not answered when a wait for their word was granted. -/
structure CmdHistory (params : CmdFrontendParams) where
  held : Option XbarPeriphReq
  sent : List params.Cmd
  issueIdx : params.LocalCmdId
  entered : Option params.Cmd
  returned : List (BitVec 32 × params.Cmd)
  handed : List (BitVec 32 × params.Cmd)
  early : List (BitVec 32 × params.Cmd)

/-- The id of a command in its HPU. -/
def PspinCmd.localId {numCores idBits : Nat} (cmd : PspinCmd numCores idBits) : BitVec idBits :=
  cmd.cmdId.localCmdId

namespace CmdHistory

open CmdFrontend

variable {params : CmdFrontendParams}

def empty : CmdHistory params where
  held := none
  sent := []
  issueIdx := 0
  entered := none
  returned := []
  handed := []
  early := []

variable (frontend : CmdFrontend params) (history : CmdHistory params) (inp : CmdFrontendIn params)

/-- The commands that were sent before the end of a cycle and were not answered before it. -/
def sentNow : List params.Cmd :=
  history.sent ++ if inp.cmdReadyI && frontend.cmdValidO then [frontend.cmdO] else []

/-- A response answers the command with its id. -/
def afterResp (inp : CmdFrontendIn params) (cmds : List params.Cmd) : List params.Cmd :=
  if inp.cmdRespValidI then cmds.eraseP fun cmd => decide (cmd.localId = inp.respId) else cmds

/-- The word on the bus and the command of the issue granted in the last cycle. -/
def returnedNow : List (BitVec 32 × params.Cmd) :=
  (history.entered.map fun cmd => (frontend.rRdataO, cmd)).toList

/-- The words handed out whose commands are not answered by the end of a cycle. -/
def handedNow : List (BitVec 32 × params.Cmd) :=
  (history.handed ++ returnedNow frontend history).filter fun handle =>
    !(inp.cmdRespValidI && decide (handle.2.localId = inp.respId))

/-- The first free id when the request on the bus was first presented. -/
def issueIdxNow : params.LocalCmdId :=
  if history.held.isNone then frontend.cmdIdx else history.issueIdx

def record : CmdHistory params where
  held := if inp.bus.req && !frontend.gntO inp then some inp.bus else none
  sent := afterResp inp (sentNow frontend history inp)
  issueIdx := issueIdxNow frontend history
  entered := if inp.bus.cmdIssued && frontend.gntO inp then some (frontend.cmdD inp) else none
  returned := history.returned ++ returnedNow frontend history
  handed := handedNow frontend history inp
  early := history.early ++
    if inp.bus.waitIssued && frontend.gntO inp then
      (handedNow frontend history inp).filter fun handle => decide (handle.1 = inp.bus.wdata)
    else []

end CmdHistory

abbrev CmdTrace (params : CmdFrontendParams) := CmdFrontend params × CmdHistory params

def cmdTrace (params : CmdFrontendParams) : Machine (CmdTrace params) (CmdFrontendIn params) :=
  (cmdFrontend params).observedBy CmdHistory.empty CmdHistory.record

namespace CmdTrace

open CmdFrontend CmdHistory

variable {params : CmdFrontendParams}

def step (trace : CmdTrace params) (inp : CmdFrontendIn params) : CmdTrace params :=
  (trace.1.step inp, record trace.1 trace.2 inp)

/-- The core holds a request until it is granted. -/
def HoldsRequest (trace : CmdTrace params) (inp : CmdFrontendIn params) : Prop :=
  trace.2.held = none ∨ trace.2.held = some inp.bus

instance (trace : CmdTrace params) (inp : CmdFrontendIn params) :
    Decidable (trace.HoldsRequest inp) :=
  inferInstanceAs (Decidable (_ ∨ _))

/-- A response is for a command that was sent and not answered. -/
def PermitsResp (trace : CmdTrace params) (inp : CmdFrontendIn params) : Prop :=
  inp.cmdRespValidI = true →
    (sentNow trace.1 trace.2 inp).any (fun cmd => decide (cmd.localId = inp.respId)) = true

instance (trace : CmdTrace params) (inp : CmdFrontendIn params) :
    Decidable (trace.PermitsResp inp) :=
  inferInstanceAs (Decidable (_ → _))

/-- The commands entered into the buffer and not answered. -/
def outstanding (trace : CmdTrace params) : List params.Cmd :=
  trace.2.sent ++ trace.1.hpuCmdFifo.contents

/-- The id of a command that waits for room in the buffer. -/
def pendingId (frontend : CmdFrontend params) : List params.LocalCmdId :=
  if frontend.stateQ = .waitingBuffer then [frontend.cmdQ.localId] else []

def ids (trace : CmdTrace params) : List params.LocalCmdId :=
  trace.outstanding.map PspinCmd.localId ++ pendingId trace.1

structure InFlight (trace : CmdTrace params) : Prop where
  nodup : trace.ids.Nodup
  marks : ∀ id, trace.1.freeCmdIdsQ id = true ↔ id ∈ trace.ids
  issuing : trace.1.stateQ = .disabled ∨ trace.1.stateQ = .waitingID ∨
    trace.1.stateQ = .waitingBuffer → ∃ bus, trace.2.held = some bus ∧ bus.cmdIssued = true
  waiting : trace.1.stateQ = .waiting → ∃ bus, trace.2.held = some bus ∧
    bus.waitIssued = true ∧ bus.wdata.setWidth _ = trace.1.wtCmdIdxQ

theorem inFlight_reset : InFlight (cmdTrace params).reset where
  nodup := .nil
  marks id := by
    constructor
    · rintro ⟨⟩
    · intro member
      cases member
  issuing states := by rcases states with ⟨⟨⟩⟩ | ⟨⟨⟩⟩ | ⟨⟨⟩⟩
  waiting state := by cases state

/-- The register of ids in use is zero if and only if nothing is in flight. -/
theorem InFlight.noPendingCmdO_iff {trace : CmdTrace params} (inFlight : InFlight trace) :
    trace.1.noPendingCmdO = true ↔ trace.ids = [] := by
  rw [CmdFrontend.noPendingCmdO_eq_true, List.eq_nil_iff_forall_not_mem]
  simp only [← inFlight.marks, Bool.not_eq_true]

section Step

variable {trace : CmdTrace params} {inp : CmdFrontendIn params}

/-! ## Requests that are held -/

/-- A stalled issue is on the bus still. -/
theorem InFlight.cmdIssued (inFlight : InFlight trace) (holds : trace.HoldsRequest inp)
    (state : trace.1.stateQ = .disabled ∨ trace.1.stateQ = .waitingID ∨
      trace.1.stateQ = .waitingBuffer) : inp.bus.cmdIssued = true := by
  obtain ⟨bus, held, issues⟩ := inFlight.issuing state
  rcases holds with none | same
  · rw [held] at none
    cases none
  · rw [held, Option.some_inj] at same
    exact same ▸ issues

/-- A stalled wait is on the bus still, for the same id. -/
theorem InFlight.waitIssued (inFlight : InFlight trace) (holds : trace.HoldsRequest inp)
    (state : trace.1.stateQ = .waiting) :
    inp.bus.waitIssued = true ∧ inp.wtCmdIdx = trace.1.wtCmdIdxQ := by
  obtain ⟨bus, held, waits, index⟩ := inFlight.waiting state
  rcases holds with none | same
  · rw [held] at none
    cases none
  · rw [held, Option.some_inj] at same
    subst same
    exact ⟨waits, index⟩

theorem not_cmdIssued_of_waitIssued {bus : XbarPeriphReq} (waits : bus.waitIssued = true) :
    bus.cmdIssued = false := by
  simp only [XbarPeriphReq.waitIssued, Bool.and_eq_true, Bool.not_eq_true'] at waits
  simp [XbarPeriphReq.cmdIssued, waits.2]

/-! ## The ids after a cycle -/

/-- The ids in flight after the response of a cycle. -/
def answeredIds (trace : CmdTrace params) (inp : CmdFrontendIn params) : List params.LocalCmdId :=
  if inp.cmdRespValidI then (trace.outstanding.map PspinCmd.localId).erase inp.respId
  else trace.outstanding.map PspinCmd.localId

theorem map_afterResp (cmds : List params.Cmd) : (afterResp inp cmds).map PspinCmd.localId =
    if inp.cmdRespValidI then (cmds.map PspinCmd.localId).erase inp.respId
    else cmds.map PspinCmd.localId := by
  unfold afterResp
  split
  · rw [List.erase_eq_eraseP, List.eraseP_map]
    congr 2
    funext cmd
    simp [Bool.beq_eq_decide_eq, eq_comm]
  · rfl

theorem contents_step : (trace.step inp).1.hpuCmdFifo.contents =
    (if inp.cmdReadyI && trace.1.cmdValidO then trace.1.hpuCmdFifo.contents.tail
      else trace.1.hpuCmdFifo.contents) ++
      if trace.1.cmdBuffPush inp then [trace.1.cmdD inp] else [] := by
  have contents : (trace.step inp).1.hpuCmdFifo.contents = _ :=
    FifoV3.contents_step trace.1.hpuCmdFifo (trace.1.cmdD inp) (trace.1.cmdBuffPush inp)
      (inp.cmdReadyI && trace.1.cmdValidO)
  have room : (trace.1.cmdBuffPush inp && !trace.1.hpuCmdFifo.fullO) = trace.1.cmdBuffPush inp := by
    cases full : trace.1.hpuCmdFifo.fullO <;> simp [cmdBuffPush, cmdBuffFull, full]
  rw [contents, room]

/-- Sending moves a command from the buffer to those sent. -/
theorem sentNow_append (trace : CmdTrace params) (inp : CmdFrontendIn params) :
    sentNow trace.1 trace.2 inp ++
        (if inp.cmdReadyI && trace.1.cmdValidO then trace.1.hpuCmdFifo.contents.tail
          else trace.1.hpuCmdFifo.contents) = trace.outstanding := by
  rw [sentNow, outstanding]
  cases sends : inp.cmdReadyI && trace.1.cmdValidO with
  | false => simp
  | true =>
    have nonempty : trace.1.hpuCmdFifo.contents ≠ [] := by
      rw [← FifoV3.emptyO_eq_false]
      simp only [cmdValidO, Bool.and_eq_true, Bool.not_eq_true'] at sends
      exact sends.2
    obtain ⟨front, rest, holds⟩ := List.exists_cons_of_ne_nil nonempty
    simp [cmdO, FifoV3.dataO_eq_head holds, holds]

/-- What is outstanding after a cycle: what was, less the command that was answered,
    and the command entered. -/
theorem outstanding_step (permits : trace.PermitsResp inp) :
    (trace.step inp).outstanding.map PspinCmd.localId = trace.answeredIds inp ++
      if trace.1.cmdBuffPush inp then [trace.1.localCmdIdD inp] else [] := by
  have sent : (trace.step inp).2.sent = afterResp inp (sentNow trace.1 trace.2 inp) := rfl
  have entered : (if trace.1.cmdBuffPush inp then [trace.1.cmdD inp] else []).map PspinCmd.localId =
      if trace.1.cmdBuffPush inp then [trace.1.localCmdIdD inp] else [] := by
    split <;> rfl
  rw [outstanding, sent, contents_step, ← List.append_assoc, List.map_append, entered]
  congr 1
  -- the answered command was sent, so that it is not the one that enters
  rw [answeredIds, ← sentNow_append trace inp, List.map_append, List.map_append]
  rw [map_afterResp]
  cases answers : inp.cmdRespValidI with
  | false => rfl
  | true =>
    obtain ⟨cmd, waits, id⟩ := List.any_eq_true.mp (permits answers)
    have found : inp.respId ∈ (sentNow trace.1 trace.2 inp).map PspinCmd.localId :=
      List.mem_map.mpr ⟨cmd, waits, of_decide_eq_true id⟩
    exact (List.erase_append_left _ found).symm

/-- The id of the command of this cycle: a free one, the one just answered, or the one
    it got when it began to wait for room. -/
def enteringIds (frontend : CmdFrontend params) (inp : CmdFrontendIn params) :
    List params.LocalCmdId :=
  match frontend.stateQ with
  | .waitingID => if inp.cmdRespValidI then [inp.respId] else []
  | .waitingBuffer => [frontend.cmdQ.localId]
  | _ => if frontend.assignId inp then [frontend.cmdIdx] else []

/-- A command that has an id enters the buffer or waits for room in it. -/
theorem entering_eq (inFlight : InFlight trace) (holds : trace.HoldsRequest inp) :
    (if trace.1.cmdBuffPush inp then [trace.1.localCmdIdD inp] else []) ++
      pendingId (trace.step inp).1 = enteringIds trace.1 inp := by
  have pending : pendingId (trace.step inp).1 =
    if trace.1.stateD inp = .waitingBuffer then [trace.1.localCmdIdD inp] else [] := rfl
  rw [pending, enteringIds, cmdBuffPush]
  -- a command that is stalled is offered again, by the protocol of the bus
  cases state : trace.1.stateQ with
  | ready =>
    cases issued : inp.bus.cmdIssued with
    | false =>
      simp only [stateD, assignId, state, issued]
      split <;> simp
    | true =>
      have waits : inp.bus.waitIssued = false := by
        by_contra waits
        rw [Bool.not_eq_false] at waits
        rw [not_cmdIssued_of_waitIssued waits] at issued
        cases issued
      cases disabled : inp.disabledI <;> cases none : trace.1.noFreeCmdIds <;>
        cases full : trace.1.cmdBuffFull <;>
        simp [stateD, assignId, localCmdIdD, state, issued, waits, disabled, none, full]
  | disabled =>
    have issued := inFlight.cmdIssued holds (.inl state)
    cases disabled : inp.disabledI <;> cases none : trace.1.noFreeCmdIds <;>
      cases full : trace.1.cmdBuffFull <;>
      simp [stateD, assignId, localCmdIdD, state, issued, disabled, none, full]
  | waitingID =>
    have issued := inFlight.cmdIssued holds (.inr (.inl state))
    cases answers : inp.cmdRespValidI <;> cases full : trace.1.cmdBuffFull <;>
      simp [stateD, localCmdIdD, state, issued, answers, full]
  | waitingBuffer =>
    have issued := inFlight.cmdIssued holds (.inr (.inr state))
    cases full : trace.1.cmdBuffFull <;>
      simp [stateD, assignId, localCmdIdD, PspinCmd.localId, state, issued, full]
  | waiting =>
    have waits := (inFlight.waitIssued holds state).1
    have issued := not_cmdIssued_of_waitIssued waits
    simp only [stateD, assignId, state, issued]
    split <;> simp

theorem ids_step (inFlight : InFlight trace) (holds : trace.HoldsRequest inp)
    (permits : trace.PermitsResp inp) :
    (trace.step inp).ids = trace.answeredIds inp ++ enteringIds trace.1 inp := by
  rw [ids, outstanding_step permits, List.append_assoc, entering_eq inFlight holds]

/-- A free id is not in flight. -/
theorem cmdIdx_free (frontend : CmdFrontend params) (some : frontend.noFreeCmdIds = false) :
    frontend.freeCmdIdsQ frontend.cmdIdx = false := by
  have unused := lzcCnt_set some
  rw [unusedCmdIds, Bool.not_eq_true'] at unused
  exact unused

theorem assignId_free {frontend : CmdFrontend params} (assigns : frontend.assignId inp = true) :
    frontend.freeCmdIdsQ frontend.cmdIdx = false := by
  apply cmdIdx_free
  unfold assignId at assigns
  split at assigns
  · simp only [Bool.and_eq_true, Bool.not_eq_true'] at assigns
    exact assigns.2
  · simp only [Bool.and_eq_true, Bool.not_eq_true'] at assigns
    exact assigns.2
  · cases assigns

theorem respId_mem (permits : trace.PermitsResp inp) (answers : inp.cmdRespValidI = true) :
    inp.respId ∈ trace.outstanding.map PspinCmd.localId := by
  obtain ⟨cmd, waits, id⟩ := List.any_eq_true.mp (permits answers)
  refine List.mem_map.mpr ⟨cmd, ?_, of_decide_eq_true id⟩
  rw [← sentNow_append trace inp]
  exact List.mem_append_left _ waits

theorem nodup_outstanding (inFlight : InFlight trace) :
    (trace.outstanding.map PspinCmd.localId).Nodup :=
  (List.nodup_append.mp inFlight.nodup).1

theorem mem_answeredIds (inFlight : InFlight trace) {id : params.LocalCmdId} :
    id ∈ trace.answeredIds inp ↔ id ∈ trace.outstanding.map PspinCmd.localId ∧
      ¬(inp.cmdRespValidI = true ∧ id = inp.respId) := by
  unfold answeredIds
  cases answers : inp.cmdRespValidI with
  | false => simp
  | true =>
    rw [if_pos rfl, (nodup_outstanding inFlight).mem_erase_iff]
    tauto

theorem not_mem_of_free (inFlight : InFlight trace) {id : params.LocalCmdId}
    (free : trace.1.freeCmdIdsQ id = false) :
    id ∉ trace.outstanding.map PspinCmd.localId := by
  intro member
  have set := (inFlight.marks id).mpr (List.mem_append_left _ member)
  rw [free] at set
  cases set

/-- Unless a command waits for an id, the id that enters is that of no command in flight. -/
theorem entering_new (inFlight : InFlight trace) (state : trace.1.stateQ ≠ .waitingID)
    {id : params.LocalCmdId} (enters : id ∈ enteringIds trace.1 inp) :
    id ∉ trace.outstanding.map PspinCmd.localId := by
  intro member
  unfold enteringIds at enters
  split at enters
  next waits => exact state waits
  next room =>
    have apart := (List.nodup_append.mp inFlight.nodup).2.2
    rw [pendingId, if_pos room] at apart
    exact apart id member id enters rfl
  next =>
    split at enters
    next assigns =>
      rw [List.mem_singleton.mp enters] at member
      exact not_mem_of_free inFlight (assignId_free assigns) member
    next => cases enters

theorem entering_fresh (inFlight : InFlight trace) {id : params.LocalCmdId}
    (enters : id ∈ enteringIds trace.1 inp) : id ∉ trace.answeredIds inp := by
  rw [mem_answeredIds inFlight]
  rintro ⟨member, remains⟩
  by_cases state : trace.1.stateQ = .waitingID
  · simp only [enteringIds, state] at enters
    split at enters
    next answers => exact remains ⟨answers, List.mem_singleton.mp enters⟩
    next => cases enters
  · exact entering_new inFlight state enters member

theorem nodup_step (inFlight : InFlight trace) (holds : trace.HoldsRequest inp)
    (permits : trace.PermitsResp inp) : (trace.step inp).ids.Nodup := by
  rw [ids_step inFlight holds permits]
  refine List.nodup_append.mpr ⟨?_, ?_, fun id remains id' enters same => ?_⟩
  · unfold answeredIds
    split
    · exact (nodup_outstanding inFlight).erase _
    · exact nodup_outstanding inFlight
  · unfold enteringIds
    split <;> try split
    all_goals simp
  · exact entering_fresh inFlight enters (same ▸ remains)

theorem freeCmdIdsD_waitingID {frontend : CmdFrontend params} (state : frontend.stateQ = .waitingID)
    (id : params.LocalCmdId) : frontend.freeCmdIdsD inp id = frontend.freeCmdIdsQ id := by
  simp [freeCmdIdsD, assignId, state]

theorem freeCmdIdsD_of_ne (inFlight : InFlight trace) (state : trace.1.stateQ ≠ .waitingID)
    (id : params.LocalCmdId) : trace.1.freeCmdIdsD inp id = true ↔
      ¬(inp.cmdRespValidI = true ∧ id = inp.respId) ∧
        (id ∈ trace.outstanding.map PspinCmd.localId ∨ id ∈ enteringIds trace.1 inp) := by
  have marked := inFlight.marks id
  rw [ids, List.mem_append] at marked
  unfold freeCmdIdsD
  by_cases answered : inp.cmdRespValidI = true ∧ id = inp.respId
  · simp [state, answered]
  · have kept : (decide (trace.1.stateQ ≠ .waitingID) && inp.cmdRespValidI &&
        decide (id = inp.respId)) = false := by
      simpa [state] using answered
    rw [kept, if_neg Bool.false_ne_true]
    simp only [answered, not_false_iff, true_and]
    -- a command that waits for room has its id already
    by_cases room : trace.1.stateQ = .waitingBuffer
    · simp only [assignId, enteringIds, pendingId, room] at marked ⊢
      simpa using marked
    · have assigned : enteringIds trace.1 inp =
          if trace.1.assignId inp then [trace.1.cmdIdx] else [] := by
        unfold enteringIds
        split
        next waits => exact absurd waits state
        next waits => exact absurd waits room
        next => rfl
      simp only [pendingId, if_neg room, List.not_mem_nil, or_false] at marked
      rw [assigned, ← marked]
      cases trace.1.assignId inp with
      | false => simp
      | true => by_cases same : id = trace.1.cmdIdx <;> simp [same]

/-- The bit of an id that is given is set and that of an answered one cleared, unless
    the id goes to the command that waits for it. -/
theorem marks_step (inFlight : InFlight trace) (holds : trace.HoldsRequest inp)
    (permits : trace.PermitsResp inp) (id : params.LocalCmdId) :
    (trace.step inp).1.freeCmdIdsQ id = true ↔ id ∈ (trace.step inp).ids := by
  have next : (trace.step inp).1.freeCmdIdsQ id = trace.1.freeCmdIdsD inp id := rfl
  rw [next, ids_step inFlight holds permits, List.mem_append, mem_answeredIds inFlight]
  -- while a command waits for an id, the answered one goes straight to it
  by_cases state : trace.1.stateQ = .waitingID
  · rw [freeCmdIdsD_waitingID state, inFlight.marks, ids, pendingId, enteringIds, state]
    cases answers : inp.cmdRespValidI with
    | false => simp
    | true =>
      have member := respId_mem permits answers
      simp only [if_true, true_and, List.mem_singleton, reduceCtorEq, if_false, List.append_nil]
      constructor
      · intro inUse
        by_cases answered : id = inp.respId
        · exact .inr answered
        · exact .inl ⟨inUse, answered⟩
      · rintro (⟨inUse, -⟩ | rfl)
        · exact inUse
        · exact member
  · rw [freeCmdIdsD_of_ne inFlight state]
    constructor
    · rintro ⟨remains, inUse | enters⟩
      · exact .inl ⟨inUse, remains⟩
      · exact .inr enters
    · rintro (⟨inUse, remains⟩ | enters)
      · exact ⟨remains, .inl inUse⟩
      · refine ⟨?_, .inr enters⟩
        rintro ⟨answers, rfl⟩
        exact entering_new inFlight state enters (respId_mem permits answers)

/-- A request that is not granted has to be held. -/
theorem held_step (requests : inp.bus.req = true) (stalls : trace.1.stateD inp ≠ .ready) :
    (trace.step inp).2.held = some inp.bus := by
  have held : (trace.step inp).2.held =
    if inp.bus.req && !trace.1.gntO inp then some inp.bus else none := rfl
  simp [held, gntO, requests, stalls]

/-- An issue stalls in a state that was entered by an issue. -/
theorem stalled_issue (inFlight : InFlight trace) (holds : trace.HoldsRequest inp)
    (stalls : trace.1.stateD inp = .disabled ∨ trace.1.stateD inp = .waitingID ∨
      trace.1.stateD inp = .waitingBuffer) : inp.bus.cmdIssued = true := by
  cases state : trace.1.stateQ with
  | disabled => exact inFlight.cmdIssued holds (.inl state)
  | waitingID => exact inFlight.cmdIssued holds (.inr (.inl state))
  | waitingBuffer => exact inFlight.cmdIssued holds (.inr (.inr state))
  | ready =>
    by_contra quiet
    rw [Bool.not_eq_true] at quiet
    simp only [stateD, state, quiet] at stalls
    split at stalls <;> simp at stalls
  | waiting =>
    simp only [stateD, state] at stalls
    split at stalls <;> simp at stalls

theorem stalled_wait (inFlight : InFlight trace) (holds : trace.HoldsRequest inp)
    (stalls : trace.1.stateD inp = .waiting) :
    inp.bus.waitIssued = true ∧ inp.wtCmdIdx = trace.1.wtCmdIdxD inp := by
  have waits : inp.bus.waitIssued = true := by
    cases state : trace.1.stateQ with
    | waiting => exact (inFlight.waitIssued holds state).1
    | ready =>
      by_contra quiet
      rw [Bool.not_eq_true] at quiet
      simp only [stateD, state, quiet, Bool.false_and, Bool.false_eq_true, if_false] at stalls
      split_ifs at stalls
    | _ =>
      simp only [stateD, state] at stalls
      split_ifs at stalls
  exact ⟨waits, by rw [wtCmdIdxD, waits]; rfl⟩

theorem InFlight.step (inFlight : InFlight trace) (holds : trace.HoldsRequest inp)
    (permits : trace.PermitsResp inp) : InFlight (trace.step inp) where
  nodup := nodup_step inFlight holds permits
  marks := marks_step inFlight holds permits
  issuing states := by
    have next : (trace.step inp).1.stateQ = trace.1.stateD inp := rfl
    rw [next] at states
    -- every state but `ready` holds the request back
    have stalls : trace.1.stateD inp ≠ .ready := by rcases states with s | s | s <;> rw [s] <;> decide
    have issued := stalled_issue inFlight holds states
    have requests : inp.bus.req = true := by
      simp only [XbarPeriphReq.cmdIssued, Bool.and_eq_true] at issued
      exact issued.1.1
    exact ⟨inp.bus, held_step requests stalls, issued⟩
  waiting state := by
    have next : (trace.step inp).1.stateQ = trace.1.stateD inp := rfl
    rw [next] at state
    obtain ⟨waits, index⟩ := stalled_wait inFlight holds state
    have requests : inp.bus.req = true := by
      simp only [XbarPeriphReq.waitIssued, Bool.and_eq_true] at waits
      exact waits.1.1
    exact ⟨inp.bus, held_step requests (by rw [state]; decide), waits, index⟩

end Step

end CmdTrace

end Pspin
