import Pspin.PktScheduler.CmdAllocation

/-! # Testing a command

`spin_cmd_test` writes a handle to the test register and reads the register back.  The write is
not decoded: what the read returns is the status of the id that the core drives on the write data
of the read itself.  It is the status of the handle's command if both ids are in flight or neither
is.
-/

namespace Pspin

open Clocked

/-- The core writes the test register. -/
def XbarPeriphReq.testWritten (bus : XbarPeriphReq) : Bool :=
  bus.req && decide (bus.addIdx = XbarPeriphReq.addTest) && !bus.wen

/-- A command frontend and the handle written last to the test register. -/
abbrev CmdTestTrace (params : CmdFrontendParams) := CmdTrace params × Option (BitVec 32)

def cmdTestTrace (params : CmdFrontendParams) :
    Machine (CmdTestTrace params) (CmdFrontendIn params) :=
  (cmdTrace params).observedBy none fun trace handle inp =>
    if inp.bus.testWritten && trace.1.gntO inp then some inp.bus.wdata else handle

namespace CmdTestTrace

open CmdFrontend CmdTrace

variable {params : CmdFrontendParams} (trace : CmdTestTrace params) (inp : CmdFrontendIn params)

/-- No command in flight owns an id, or its response arrives in this cycle. -/
def Finished (id : params.LocalCmdId) : Prop :=
  id ∉ trace.1.ids ∨ (inp.cmdRespValidI = true ∧ inp.respId = id)

instance (id : params.LocalCmdId) : Decidable (trace.Finished inp id) :=
  inferInstanceAs (Decidable (_ ∨ _))

/-- A read of the test register is granted at once, and its answer, in the next cycle, is that of
    the handle written before. -/
def Tells : Prop :=
  ∀ handle ∈ trace.2, inp.bus.testIssued = true →
    trace.1.1.gntO inp = true ∧ (trace.1.1.step inp).rValidO = true ∧
      ((trace.1.1.step inp).rRdataO = 1 ↔ trace.Finished inp (handle.setWidth params.idBits))

/-- The id on the write data of a read of the test register is in flight if and only if that of
    the handle is. -/
def SameFlight : Prop :=
  ∀ handle ∈ trace.2, inp.bus.testIssued = true →
    (trace.Finished inp inp.wtCmdIdx ↔ trace.Finished inp (handle.setWidth params.idBits))

instance : Decidable (trace.SameFlight inp) :=
  inferInstanceAs (Decidable (∀ handle ∈ trace.2, _ → _))

variable {trace inp}

/-- A test is read when the frontend is ready: what stalls is an issue or a wait. -/
theorem ready_of_testIssued (inFlight : InFlight trace.1) (holds : trace.1.HoldsRequest inp)
    (tests : inp.bus.testIssued = true) :
    trace.1.1.stateQ = .ready ∧ trace.1.1.stateD inp = .ready := by
  simp only [XbarPeriphReq.testIssued, Bool.and_eq_true] at tests
  have index : inp.bus.addIdx = 2 := of_decide_eq_true tests.1.2
  have noIssue : inp.bus.cmdIssued = false := by
    simp [XbarPeriphReq.cmdIssued, XbarPeriphReq.addIssue, index]
  have noWait : inp.bus.waitIssued = false := by simp [XbarPeriphReq.waitIssued, tests.2]
  have ready : trace.1.1.stateQ = .ready := by
    by_contra stalled
    rcases inFlight.requests_of_stalled holds stalled with issued | waits
    · rw [noIssue] at issued
      cases issued
    · rw [noWait] at waits
      cases waits
  exact ⟨ready, stateD_of_not_issued ready noIssue noWait⟩

/-- A test answers for the id on the write data of the read. -/
theorem rdataD_of_testIssued (inFlight : InFlight trace.1) (tests : inp.bus.testIssued = true)
    (ready : trace.1.1.stateQ = .ready) :
    trace.1.1.rdataD inp = 1 ↔ trace.Finished inp inp.wtCmdIdx := by
  have index : trace.1.1.wtCmdIdxD inp = inp.wtCmdIdx := by simp [wtCmdIdxD, tests]
  have finished : trace.1.1.wtCmdFinished inp = true ↔ trace.Finished inp inp.wtCmdIdx := by
    rw [wtCmdFinished, index, Finished, ← inFlight.marks]
    simp
  rw [← finished]
  cases status : trace.1.1.wtCmdFinished inp <;> simp [rdataD, ready, tests, status]

theorem tells_iff (inFlight : InFlight trace.1) (holds : trace.1.HoldsRequest inp) :
    trace.Tells inp ↔ trace.SameFlight inp := by
  refine forall₂_congr fun handle _ => forall_congr' fun tests => ?_
  obtain ⟨ready, next⟩ := ready_of_testIssued inFlight holds tests
  have granted : trace.1.1.gntO inp = true := by
    simp only [XbarPeriphReq.testIssued, Bool.and_eq_true] at tests
    simp [gntO, tests.1.1, next]
  have valid : (trace.1.1.step inp).rValidO = true := granted
  have answer : (trace.1.1.step inp).rRdataO = trace.1.1.rdataD inp := rfl
  simp only [granted, valid, answer, true_and, rdataD_of_testIssued inFlight tests ready]

/-- `spin_cmd_test`: in every run in which the core holds its requests and responses are for sent
    commands, each test tells whether the command of its handle is in flight exactly when each
    read drives the id of a command that is in flight if and only if that one is. -/
theorem cmdFrontend_tells_iff (params : CmdFrontendParams) (inputs : List (CmdFrontendIn params))
    (permitted : (cmdTestTrace params).Admits
      (fun trace inp => trace.1.HoldsRequest inp ∧ trace.1.PermitsResp inp) inputs) :
    (cmdTestTrace params).Admits Tells inputs ↔ (cmdTestTrace params).Admits SameFlight inputs :=
  permitted.congr (fun trace => InFlight trace.1) inFlight_reset
    (fun _ _ inFlight permits => tells_iff inFlight permits.1)
    fun _ _ inFlight permits _ => inFlight.step permits.1 permits.2

/-- One command is in flight, tested and, after its response, tested again. -/
theorem cmdFrontend_tells_iff_one :
    let params : CmdFrontendParams := ⟨8, 0, 0, 2, 4, by decide, by decide⟩
    let issue := busCycle params 0 0
    let write := busCycle params 8 0
    let read := { write with bus := ⟨true, 8, true, 0⟩ }
    let inputs := [issue, write, read, { issue with bus := default, cmdRespValidI := true }, read]
    (cmdTestTrace params).Admits Tells inputs ↔ (cmdTestTrace params).Admits SameFlight inputs :=
  cmdFrontend_tells_iff _ _ (by decide +kernel)

/-- Of two commands in flight the first is answered; a test of the second, whose read drives zero
    as write data, says that it is done. -/
theorem cmdFrontend_tells_other :
    let params : CmdFrontendParams := ⟨8, 0, 0, 2, 4, by decide, by decide⟩
    let issue := busCycle params 0 0
    let quiet := { issue with bus := default }
    let write := busCycle params 8 1
    let read := { write with bus := ⟨true, 8, true, 0⟩ }
    let inputs := [issue, issue, quiet, { quiet with cmdRespValidI := true }, write, read]
    (cmdTestTrace params).Admits (fun trace inp => trace.1.HoldsRequest inp ∧
        trace.1.PermitsResp inp) inputs ∧
      ¬(cmdTestTrace params).Admits Tells inputs := by
  intro params issue quiet write read inputs
  refine ⟨by decide +kernel, fun tells => ?_⟩
  have answer := (Machine.admitsFrom_iff.mp tells [issue, issue, quiet,
    { quiet with cmdRespValidI := true }, write] read [] rfl 1 (by decide +kernel)
    (by decide +kernel)).2.2
  revert answer
  decide +kernel

end CmdTestTrace

end Pspin
