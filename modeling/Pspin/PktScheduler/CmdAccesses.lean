import Pspin.PktScheduler.HpuDriver

/-! # Issuing commands

A core defines a command by stores to the registers of its command frontend and issues
it by reading the issue register.  A core holds a request until it is granted; of the
accesses of one command only the last can be refused.  The command that is issued is made of the
words stored last.
-/

namespace Pspin

open Clocked

/-! ## Accesses -/

inductive BusAccess where
  | sw (value : BitVec 32) (add : MemAddr)
  | lw (add : MemAddr)
deriving DecidableEq, Repr

namespace BusAccess

def add : BusAccess → MemAddr
  | sw _ add => add
  | lw add => add

/-- The request an access puts on the bus; a load drives no write data of its own. -/
def Drives : BusAccess → XbarPeriphReq → Prop
  | sw value add, bus => bus.req = true ∧ bus.add = add ∧ bus.wen = false ∧ bus.wdata = value
  | lw add, bus => bus.req = true ∧ bus.add = add ∧ bus.wen = true

theorem Drives.add_eq {access : BusAccess} {bus : XbarPeriphReq} (drives : access.Drives bus) :
    bus.add = access.add := by
  cases access with
  | sw value add => exact drives.2.1
  | lw add => exact drives.2.1

end BusAccess

def cmdBaseAddr : MemAddr := 0x1b205000

/-- Address of a register of the command frontend by its offset in the assembly. -/
def cmdReg (offset : Nat) : MemAddr := cmdBaseAddr + BitVec.ofNat 32 offset

section CmdReg

variable {offset : Nat} (atLeast : 128 ≤ offset) (below : offset < 256)
include atLeast below

theorem toNat_cmdReg : (cmdReg offset).toNat = 0x1b205000 + offset := by
  rw [cmdReg, BitVec.toNat_add, BitVec.toNat_ofNat, show cmdBaseAddr.toNat = 0x1b205000 from rfl]
  omega

/-- The request is for the command frontend. -/
theorem addType_cmdReg : (cmdReg offset).extractLsb' 7 2 = 1 := by
  apply BitVec.eq_of_toNat_eq
  rw [BitVec.extractLsb'_toNat, toNat_cmdReg atLeast below, Nat.shiftRight_eq_div_pow,
    show (1 : BitVec 2).toNat = 1 from rfl]
  omega

/-- Index of the addressed word. -/
theorem addIdx_cmdReg : ((cmdReg offset).extractLsb' 2 5).toNat = (offset - 128) / 4 := by
  rw [BitVec.extractLsb'_toNat, toNat_cmdReg atLeast below, Nat.shiftRight_eq_div_pow]
  omega

end CmdReg

/-- A word the core defines a command with, and the offset it stores it at. -/
structure CmdStore where
  value : BitVec 32
  offset : Nat
deriving DecidableEq, Repr

namespace CmdStore

def access (store : CmdStore) : BusAccess := .sw store.value (cmdReg store.offset)

/-- The store is to one of the registers that define a command. -/
def Defines (store : CmdStore) : Prop := 140 ≤ store.offset ∧ store.offset < 172

end CmdStore

/-- The accesses of a call: its stores, then the read of the issue register. -/
def issuing (stores : List CmdStore) : List BusAccess :=
  stores.map CmdStore.access ++ [.lw (cmdReg 128)]

/-! ## The command registers -/

/-- The part of a command that the core defines. -/
structure CmdRegs where
  cmdType : PspinCmdType
  intfId : PspinCmdIntfId
  generateEvent : Bool
  descr : PspinCmdDescr
deriving DecidableEq, Repr

def PspinCmd.regs {numCores idBits : Nat} (cmd : PspinCmd numCores idBits) : CmdRegs where
  cmdType := cmd.cmdType
  intfId := cmd.intfId
  generateEvent := cmd.generateEvent
  descr := cmd.descr

/-- A write to one of the command registers, by its word index. -/
def CmdRegs.write (regs : CmdRegs) (addIdx : Nat) (wdata : BitVec 32) : CmdRegs where
  cmdType :=
    if addIdx = 3 then
      ((CmdFrontend.cmdKind (wdata.extractLsb' 1 2)).getD (regs.cmdType, regs.intfId)).1
    else regs.cmdType
  intfId :=
    if addIdx = 3 then
      ((CmdFrontend.cmdKind (wdata.extractLsb' 1 2)).getD (regs.cmdType, regs.intfId)).2
    else regs.intfId
  generateEvent := if addIdx = 3 then wdata.getLsbD 0 else regs.generateEvent
  descr :=
    if 4 ≤ addIdx ∧ addIdx ≤ 10 then regs.descr.setIfInBounds (addIdx - 4) wdata else regs.descr

def CmdRegs.store (regs : CmdRegs) (store : CmdStore) : CmdRegs :=
  regs.write ((store.offset - 128) / 4) store.value

namespace CmdRegs

variable (regs : CmdRegs) (value : BitVec 32)

theorem store_word (offset i : Nat) (inside : i ≤ 6) (word : (offset - 128) / 4 = i + 4) :
    regs.store ⟨value, offset⟩ = { regs with descr := regs.descr.setIfInBounds i value } := by
  have other : i + 4 ≠ 3 := by omega
  have words : 4 ≤ i + 4 ∧ i + 4 ≤ 10 := by omega
  simp only [store, word, write, if_neg other, if_pos words, Nat.add_sub_cancel]

theorem store_type (kind : PspinCmdType × PspinCmdIntfId)
    (selects : CmdFrontend.cmdKind (value.extractLsb' 1 2) = some kind) :
    regs.store ⟨value, 140⟩ =
      { regs with cmdType := kind.1, intfId := kind.2, generateEvent := value.getLsbD 0 } := by
  have type : (140 - 128) / 4 = 3 := rfl
  simp only [store, type, write, selects]
  rfl

end CmdRegs

namespace CmdFrontend

variable {params : CmdFrontendParams} {frontend : CmdFrontend params} {inp : CmdFrontendIn params}

theorem regs_cmdD_of_write (ready : frontend.stateQ = .ready) (req : inp.bus.req = true)
    (write : inp.bus.wen = false) :
    (frontend.cmdD inp).regs = frontend.cmdQ.regs.write inp.bus.addIdx inp.bus.wdata := by
  simp [PspinCmd.regs, CmdRegs.write, cmdD, kindD, definesType, definesWord, ready, req, write,
    apply_ite Prod.fst, apply_ite Prod.snd]

/-- Reading changes none of the registers, and neither does a cycle without a request. -/
theorem regs_cmdD_of_not_write (quiet : inp.bus.req = false ∨ inp.bus.wen = true) :
    (frontend.cmdD inp).regs = frontend.cmdQ.regs := by
  rcases quiet with idle | read
  · simp [PspinCmd.regs, cmdD, kindD, definesType, definesWord, idle]
  · simp [PspinCmd.regs, cmdD, kindD, definesType, definesWord, read]

theorem stateD_of_not_issued (ready : frontend.stateQ = .ready)
    (noIssue : inp.bus.cmdIssued = false) (noWait : inp.bus.waitIssued = false) :
    frontend.stateD inp = .ready := by
  simp [stateD, ready, noIssue, noWait]

/-- An issue that is presented stays so until it is granted. -/
theorem stateD_ne_waiting (busy : frontend.stateQ ≠ .waiting)
    (noWait : inp.bus.waitIssued = false) : frontend.stateD inp ≠ .waiting := by
  unfold stateD
  cases state : frontend.stateQ with
  | ready => simp only [noWait]; grind
  | disabled => simp only; grind
  | waitingID => simp only; grind
  | waitingBuffer => simp only; grind
  | waiting => exact absurd state busy

/-- The issue is granted when the buffer takes the command. -/
theorem cmdBuffPush_of_stateD (busy : frontend.stateQ ≠ .waiting)
    (issued : inp.bus.cmdIssued = true) (noWait : inp.bus.waitIssued = false)
    (ready : frontend.stateD inp = .ready) : frontend.cmdBuffPush inp = true := by
  have room : frontend.cmdBuffFull = false := by
    unfold stateD at ready
    cases state : frontend.stateQ with
    | ready => simp only [state, issued, noWait] at ready; grind
    | disabled => simp only [state] at ready; grind
    | waitingID => simp only [state] at ready; grind
    | waitingBuffer => simp only [state] at ready; grind
    | waiting => exact absurd state busy
  simp [cmdBuffPush, room, issued, ready]

end CmdFrontend

/-! ## Performing accesses -/

namespace HpuDriver

variable {params : HpuDriverParams}

/-- A core makes its accesses in order.  A request stays on the bus until it is granted;
    between two requests there may be cycles with none for the command frontend.  The flag
    says that the request was presented before and not granted. -/
inductive Performs : Bool → List BusAccess → HpuDriver params → List (HpuDriverIn params) →
    HpuDriver params → Prop
  | done {driver} : Performs false [] driver [] driver
  | idle {accesses driver inp inputs last} (quiet : frontendReq inp 1 = false)
      (rest : Performs false accesses (driver.step inp) inputs last) :
      Performs false accesses driver (inp :: inputs) last
  | stalled {held access accesses driver inp inputs last}
      (drives : access.Drives inp.hpuDriverSlaveI) (refused : driver.gnt inp = false)
      (rest : Performs true (access :: accesses) (driver.step inp) inputs last) :
      Performs held (access :: accesses) driver (inp :: inputs) last
  | granted {held access accesses driver inp inputs last}
      (drives : access.Drives inp.hpuDriverSlaveI) (accepted : driver.gnt inp = true)
      (rest : Performs false accesses (driver.step inp) inputs last) :
      Performs held (access :: accesses) driver (inp :: inputs) last

variable (driver : HpuDriver params) (inp : HpuDriverIn params)

/-- The command that enters the buffer in a cycle. -/
def issuedNow : List params.cmd.Cmd :=
  if driver.cmdFrontend.cmdBuffPush (driver.cmdIn inp) then
    [driver.cmdFrontend.cmdD (driver.cmdIn inp)]
  else []

def issued (driver : HpuDriver params) : List (HpuDriverIn params) → List params.cmd.Cmd
  | [] => []
  | inp :: inputs => driver.issuedNow inp ++ issued (driver.step inp) inputs

def cmdRegs : CmdRegs := driver.cmdFrontend.cmdQ.regs

variable {driver inp}

theorem frontendReq_of_drives {access : BusAccess} {i : BitVec 2}
    (drives : access.Drives inp.hpuDriverSlaveI) (other : access.add.extractLsb' 7 2 ≠ i) :
    frontendReq inp i = false := by
  simp [frontendReq, addTypeD, drives.add_eq, other]

theorem idle_step (quiet : frontendReq inp 1 = false)
    (ready : driver.cmdFrontend.stateQ = .ready) :
    driver.issuedNow inp = [] ∧ (driver.step inp).cmdFrontend.stateQ = .ready ∧
      (driver.step inp).cmdRegs = driver.cmdRegs := by
  have noReq : (driver.cmdIn inp).bus.req = false := quiet
  have noIssue : (driver.cmdIn inp).bus.cmdIssued = false := by
    simp [XbarPeriphReq.cmdIssued, noReq]
  have noWait : (driver.cmdIn inp).bus.waitIssued = false := by
    simp [XbarPeriphReq.waitIssued, noReq]
  refine ⟨?_, CmdFrontend.stateD_of_not_issued ready noIssue noWait,
    CmdFrontend.regs_cmdD_of_not_write (.inl noReq)⟩
  simp [issuedNow, CmdFrontend.cmdBuffPush, noIssue]

/-- A store to a command register is granted at once. -/
theorem store_step {store : CmdStore} (defines : store.Defines)
    (drives : store.access.Drives inp.hpuDriverSlaveI)
    (ready : driver.cmdFrontend.stateQ = .ready) :
    driver.gnt inp = true ∧ driver.issuedNow inp = [] ∧
      (driver.step inp).cmdFrontend.stateQ = .ready ∧
      (driver.step inp).cmdRegs = driver.cmdRegs.store store := by
  obtain ⟨req, add, write, wdata⟩ := drives
  obtain ⟨atLeast, below⟩ := defines
  -- the offset is that of a register of the command, which is neither read nor waited for
  have here : addTypeD inp = 1 := by
    rw [addTypeD, add]
    exact addType_cmdReg (by omega) (by omega)
  have busReq : (driver.cmdIn inp).bus.req = true := by
    simp [cmdIn, frontendReq, req, here]
  have busIdx : (driver.cmdIn inp).bus.addIdx = (store.offset - 128) / 4 := by
    rw [XbarPeriphReq.addIdx, show (driver.cmdIn inp).bus.add = cmdReg store.offset from add]
    exact addIdx_cmdReg (by omega) (by omega)
  have noIssue : (driver.cmdIn inp).bus.cmdIssued = false := by
    simp [XbarPeriphReq.cmdIssued, show (driver.cmdIn inp).bus.wen = false from write]
  have noWait : (driver.cmdIn inp).bus.waitIssued = false := by
    have other : (store.offset - 128) / 4 ≠ XbarPeriphReq.addWait := by
      rw [XbarPeriphReq.addWait]
      omega
    simp [XbarPeriphReq.waitIssued, busIdx, other]
  have next := CmdFrontend.stateD_of_not_issued ready noIssue noWait
  refine ⟨?_, ?_, next, ?_⟩
  · rw [gnt, here]
    simp [CmdFrontend.gntO, busReq, next]
  · simp [issuedNow, CmdFrontend.cmdBuffPush, noIssue]
  · have written := CmdFrontend.regs_cmdD_of_write ready busReq
      (show (driver.cmdIn inp).bus.wen = false from write)
    rw [busIdx, show (driver.cmdIn inp).bus.wdata = store.value from wdata] at written
    exact written

/-- The read of the issue register enters the command into the buffer when it is granted. -/
theorem issue_step (drives : (BusAccess.lw (cmdReg 128)).Drives inp.hpuDriverSlaveI)
    (busy : driver.cmdFrontend.stateQ ≠ .waiting) :
    (driver.step inp).cmdFrontend.stateQ ≠ .waiting ∧
      (driver.step inp).cmdRegs = driver.cmdRegs ∧
      (driver.gnt inp = false → driver.issuedNow inp = []) ∧
      (driver.gnt inp = true → (driver.step inp).cmdFrontend.stateQ = .ready ∧
        ∃ cmd, driver.issuedNow inp = [cmd] ∧ cmd.regs = driver.cmdRegs) := by
  obtain ⟨req, add, read⟩ := drives
  have here : addTypeD inp = 1 := by
    rw [addTypeD, add]
    exact addType_cmdReg (by decide) (by decide)
  have busReq : (driver.cmdIn inp).bus.req = true := by
    simp [cmdIn, frontendReq, req, here]
  have busRead : (driver.cmdIn inp).bus.wen = true := read
  have busIdx : (driver.cmdIn inp).bus.addIdx = XbarPeriphReq.addIssue := by
    rw [XbarPeriphReq.addIdx, show (driver.cmdIn inp).bus.add = cmdReg 128 from add]
    exact addIdx_cmdReg (by decide) (by decide)
  have issue : (driver.cmdIn inp).bus.cmdIssued = true := by
    simp [XbarPeriphReq.cmdIssued, busReq, busRead, busIdx]
  have noWait : (driver.cmdIn inp).bus.waitIssued = false := by
    simp [XbarPeriphReq.waitIssued, busRead]
  have kept : (driver.cmdFrontend.cmdD (driver.cmdIn inp)).regs = driver.cmdFrontend.cmdQ.regs :=
    CmdFrontend.regs_cmdD_of_not_write (.inr busRead)
  -- the read stalls until the command has an id and room in the buffer
  have grants : driver.gnt inp = decide (driver.cmdFrontend.stateD (driver.cmdIn inp) = .ready) := by
    rw [gnt, here]
    simp [CmdFrontend.gntO, busReq]
  refine ⟨CmdFrontend.stateD_ne_waiting busy noWait, kept, ?_, ?_⟩
  · intro refused
    rw [grants, decide_eq_false_iff_not] at refused
    simp [issuedNow, CmdFrontend.cmdBuffPush, refused]
  · intro accepted
    rw [grants, decide_eq_true_iff] at accepted
    have push := CmdFrontend.cmdBuffPush_of_stateD busy issue noWait accepted
    exact ⟨accepted, _, if_pos push, kept⟩

namespace Performs

variable {inputs : List (HpuDriverIn params)} {last : HpuDriver params} {held : Bool}
  {accesses : List BusAccess}

/-- After its accesses a core that makes no others issues nothing. -/
theorem issued_nil (run : Performs held accesses driver inputs last) (none : accesses = [])
    (ready : driver.cmdFrontend.stateQ = .ready) :
    issued driver inputs = [] ∧ last.cmdFrontend.stateQ = .ready := by
  induction run with
  | done => exact ⟨rfl, ready⟩
  | idle quiet rest ih =>
    obtain ⟨nothing, next, -⟩ := idle_step quiet ready
    rw [issued, nothing, List.nil_append]
    exact ih none next
  | stalled => cases none
  | granted => cases none

/-- Whatever accesses a core has made, the frontend is ready for the next one.  The
    induction carries that it is ready unless a request for it is held. -/
theorem ready (run : Performs held accesses driver inputs last)
    (accepts : driver.cmdFrontend.stateQ = .ready ∨
      held = true ∧ ∃ access ∈ accesses.head?, access.add.extractLsb' 7 2 = 1) :
    last.cmdFrontend.stateQ = .ready := by
  induction run with
  | done => simpa using accepts
  | @idle accesses driver inp inputs last quiet rest ih =>
    have ready : driver.cmdFrontend.stateQ = .ready := by simpa using accepts
    exact ih (.inl (idle_step quiet ready).2.1)
  | @stalled held access accesses driver inp inputs last drives refused rest ih =>
    by_cases here : access.add.extractLsb' 7 2 = 1
    · exact ih (.inr ⟨rfl, access, rfl, here⟩)
    · have ready : driver.cmdFrontend.stateQ = .ready := by
        refine accepts.resolve_right ?_
        rintro ⟨-, other, same, type⟩
        cases same
        exact here type
      exact ih (.inl (idle_step (frontendReq_of_drives drives here) ready).2.1)
  | @granted held access accesses driver inp inputs last drives accepted rest ih =>
    by_cases here : access.add.extractLsb' 7 2 = 1
    · have type : addTypeD inp = 1 := by rw [addTypeD, drives.add_eq, here]
      rw [gnt, type] at accepted
      have next := (Bool.and_eq_true_iff.mp accepted).2
      exact ih (.inl (of_decide_eq_true next))
    · have ready : driver.cmdFrontend.stateQ = .ready := by
        refine accepts.resolve_right ?_
        rintro ⟨-, other, same, type⟩
        cases same
        exact here type
      exact ih (.inl (idle_step (frontendReq_of_drives drives here) ready).2.1)

/-- Only the issue of a call can be held. -/
private theorem ne_waiting {stores : List CmdStore}
    (accepts : if held then driver.cmdFrontend.stateQ ≠ .waiting ∧ stores = []
      else driver.cmdFrontend.stateQ = .ready) : driver.cmdFrontend.stateQ ≠ .waiting := by
  cases held with
  | true => exact accepts.1
  | false =>
    have ready : driver.cmdFrontend.stateQ = .ready := accepts
    rw [ready]
    decide

/-- A call issues one command, made of the words stored last.  The induction is on the
    cycles; only the issue can be refused, so a held request is the last access. -/
theorem issued_singleton (run : Performs held accesses driver inputs last)
    {stores : List CmdStore} (defines : ∀ store ∈ stores, store.Defines)
    (calls : accesses = issuing stores)
    (accepts : if held then driver.cmdFrontend.stateQ ≠ .waiting ∧ stores = []
      else driver.cmdFrontend.stateQ = .ready) :
    last.cmdFrontend.stateQ = .ready ∧ ∃ cmd, issued driver inputs = [cmd] ∧
      cmd.regs = stores.foldl CmdRegs.store driver.cmdRegs := by
  induction run generalizing stores with
  | done => cases stores <;> cases calls
  | idle quiet rest ih =>
    obtain ⟨nothing, next, same⟩ := idle_step quiet accepts
    rw [issued, nothing, List.nil_append, ← same]
    exact ih defines calls next
  | @stalled held access accesses driver inp inputs last drives refused rest ih =>
    -- either the issue is under way or another word is to be stored first
    cases stores with
    | nil =>
      obtain ⟨rfl, rfl⟩ := List.cons_eq_cons.mp calls
      obtain ⟨next, same, nothing, -⟩ := issue_step drives (ne_waiting accepts)
      rw [issued, nothing refused, List.nil_append, ← same]
      exact ih defines rfl ⟨next, rfl⟩
    | cons store stores =>
      cases held with
      | true => cases accepts.2
      | false =>
        obtain ⟨rfl, rfl⟩ := List.cons_eq_cons.mp calls
        have accepted := (store_step (defines store List.mem_cons_self) drives accepts).1
        rw [accepted] at refused
        cases refused
  | @granted held access accesses driver inp inputs last drives accepted rest ih =>
    cases stores with
    | nil =>
      obtain ⟨rfl, rfl⟩ := List.cons_eq_cons.mp calls
      obtain ⟨-, -, -, enters⟩ := issue_step drives (ne_waiting accepts)
      obtain ⟨next, cmd, now, regs⟩ := enters accepted
      obtain ⟨later, ready⟩ := rest.issued_nil rfl next
      exact ⟨ready, cmd, by rw [issued, now, later]; rfl, regs⟩
    | cons store stores =>
      cases held with
      | true => cases accepts.2
      | false =>
        obtain ⟨rfl, rfl⟩ := List.cons_eq_cons.mp calls
        obtain ⟨-, nothing, next, stored⟩ :=
          store_step (defines store List.mem_cons_self) drives accepts
        rw [issued, nothing, List.nil_append, List.foldl_cons, ← stored]
        exact ih (fun other among => defines other (List.mem_cons_of_mem _ among)) rfl next

end Performs

end HpuDriver

end Pspin
