import Pspin.Clocked.ByteLanes
import Pspin.Cmds.HostDirect

/-! # Writes of `host_direct`

Each address that is sent and the beat sent as the one of its number are those of one command, and
each answer of the host is passed on with the id of the command it is for.  The immediate data
always start on the first lane of the bus, so a write takes effect where the command says exactly
if the address is a multiple of the width of the bus.
-/

namespace Pspin

open Clocked

namespace HostDirectWrite

/-- What the beat makes of host memory; the bus has 64 bytes. -/
def effect (write : HostDirectWrite) (mem : ByteMem) : ByteMem :=
  mem.writeBeat 64 write.awAddr.toNat (fun lane => write.wData.extractLsb' (8 * lane) 8)
    (fun lane => write.wStrb.getLsbD lane)

/-- An address and a beat of data. -/
def ofBeat (awAddr : HostAddr) (beat : WDescr) : HostDirectWrite := ⟨awAddr, beat.data, beat.strb⟩

end HostDirectWrite

namespace HostDirectCmd

variable (cmd : HostDirectCmd)

def write : HostDirectWrite := .ofBeat cmd.hostAddr cmd.wDescr

/-- From one byte to the width of the bus. -/
def Sized : Prop := 1 ≤ cmd.immDataSize.toNat ∧ cmd.immDataSize.toNat ≤ 64

instance : Decidable cmd.Sized := inferInstanceAs (Decidable (_ ∧ _))

/-- The immediate data are stored at the host address, and nothing else changes. -/
def Stores (write : HostDirectWrite) : Prop :=
  ∀ mem : ByteMem,
    write.effect mem = mem.storeBytes cmd.hostAddr.toNat cmd.immDataSize.toNat cmd.immData

variable {cmd}

theorem stores_iff (sized : cmd.Sized) : cmd.Stores cmd.write ↔ cmd.hostAddr.toNat % 64 = 0 := by
  have strobes : (fun lane => cmd.write.wStrb.getLsbD lane) =
      fun lane => decide (lane < cmd.immDataSize.toNat) :=
    funext fun lane => strobe_eq sized.2 lane
  unfold Stores HostDirectWrite.effect
  rw [strobes]
  exact ByteMem.writeBeat_exact_iff (by decide) sized.1 sized.2

end HostDirectCmd

/-- Writes and reads accepted, what the host took of them and its answers: how many it gave to
    writes (`true`) and to reads, and the responses sent. -/
structure HostDirectHistory (params : HostDirectParams) where
  writes : List params.Cmd
  reads : List params.Cmd
  aw : List HostAddr
  beats : List WDescr
  ar : List HostAddr
  answered : Bool → Nat
  responded : List (Bool × params.Resp)

namespace HostDirectHistory

open HostDirect

variable {params : HostDirectParams}

def empty : HostDirectHistory params where
  writes := []
  reads := []
  aw := []
  beats := []
  ar := []
  answered := fun _ => 0
  responded := []

/-- The writes the host took: an address and the beat of the same number. -/
def pairs (history : HostDirectHistory params) : List HostDirectWrite :=
  List.zipWith HostDirectWrite.ofBeat history.aw history.beats

/-- The commands of these. -/
def issued (history : HostDirectHistory params) : List params.Cmd :=
  history.writes.take history.pairs.length

def record (unit : HostDirect params) (history : HostDirectHistory params)
    (inp : HostDirectIn params) : HostDirectHistory params where
  writes := history.writes ++ if unit.fifoAwPush inp then [inp.cmdReqI] else []
  reads := history.reads ++ if unit.fifoArPush inp then [inp.cmdReqI] else []
  aw := history.aw ++ if unit.fifoAwPop inp then [unit.awAddr] else []
  beats := history.beats ++ if unit.fifoWPop inp then [unit.wBeat] else []
  ar := history.ar ++ if unit.fifoArPop inp then [unit.arAddr] else []
  answered kind := history.answered kind +
    (if kind then bReady inp && inp.bValid else rReady inp && inp.rValid).toNat
  responded := history.responded ++
    if cmdRespValidO inp then [(!inp.rValid, unit.cmdRespO inp)] else []

end HostDirectHistory

abbrev HostDirectTrace (params : HostDirectParams) := HostDirect params × HostDirectHistory params

def hostDirectTrace (params : HostDirectParams) :
    Machine (HostDirectTrace params) (HostDirectIn params) :=
  (hostDirect params).observedBy HostDirectHistory.empty HostDirectHistory.record

namespace HostDirectTrace

open HostDirect

variable {params : HostDirectParams} (trace : HostDirectTrace params) (inp : HostDirectIn params)

def step : HostDirectTrace params := (trace.1.step inp, HostDirectHistory.record trace.1 trace.2 inp)

/-- Writes have a size, and the host answers what it took. -/
def Permits : Prop :=
  (trace.1.fifoAwPush inp = true → inp.hostDirectCmd.Sized) ∧
  (inp.bValid = true → trace.2.answered true < (trace.step inp).2.pairs.length) ∧
  (inp.rValid = true → trace.2.answered false < (trace.step inp).2.ar.length)

instance : Decidable (trace.Permits inp) :=
  inferInstanceAs (Decidable ((_ → _) ∧ (_ → _) ∧ (_ → _)))

/-- The responses to writes or to reads. -/
def answers (kind : Bool) : List params.Resp := ofKey kind trace.2.responded

/-- Each write takes effect as its command says, and each command gets one response, in order. -/
structure WritesHost : Prop where
  effects : List.Forall₂ (fun write cmd => cmd.descr.hostDirectCmd.Stores write) trace.2.pairs
    trace.2.issued
  /-- The responses to writes and the ids that wait are those of the commands, in order. -/
  responses : Flows (trace.2.writes.map PspinCmd.cmdId)
    ((trace.answers true).map PspinCmdResp.cmdId) trace.1.writeIdFifo.contents
  /-- The host's answers to writes are passed on once each, and after the write. -/
  once : (trace.answers true).length = trace.2.answered true
  after : (trace.answers true).length ≤ trace.2.pairs.length
  readResponses : Flows (trace.2.reads.map PspinCmd.cmdId)
    ((trace.answers false).map PspinCmdResp.cmdId) trace.1.readIdFifo.contents

/-- The invariant. -/
structure Inv : Prop where
  addresses : Flows (trace.2.writes.map fun cmd => cmd.descr.hostDirectCmd.hostAddr) trace.2.aw
    trace.1.awFifo.contents
  beats : Flows (trace.2.writes.map fun cmd => cmd.descr.hostDirectCmd.wDescr) trace.2.beats
    trace.1.wFifo.contents
  reads : Flows (trace.2.reads.map fun cmd => cmd.descr.hostDirectCmd.hostAddr) trace.2.ar
    trace.1.arFifo.contents
  writeIds : Flows (trace.2.writes.map PspinCmd.cmdId)
    ((trace.answers true).map PspinCmdResp.cmdId) trace.1.writeIdFifo.contents
  readIds : Flows (trace.2.reads.map PspinCmd.cmdId)
    ((trace.answers false).map PspinCmdResp.cmdId) trace.1.readIdFifo.contents
  counted : ∀ kind, (trace.answers kind).length = trace.2.answered kind
  answered : trace.2.answered true ≤ trace.2.pairs.length
  sized : ∀ cmd ∈ trace.2.writes, cmd.descr.hostDirectCmd.Sized

variable {trace inp}

theorem inv_reset : Inv (hostDirectTrace params).reset where
  addresses := .nil
  beats := .nil
  reads := .nil
  writeIds := .nil
  readIds := .nil
  counted _ := rfl
  answered := Nat.le_refl _
  sized _ member := by cases member

theorem length_pairs : trace.2.pairs.length = min trace.2.aw.length trace.2.beats.length := by
  rw [HostDirectHistory.pairs, List.length_zipWith]

/-- The answer of a cycle to a read or to a write. -/
theorem answers_step (kind : Bool) : (trace.step inp).answers kind = trace.answers kind ++
    if (if kind then bReady inp && inp.bValid else rReady inp && inp.rValid)
      then [trace.1.cmdRespO inp] else [] := by
  have added : ofKey kind (if cmdRespValidO inp then [(!inp.rValid, trace.1.cmdRespO inp)] else []) =
      if (if kind then bReady inp && inp.bValid else rReady inp && inp.rValid)
        then [trace.1.cmdRespO inp] else [] := by
    rw [ofKey_ite]
    cases kind <;> cases reads : inp.rValid <;> cases writes : inp.bValid <;>
      simp [cmdRespValidO, bReady, rReady, reads, writes]
  rw [answers, answers, ← added]
  exact ofKey_append kind _ _

theorem pushes_of_valid (pushes : trace.1.fifoAwPush inp = true) :
    trace.1.awFifo.fullO = false ∧ trace.1.wFifo.fullO = false ∧
      trace.1.writeIdFifo.fullO = false := by
  simp only [fifoAwPush, cmdReqReadyO, Bool.and_eq_true] at pushes
  obtain ⟨⟨-, ready⟩, toHost⟩ := pushes
  simpa [toHost, and_assoc] using ready

theorem pushes_of_read (pushes : trace.1.fifoArPush inp = true) :
    trace.1.arFifo.fullO = false ∧ trace.1.readIdFifo.fullO = false := by
  simp only [fifoArPush, cmdReqReadyO, Bool.and_eq_true, Bool.not_eq_true'] at pushes
  obtain ⟨⟨-, ready⟩, fromHost⟩ := pushes
  simpa [fromHost] using ready

theorem map_append_ite {α β : Type} (f : α → β) (list : List α) (added : Bool) (item : α) :
    (list ++ if added then [item] else []).map f =
      list.map f ++ if added then [f item] else [] := by
  rw [List.map_append]
  congr 1
  cases added with
  | false => rfl
  | true => rfl

/-- The host takes an address or a beat only if one is offered. -/
theorem nonempty_of_pop :
    (trace.1.fifoAwPop inp = true → trace.1.awFifo.contents ≠ []) ∧
      (trace.1.fifoWPop inp = true → trace.1.wFifo.contents ≠ []) ∧
      (trace.1.fifoArPop inp = true → trace.1.arFifo.contents ≠ []) := by
  simp only [fifoAwPop, fifoWPop, fifoArPop, awValid, wValid, arValid, Bool.and_eq_true,
    Bool.not_eq_true', FifoV3.emptyO_eq_false]
  exact ⟨And.right, And.right, And.right⟩

namespace Inv

variable (inv : trace.Inv)

include inv

theorem length_writes : trace.2.writes.length =
    trace.2.aw.length + trace.1.awFifo.contents.length := by
  have length := inv.addresses.length
  rwa [List.length_map] at length

/-- What the host takes was accepted before this cycle. -/
theorem length_pairs_step_le : (trace.step inp).2.pairs.length ≤ trace.2.writes.length := by
  have taken : (trace.step inp).2.aw.length =
      trace.2.aw.length + (trace.1.fifoAwPop inp).toNat := by
    simp only [HostDirectTrace.step, HostDirectHistory.record, List.length_append]
    cases trace.1.fifoAwPop inp <;> rfl
  have offered : (trace.1.fifoAwPop inp).toNat ≤ trace.1.awFifo.contents.length := by
    cases pops : trace.1.fifoAwPop inp with
    | false => exact Nat.zero_le _
    | true => exact List.length_pos_of_ne_nil (nonempty_of_pop.1 pops)
  rw [length_pairs, taken, inv.length_writes]
  exact (Nat.min_le_left _ _).trans (Nat.add_le_add_left offered _)

/-- A write that is answered has its id in the queue. -/
theorem writeId_nonempty (permits : trace.Permits inp) (answers : inp.bValid = true) :
    trace.1.writeIdFifo.contents ≠ [] := by
  have length := inv.writeIds.length
  have before := permits.2.1 answers
  have accepted := @length_pairs_step_le params trace inp inv
  have counted := inv.counted true
  rw [List.length_map, List.length_map] at length
  apply List.ne_nil_of_length_pos
  omega

theorem readId_nonempty (permits : trace.Permits inp) (answers : inp.rValid = true) :
    trace.1.readIdFifo.contents ≠ [] := by
  have ids := inv.readIds.length
  have addresses := inv.reads.length
  have before := permits.2.2 answers
  -- every answer that came was to a request that went out, and this one is too
  have counted := inv.counted false
  have taken : (trace.step inp).2.ar.length =
      trace.2.ar.length + (trace.1.fifoArPop inp).toNat := by
    simp only [HostDirectTrace.step, HostDirectHistory.record, List.length_append]
    cases trace.1.fifoArPop inp <;> rfl
  have offered : (trace.1.fifoArPop inp).toNat ≤ trace.1.arFifo.contents.length := by
    cases pops : trace.1.fifoArPop inp with
    | false => exact Nat.zero_le _
    | true => exact List.length_pos_of_ne_nil (nonempty_of_pop.2.2 pops)
  rw [List.length_map, List.length_map] at ids
  rw [List.length_map] at addresses
  apply List.ne_nil_of_length_pos
  omega

theorem addresses_step : Flows
    ((trace.step inp).2.writes.map fun cmd => cmd.descr.hostDirectCmd.hostAddr)
    (trace.step inp).2.aw (trace.step inp).1.awFifo.contents := by
  simp only [HostDirectTrace.step, HostDirectHistory.record, map_append_ite]
  exact FifoV3.flows_step inv.addresses (fun pushes => (pushes_of_valid pushes).1)
    nonempty_of_pop.1

theorem beats_step : Flows
    ((trace.step inp).2.writes.map fun cmd => cmd.descr.hostDirectCmd.wDescr)
    (trace.step inp).2.beats (trace.step inp).1.wFifo.contents := by
  simp only [HostDirectTrace.step, HostDirectHistory.record, map_append_ite]
  exact FifoV3.flows_step inv.beats (fun pushes => (pushes_of_valid pushes).2.1)
    nonempty_of_pop.2.1

theorem reads_step : Flows
    ((trace.step inp).2.reads.map fun cmd => cmd.descr.hostDirectCmd.hostAddr)
    (trace.step inp).2.ar (trace.step inp).1.arFifo.contents := by
  simp only [HostDirectTrace.step, HostDirectHistory.record, map_append_ite]
  exact FifoV3.flows_step inv.reads (fun pushes => (pushes_of_read pushes).1)
    nonempty_of_pop.2.2

theorem writeIds_step (permits : trace.Permits inp) : Flows
    ((trace.step inp).2.writes.map PspinCmd.cmdId)
    (((trace.step inp).answers true).map PspinCmdResp.cmdId)
    (trace.step inp).1.writeIdFifo.contents := by
  have sent : (if bReady inp && inp.bValid then [(trace.1.cmdRespO inp).cmdId] else []) =
      if bReady inp && inp.bValid then [trace.1.writeIdFifo.dataO] else [] := by
    cases reads : inp.rValid <;> cases writes : inp.bValid <;> simp [bReady, cmdRespO, reads, writes]
  rw [answers_step, map_append_ite, if_pos rfl, sent]
  simp only [HostDirectTrace.step, HostDirectHistory.record, map_append_ite]
  refine FifoV3.flows_step inv.writeIds (fun pushes => (pushes_of_valid pushes).2.2)
    fun answers => ?_
  exact inv.writeId_nonempty permits (Bool.and_eq_true_iff.mp answers).2

theorem readIds_step (permits : trace.Permits inp) : Flows
    ((trace.step inp).2.reads.map PspinCmd.cmdId)
    (((trace.step inp).answers false).map PspinCmdResp.cmdId)
    (trace.step inp).1.readIdFifo.contents := by
  have sent : (if rReady inp && inp.rValid then [(trace.1.cmdRespO inp).cmdId] else []) =
      if rReady inp && inp.rValid then [trace.1.readIdFifo.dataO] else [] := by
    cases reads : inp.rValid <;> simp [rReady, cmdRespO, reads]
  rw [answers_step, map_append_ite, if_neg Bool.false_ne_true, sent]
  simp only [HostDirectTrace.step, HostDirectHistory.record, map_append_ite]
  refine FifoV3.flows_step inv.readIds (fun pushes => (pushes_of_read pushes).2)
    fun answers => ?_
  exact inv.readId_nonempty permits (Bool.and_eq_true_iff.mp answers).2

theorem answered_step (permits : trace.Permits inp) :
    (trace.step inp).2.answered true ≤ (trace.step inp).2.pairs.length := by
  have grows : trace.2.pairs.length ≤ (trace.step inp).2.pairs.length := by
    rw [length_pairs, length_pairs]
    simp only [HostDirectTrace.step, HostDirectHistory.record, List.length_append]
    omega
  have now : (trace.step inp).2.answered true =
    trace.2.answered true + (bReady inp && inp.bValid).toNat := rfl
  rw [now]
  cases answers : bReady inp && inp.bValid with
  | false => exact inv.answered.trans grows
  | true => exact permits.2.1 (Bool.and_eq_true_iff.mp answers).2

theorem step (permits : trace.Permits inp) : (trace.step inp).Inv where
  addresses := inv.addresses_step
  beats := inv.beats_step
  reads := inv.reads_step
  writeIds := inv.writeIds_step permits
  readIds := inv.readIds_step permits
  counted kind := by
    have now : (trace.step inp).2.answered kind = trace.2.answered kind + _ := rfl
    have one (answers : Bool) :
        (if answers then [trace.1.cmdRespO inp] else []).length = answers.toNat := by
      cases answers <;> rfl
    rw [answers_step, List.length_append, inv.counted, now, one]
  answered := inv.answered_step permits
  sized cmd member := by
    rcases List.mem_append.mp member with before | now
    · exact inv.sized cmd before
    · split at now
      next pushes =>
        obtain rfl : cmd = inp.cmdReqI := by simpa using now
        exact permits.1 pushes
      next => cases now

/-- The pairs that the host took are those of the first writes. -/
theorem pairs_eq : trace.2.pairs =
    trace.2.issued.map fun cmd => cmd.descr.hostDirectCmd.write := by
  have addresses : trace.2.writes.map (fun cmd => cmd.descr.hostDirectCmd.hostAddr) = _ :=
    inv.addresses
  have beats : trace.2.writes.map (fun cmd => cmd.descr.hostDirectCmd.wDescr) = _ := inv.beats
  have whole : trace.2.writes.map (fun cmd => cmd.descr.hostDirectCmd.write) =
      List.zipWith HostDirectWrite.ofBeat
        (trace.2.writes.map fun cmd => cmd.descr.hostDirectCmd.hostAddr)
        (trace.2.writes.map fun cmd => cmd.descr.hostDirectCmd.wDescr) := by
    rw [List.zipWith_map, List.zipWith_self]
    rfl
  rw [HostDirectHistory.issued, List.map_take, whole, List.take_zipWith, addresses, beats,
    length_pairs, HostDirectHistory.pairs, List.take_append_of_le_length (Nat.min_le_left _ _),
    List.take_append_of_le_length (Nat.min_le_right _ _)]
  exact List.zipWith_eq_zipWith_take_min

/-- The effects are right if and only if all the addresses are on the first lane. -/
theorem writesHost_iff : trace.WritesHost ↔
    ∀ cmd ∈ trace.2.issued, cmd.descr.hostDirectCmd.hostAddr.toNat % 64 = 0 := by
  -- each effect is that of its command exactly when its address is
  have exactly : List.Forall₂ (fun write cmd => cmd.descr.hostDirectCmd.Stores write)
      trace.2.pairs trace.2.issued ↔
        ∀ cmd ∈ trace.2.issued, cmd.descr.hostDirectCmd.hostAddr.toNat % 64 = 0 := by
    rw [inv.pairs_eq, List.forall₂_map_left_iff, List.forall₂_same]
    refine forall₂_congr fun cmd member => ?_
    exact HostDirectCmd.stores_iff (inv.sized cmd (List.mem_of_mem_take member))
  constructor
  · exact fun law => exactly.mp law.effects
  · intro aligned
    exact
      { effects := exactly.mpr aligned
        responses := inv.writeIds
        once := inv.counted true
        after := (inv.counted true).le.trans inv.answered
        readResponses := inv.readIds }

end Inv

end HostDirectTrace

/-- Writes to the host: in every run with immediate sizes from 1 to 64 and a host that answers what
    it took, each write stores its data at its address and each command gets one response, in
    order, exactly when the addresses of all the writes are multiples of 64. -/
theorem hostDirect_writes_iff (params : HostDirectParams) (inputs : List (HostDirectIn params))
    (permitted : (hostDirectTrace params).Admits HostDirectTrace.Permits inputs) :
    ((hostDirectTrace params).run inputs).WritesHost ↔
      ∀ cmd ∈ ((hostDirectTrace params).run inputs).2.issued,
        cmd.descr.hostDirectCmd.hostAddr.toNat % 64 = 0 :=
  (permitted.invariant HostDirectTrace.Inv HostDirectTrace.inv_reset
    fun _ _ inv permits => inv.step permits).writesHost_iff

namespace HostDirectTrace

/-- The command of `spin_write_to_host` for eight bytes. -/
def writeCmd (params : HostDirectParams) (hostAddr : HostAddr) (userData : BitVec 32) :
    params.Cmd :=
  let descr := ((default : PspinCmdDescr).setIfInBounds 0 (hostAddr.setWidth 32)).setIfInBounds 2 17
  { (default : params.Cmd) with descr := descr.setIfInBounds 3 userData }

/-- A write that is accepted, taken by the host and answered. -/
def writeRun (params : HostDirectParams) (cmd : params.Cmd) : List (HostDirectIn params) :=
  [⟨true, cmd, true, true, true, false, false⟩, ⟨false, cmd, true, true, true, false, false⟩,
    ⟨false, cmd, true, true, true, true, false⟩]

end HostDirectTrace

/-- At the deployed sizes, a write to address 128. -/
theorem hostDirect_writes_iff_128 :
    let params : HostDirectParams :=
      ⟨16, 16, 16, 32, 32, 8, 2, by decide, by decide, by decide, by decide, by decide⟩
    let inputs := HostDirectTrace.writeRun params
      (HostDirectTrace.writeCmd params 128 0xcafebebe)
    let trace := (hostDirectTrace params).run inputs
    trace.WritesHost ↔ ∀ cmd ∈ trace.2.issued, cmd.descr.hostDirectCmd.hostAddr.toNat % 64 = 0 :=
  hostDirect_writes_iff _ _ (by decide +kernel)

/-- The write of the `host_direct` example goes to an address that is not on the first lane. -/
theorem hostDirect_writes_below :
    let params : HostDirectParams :=
      ⟨16, 16, 16, 32, 32, 8, 2, by decide, by decide, by decide, by decide, by decide⟩
    let inputs := HostDirectTrace.writeRun params
      (HostDirectTrace.writeCmd params 0xdeadbeef 0xcafebebe)
    (hostDirectTrace params).Admits HostDirectTrace.Permits inputs ∧
      ¬((hostDirectTrace params).run inputs).WritesHost := by
  intro params inputs
  have permitted : (hostDirectTrace params).Admits HostDirectTrace.Permits inputs := by
    decide +kernel
  have inv := permitted.invariant HostDirectTrace.Inv HostDirectTrace.inv_reset
    fun _ _ inv permits => inv.step permits
  refine ⟨permitted, fun law => ?_⟩
  have aligned := inv.writesHost_iff.mp law
  revert aligned
  decide +kernel

end Pspin
