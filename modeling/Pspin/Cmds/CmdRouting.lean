import Pspin.Clocked.Flow
import Pspin.Cmds.CmdUnit

/-! # Commands and responses of `cmd_unit`

A history records what passes each place.  A command leaves the register of its
cluster for exactly the interface it names; the commands in flight to an
interface and its responses that wait hold the places of the credit FIFO, which
stays one short of its depth, so the usage is never cut and no response is lost.
-/

namespace Pspin

open Clocked

/-- Commands accepted from a cluster, passed on by its register and received by an
    interface; responses given by an interface, taken from its buffer and delivered. -/
structure CmdUnitHistory (params : CmdUnitParams) where
  accepted : params.Cluster → List params.Cmd
  passed : params.Cluster → List params.Cmd
  received : params.Intf → List (params.Cluster × params.Cmd)
  given : params.Intf → List params.Resp
  taken : List (params.Intf × params.Resp)
  delivered : List params.Resp

namespace CmdUnitHistory

variable {params : CmdUnitParams}

def empty : CmdUnitHistory params where
  accepted := fun _ => []
  passed := fun _ => []
  received := fun _ => []
  given := fun _ => []
  taken := []
  delivered := []

def record (unit : CmdUnit params) (history : CmdUnitHistory params) (inp : CmdUnitIn params) :
    CmdUnitHistory params where
  accepted j := history.accepted j ++
    if inp.cmdValidI j && unit.cmdReadyO j then [inp.cmdI j] else []
  passed j := history.passed j ++
    if unit.clusterCmdValid j && unit.clusterCmdReady inp j then [unit.clusterCmd j] else []
  received i := history.received i ++
    if unit.intfValidO i && inp.intfReadyI i then [(unit.cmdArbIdx i, unit.intfCmdO i)] else []
  given i := history.given i ++ if inp.intfCmdRespValidI i then [inp.intfCmdRespI i] else []
  taken := history.taken ++
    if unit.respArbValid then [(unit.respArbIdx, unit.respArbData)] else []
  delivered := history.delivered ++ if unit.cmdRespValidO then [unit.cmdRespO] else []

end CmdUnitHistory

abbrev CmdUnitTrace (params : CmdUnitParams) := CmdUnit params × CmdUnitHistory params

def cmdUnitTrace (params : CmdUnitParams) : Machine (CmdUnitTrace params) (CmdUnitIn params) :=
  (cmdUnit params).observedBy CmdUnitHistory.empty CmdUnitHistory.record

/-- The command names the interface. -/
def CmdUnitParams.names (params : CmdUnitParams) (i : params.Intf) (cmd : params.Cmd) : Bool :=
  decide (cmd.intfId.toNat = i.val)

namespace CmdUnit

variable {params : CmdUnitParams} {unit : CmdUnit params} {inp : CmdUnitIn params}

/-- The ready of a cluster is that of the interface its command names. -/
theorem clusterCmdReady_eq {i : params.Intf} {j : params.Cluster}
    (names : (unit.clusterCmd j).intfId.toNat = i) :
    unit.clusterCmdReady inp j = unit.intfMuxReady inp i j := by
  have inside : (unit.clusterCmd j).intfId.toNat < params.numCmdInterfaces := names ▸ i.isLt
  have same : (⟨_, inside⟩ : params.Intf) = i := Fin.ext names
  rw [clusterCmdReady, dif_pos inside, same]

/-- The handshake at an interface is the one at the cluster it takes a command from. -/
theorem fires_eq (held : ∀ i, (unit.cmdIntfArb i).Latched (unit.intfMuxValid i)) (i : params.Intf)
    (j : params.Cluster) :
    ((unit.intfValidO i && inp.intfReadyI i) && decide (unit.cmdArbIdx i = j)) =
      ((unit.clusterCmdValid j && unit.clusterCmdReady inp j) &&
        params.names i (unit.clusterCmd j)) := by
  have granted := (held i).granted_eq (unit.cmdArbReady inp i) j
  have fires : (unit.intfValidO i && inp.intfReadyI i) =
      ((unit.cmdIntfArb i).reqO (unit.intfMuxValid i) && unit.cmdArbReady inp i) := by
    rw [intfValidO, cmdArbValid, cmdArbReady, Bool.and_assoc, Bool.and_comm (inp.intfReadyI i)]
  rw [fires]
  show (_ && decide ((unit.cmdIntfArb i).idxO (unit.intfMuxValid i) = j)) = _
  rw [← granted]
  by_cases names : (unit.clusterCmd j).intfId.toNat = i
  · simp [intfMuxValid, CmdUnitParams.names, names, clusterCmdReady_eq names, intfMuxReady]
  · simp [intfMuxValid, CmdUnitParams.names, names]

/-- A buffer is popped when the arbiter picks it. -/
theorem fifoRespBufferPop_eq (held : unit.cmdRespArb.Latched unit.fifoRespBufferValid)
    (i : params.Intf) :
    unit.fifoRespBufferPop i = (unit.respArbValid && decide (unit.respArbIdx = i)) := by
  rw [fifoRespBufferPop, Bool.and_comm]
  have granted := held.granted_eq true i
  rw [Bool.and_true] at granted
  exact granted

/-- A command that is not taken stays at the interface it names. -/
theorem intfMuxValid_step {i : params.Intf} {j : params.Cluster}
    (refused : unit.cmdArbReady inp i = false) (waits : unit.intfMuxValid i j = true) :
    (unit.step inp).intfMuxValid i j = true := by
  simp only [intfMuxValid, Bool.and_eq_true, decide_eq_true_eq] at waits ⊢
  obtain ⟨valid, names⟩ := waits
  have notReady : unit.clusterCmdReady inp j = false := by
    rw [clusterCmdReady_eq names, intfMuxReady, refused]
    rfl
  have stalls := SpillRegister.stalls valid (inp.cmdValidI j) (inp.cmdI j)
  have next : (unit.step inp).clusterCmdSpill j =
      (unit.clusterCmdSpill j).step (inp.cmdValidI j) (inp.cmdI j) false := by
    simp [step, notReady]
  rw [clusterCmdValid, clusterCmd, next, stalls.1, stalls.2]
  exact ⟨rfl, names⟩

end CmdUnit

namespace CmdUnitTrace

variable {params : CmdUnitParams}

def step (trace : CmdUnitTrace params) (inp : CmdUnitIn params) : CmdUnitTrace params :=
  (trace.1.step inp, CmdUnitHistory.record trace.1 trace.2 inp)

/-- Commands name an interface, and an interface answers each of its commands at most once. -/
def Permits (trace : CmdUnitTrace params) (inp : CmdUnitIn params) : Prop :=
  (∀ j, (inp.cmdValidI j && trace.1.cmdReadyO j) = true →
    (inp.cmdI j).intfId.toNat < params.numCmdInterfaces) ∧
  ∀ i, ((trace.step inp).2.given i).length ≤ ((trace.step inp).2.received i).length

instance (trace : CmdUnitTrace params) (inp : CmdUnitIn params) : Decidable (trace.Permits inp) :=
  inferInstanceAs (Decidable ((∀ _ : Fin params.numClusters, _ → _) ∧
    ∀ _ : Fin params.numCmdInterfaces, _ ≤ _))

/-- Commands move on to the interfaces they name and responses to the clusters. -/
structure Moves (trace : CmdUnitTrace params) : Prop where
  accepted : ∀ j, Flows (trace.2.accepted j) (trace.2.passed j) (trace.1.clusterCmdSpill j).contents
  named : ∀ j, ∀ cmd ∈ trace.2.accepted j, cmd.intfId.toNat < params.numCmdInterfaces
  routed : ∀ i j, ofKey j (trace.2.received i) = (trace.2.passed j).filter (params.names i)
  responses : ∀ i, Flows (trace.2.given i) (ofKey i trace.2.taken) (trace.1.respFifo i).contents
  delivered : Flows (trace.2.taken.map Prod.snd) trace.2.delivered
    trace.1.clusterCmdRespSpill.contents
  answered : ∀ i, (trace.2.given i).length ≤ (trace.2.received i).length

/-- Commands in flight to an interface and its responses that are queued. -/
def pending (trace : CmdUnitTrace params) (i : params.Intf) : Nat :=
  (trace.2.received i).length - (trace.2.given i).length + (trace.1.respFifo i).contents.length

/-- Besides, the buffers never overflow, an interface with a place left is offered a
    command if there is one for it, and a response that is queued is on its way. -/
structure Routes (trace : CmdUnitTrace params) : Prop extends Moves trace where
  below : ∀ i, trace.pending i < params.intfRespBuffSize
  usage : ∀ i, (trace.1.reqFifo i).usageO = trace.pending i
  offers : ∀ i, (∃ j, trace.1.intfMuxValid i j = true) →
    trace.pending i < params.intfRespBuffSize - 1 → trace.1.intfValidO i = true
  drains : (∃ i, (trace.1.respFifo i).contents ≠ []) → trace.1.respArbValid = true

/-- The invariant: the credits in use are the commands in flight and the responses queued. -/
structure Inv (trace : CmdUnitTrace params) : Prop extends Moves trace where
  credits : ∀ i, (trace.2.received i).length + (trace.1.respFifo i).contents.length =
    (trace.2.given i).length + (trace.1.reqFifo i).contents.length
  spare : ∀ i, (trace.1.reqFifo i).contents.length < params.intfRespBuffSize
  drained : trace.1.clusterCmdRespSpill.contents.length ≤ 1
  held : ∀ i, (trace.1.cmdIntfArb i).Latched (trace.1.intfMuxValid i)
  respHeld : trace.1.cmdRespArb.Latched trace.1.fifoRespBufferValid

variable {trace : CmdUnitTrace params} {inp : CmdUnitIn params}

theorem inv_reset : Inv (cmdUnitTrace params).reset where
  accepted _ := .nil
  named _ := nofun
  routed _ _ := rfl
  responses _ := .nil
  delivered := .nil
  answered _ := Nat.le_refl _
  credits _ := rfl
  spare _ := Nat.two_pow_pos _
  drained := Nat.zero_le _
  held _ := RrArbTree.Latched.reset _
  respHeld := RrArbTree.Latched.reset _

theorem queued_of_pop {i : params.Intf} (pop : trace.1.fifoRespBufferPop i = true) :
    0 < (trace.1.respFifo i).contents.length := by
  simp only [CmdUnit.fifoRespBufferPop, CmdUnit.fifoRespBufferValid, Bool.and_eq_true,
    Bool.not_eq_true', FifoV3.emptyO_eq_false] at pop
  exact List.length_pos_of_ne_nil pop.2

theorem length_received_step (i : params.Intf) :
    ((trace.step inp).2.received i).length =
      (trace.2.received i).length + (trace.1.fifoInFlightReqPush inp i).toNat := by
  have fires : (trace.1.intfValidO i && inp.intfReadyI i) = trace.1.fifoInFlightReqPush inp i := by
    rw [CmdUnit.intfValidO, CmdUnit.fifoInFlightReqPush, CmdUnit.cmdArbReady, Bool.and_assoc,
      Bool.and_comm (inp.intfReadyI i)]
  simp only [CmdUnitTrace.step, CmdUnitHistory.record, List.length_append, fires]
  cases trace.1.fifoInFlightReqPush inp i <;> rfl

namespace Inv

variable (inv : trace.Inv)

include inv

/-- The usage of a credit FIFO that is not full is its fill count. -/
theorem usageO_eq (i : params.Intf) :
    (trace.1.reqFifo i).usageO = (trace.1.reqFifo i).contents.length := by
  have spare : (trace.1.reqFifo i).contents.length < 2 ^ params.respBuffBits := inv.spare i
  have width : clog2 params.intfRespBuffSize = params.respBuffBits := clog2_two_pow _
  rw [FifoV3.usageO, width, ← FifoV3.length_contents, truncate_of_lt spare]

/-- A command is taken only if it leaves the credit FIFO below its depth. -/
theorem spare_of_push {i : params.Intf} (push : trace.1.fifoInFlightReqPush inp i = true) :
    (trace.1.reqFifo i).contents.length < params.intfRespBuffSize - 1 := by
  simp only [CmdUnit.fifoInFlightReqPush, CmdUnit.cmdArbReady, CmdUnit.fifoInFlightReqHasSpace,
    Bool.and_eq_true, decide_eq_true_eq, inv.usageO_eq] at push
  exact push.2.2

/-- An interface is offered a command only if one less than its response buffer holds are in
    flight to it, which is what `soc_dma_wrap` relies on. -/
theorem outstanding_of_valid {i : params.Intf} (valid : trace.1.intfValidO i = true) :
    (trace.2.received i).length - (trace.2.given i).length < params.intfRespBuffSize - 1 := by
  have credits := inv.credits i
  simp only [CmdUnit.intfValidO, CmdUnit.fifoInFlightReqHasSpace, Bool.and_eq_true,
    decide_eq_true_eq, inv.usageO_eq] at valid
  omega

theorem queued_le (i : params.Intf) :
    (trace.1.respFifo i).contents.length ≤ (trace.1.reqFifo i).contents.length := by
  have credits := inv.credits i
  have answered := inv.answered i
  omega

/-- The response buffer always takes a response. -/
theorem respFifo_step (i : params.Intf) :
    ((trace.step inp).1.respFifo i).contents =
      (if trace.1.fifoRespBufferPop i then (trace.1.respFifo i).contents.tail
        else (trace.1.respFifo i).contents) ++
        if inp.intfCmdRespValidI i then [inp.intfCmdRespI i] else [] := by
  have notFull : (trace.1.respFifo i).fullO = false :=
    FifoV3.fullO_eq_false.mpr ((inv.queued_le i).trans_lt (inv.spare i))
  have next : ((trace.step inp).1.respFifo i).contents = _ :=
    FifoV3.contents_step (trace.1.respFifo i) (inp.intfCmdRespI i) (inp.intfCmdRespValidI i)
      (trace.1.fifoRespBufferPop i)
  rw [next, notFull, Bool.not_false, Bool.and_true]

/-- The credit FIFO always takes a credit. -/
theorem length_reqFifo_step (i : params.Intf) :
    ((trace.step inp).1.reqFifo i).contents.length = (trace.1.reqFifo i).contents.length -
      (trace.1.fifoRespBufferPop i).toNat + (trace.1.fifoInFlightReqPush inp i).toNat := by
  have notFull : (trace.1.reqFifo i).fullO = false := FifoV3.fullO_eq_false.mpr (inv.spare i)
  have next : ((trace.step inp).1.reqFifo i).contents = _ :=
    FifoV3.contents_step (trace.1.reqFifo i) true (trace.1.fifoInFlightReqPush inp i)
      (trace.1.fifoRespBufferPop i)
  rw [next, notFull, Bool.not_false, Bool.and_true, List.length_append]
  cases trace.1.fifoRespBufferPop i <;> cases trace.1.fifoInFlightReqPush inp i <;> simp

theorem credits_step (i : params.Intf) :
    ((trace.step inp).2.received i).length + ((trace.step inp).1.respFifo i).contents.length =
      ((trace.step inp).2.given i).length + ((trace.step inp).1.reqFifo i).contents.length := by
  have credits := inv.credits i
  have queued := inv.queued_le i
  have given : ((trace.step inp).2.given i).length =
      (trace.2.given i).length + (inp.intfCmdRespValidI i).toNat := by
    simp only [CmdUnitTrace.step, CmdUnitHistory.record, List.length_append]
    cases inp.intfCmdRespValidI i <;> rfl
  have responses : ((trace.step inp).1.respFifo i).contents.length =
      (trace.1.respFifo i).contents.length - (trace.1.fifoRespBufferPop i).toNat +
        (inp.intfCmdRespValidI i).toNat := by
    rw [inv.respFifo_step, List.length_append]
    cases trace.1.fifoRespBufferPop i <;> cases inp.intfCmdRespValidI i <;> simp
  rw [length_received_step, given, responses, inv.length_reqFifo_step]
  cases pop : trace.1.fifoRespBufferPop i with
  | false =>
    simp only [Bool.toNat_false]
    omega
  | true =>
    have some := queued_of_pop pop
    simp only [Bool.toNat_true]
    omega

theorem spare_step (i : params.Intf) :
    ((trace.step inp).1.reqFifo i).contents.length < params.intfRespBuffSize := by
  have spare := inv.spare i
  rw [inv.length_reqFifo_step]
  cases push : trace.1.fifoInFlightReqPush inp i with
  | false =>
    simp only [Bool.toNat_false]
    omega
  | true =>
    have below := inv.spare_of_push push
    simp only [Bool.toNat_true]
    omega

/-- What a cycle passes on from a cluster to an interface. -/
theorem routed_step (i : params.Intf) (j : params.Cluster) :
    ofKey j ((trace.step inp).2.received i) =
      ((trace.step inp).2.passed j).filter (params.names i) := by
  have fires := @CmdUnit.fires_eq params trace.1 inp inv.held i j
  have added : ofKey j (if trace.1.intfValidO i && inp.intfReadyI i
      then [(trace.1.cmdArbIdx i, trace.1.intfCmdO i)] else []) =
      (if trace.1.clusterCmdValid j && trace.1.clusterCmdReady inp j
        then [trace.1.clusterCmd j] else []).filter (params.names i) := by
    rw [ofKey_ite, fires]
    by_cases chosen : trace.1.cmdArbIdx i = j
    · have same : trace.1.intfCmdO i = trace.1.clusterCmd j := by
        rw [CmdUnit.intfCmdO, CmdUnit.cmdArbCmd, chosen]
      rw [same]
      cases trace.1.clusterCmdValid j && trace.1.clusterCmdReady inp j <;>
        simp [List.filter_singleton]
    · -- no command of this cluster is taken for this interface
      rw [decide_eq_false chosen, Bool.and_false] at fires
      rw [← fires]
      cases passes : trace.1.clusterCmdValid j && trace.1.clusterCmdReady inp j with
      | false => rfl
      | true =>
        rw [passes, Bool.true_and] at fires
        simp [← fires]
  simp only [CmdUnitTrace.step, CmdUnitHistory.record, ofKey_append, List.filter_append, added,
    inv.routed]

theorem responses_step (i : params.Intf) :
    Flows ((trace.step inp).2.given i) (ofKey i (trace.step inp).2.taken)
      ((trace.step inp).1.respFifo i).contents := by
  have taken : ofKey i (if trace.1.respArbValid then [(trace.1.respArbIdx, trace.1.respArbData)]
      else []) = if trace.1.fifoRespBufferPop i
        then (trace.1.respFifo i).contents.head?.toList else [] := by
    rw [ofKey_ite, CmdUnit.fifoRespBufferPop_eq inv.respHeld]
    cases pops : trace.1.respArbValid && decide (trace.1.respArbIdx = i) with
    | false => rfl
    | true =>
      have pop : trace.1.fifoRespBufferPop i = true := by
        rw [CmdUnit.fifoRespBufferPop_eq inv.respHeld, pops]
      simp only [Bool.and_eq_true, decide_eq_true_eq] at pops
      obtain ⟨-, rfl⟩ := pops
      cases holds : (trace.1.respFifo trace.1.respArbIdx).contents with
      | nil => simpa [holds] using queued_of_pop pop
      | cons data rest => simp [CmdUnit.respArbData, FifoV3.dataO_eq_head holds]
  have step := (inv.responses i).step (trace.1.fifoRespBufferPop i)
    (if inp.intfCmdRespValidI i then [inp.intfCmdRespI i] else [])
  rw [inv.respFifo_step]
  simpa only [CmdUnitTrace.step, CmdUnitHistory.record, ofKey_append, taken] using step

/-- The register to the clusters never holds more than one response. -/
theorem respSpill_step : (trace.step inp).1.clusterCmdRespSpill.contents =
    trace.1.clusterCmdRespSpill.contents.tail ++
      if trace.1.respArbValid then [trace.1.respArbData] else [] := by
  have ready : trace.1.clusterCmdRespSpill.readyO = true :=
    SpillRegister.readyO_eq_true.mpr (Nat.lt_of_le_of_lt inv.drained Nat.one_lt_two)
  have next : (trace.step inp).1.clusterCmdRespSpill.contents = _ :=
    SpillRegister.contents_step trace.1.clusterCmdRespSpill trace.1.respArbValid
      trace.1.respArbData true
  rw [next, ready, Bool.and_true, if_pos rfl]

theorem delivered_step :
    Flows ((trace.step inp).2.taken.map Prod.snd) (trace.step inp).2.delivered
      (trace.step inp).1.clusterCmdRespSpill.contents := by
  have output := trace.1.clusterCmdRespSpill.output_eq true
  rw [Bool.and_true, if_pos rfl] at output
  have step := inv.delivered.step true
    (if trace.1.respArbValid then [trace.1.respArbData] else [])
  have delivered : (trace.step inp).2.delivered = trace.2.delivered ++
      if trace.1.clusterCmdRespSpill.validO then [trace.1.clusterCmdRespSpill.dataO] else [] := rfl
  have taken : (trace.step inp).2.taken.map Prod.snd = trace.2.taken.map Prod.snd ++
      if trace.1.respArbValid then [trace.1.respArbData] else [] := by
    simp only [CmdUnitTrace.step, CmdUnitHistory.record, List.map_append]
    cases trace.1.respArbValid <;> rfl
  rw [inv.respSpill_step, delivered, taken, output]
  simpa using step

theorem step (permits : trace.Permits inp) : (trace.step inp).Inv where
  accepted j := by
    -- what leaves the spill register is what the cluster hands on
    have output := (trace.1.clusterCmdSpill j).output_eq (trace.1.clusterCmdReady inp j)
    have contents : ((trace.step inp).1.clusterCmdSpill j).contents = _ :=
      SpillRegister.contents_step (trace.1.clusterCmdSpill j) (inp.cmdValidI j) (inp.cmdI j)
        (trace.1.clusterCmdReady inp j)
    have step := (inv.accepted j).step (trace.1.clusterCmdReady inp j)
      (if inp.cmdValidI j && trace.1.cmdReadyO j then [inp.cmdI j] else [])
    have passed : (trace.step inp).2.passed j = trace.2.passed j ++
        if (trace.1.clusterCmdSpill j).validO && trace.1.clusterCmdReady inp j
        then [(trace.1.clusterCmdSpill j).dataO] else [] := rfl
    rw [contents, passed, output]
    exact step
  named j cmd member := by
    rcases List.mem_append.mp member with before | now
    · exact inv.named j cmd before
    · split at now
      next arrives =>
        obtain rfl : cmd = inp.cmdI j := by simpa using now
        exact permits.1 j arrives
      next => cases now
  routed := inv.routed_step
  responses := inv.responses_step
  delivered := inv.delivered_step
  answered := permits.2
  credits := inv.credits_step
  spare := inv.spare_step
  drained := by
    have drained := inv.drained
    rw [inv.respSpill_step, List.length_append, List.length_tail]
    split
    · simp only [List.length_singleton]
      omega
    · simp only [List.length_nil]
      omega
  held i := (inv.held i).step (fun _ => id) fun refused _ waits =>
    CmdUnit.intfMuxValid_step refused waits
  respHeld := inv.respHeld.step (fun _ => id) nofun

theorem routes : trace.Routes where
  toMoves := inv.toMoves
  below i := by
    have credits := inv.credits i
    have answered := inv.answered i
    have spare := inv.spare i
    rw [pending]
    omega
  usage i := by
    have credits := inv.credits i
    have answered := inv.answered i
    rw [inv.usageO_eq, pending]
    omega
  offers i := by
    rintro ⟨j, waits⟩ room
    have requested : trace.1.cmdArbValid i = true := (inv.held i).reqO_of_reqI waits
    have credits := inv.credits i
    have answered := inv.answered i
    -- a free credit is room in the FIFO of requests in flight
    have space : trace.1.fifoInFlightReqHasSpace i = true := by
      rw [CmdUnit.fifoInFlightReqHasSpace, inv.usageO_eq, decide_eq_true_eq]
      rw [pending] at room
      omega
    rw [CmdUnit.intfValidO, requested, space]
    rfl
  drains := by
    rintro ⟨i, queued⟩
    have set : trace.1.fifoRespBufferValid i = true := by
      simpa [CmdUnit.fifoRespBufferValid] using queued
    exact inv.respHeld.reqO_of_reqI set

end Inv

/-- Command routing: every command reaches exactly the interface it names, once and
    unchanged, every response reaches the clusters once, and no buffer overflows, for
    every depth of the buffers that is a power of two and at least 2. -/
theorem cmdUnit_routes (params : CmdUnitParams) (inputs : List (CmdUnitIn params))
    (permitted : (cmdUnitTrace params).Admits Permits inputs) :
    Routes ((cmdUnitTrace params).run inputs) := by
  have inv := permitted.invariant Inv inv_reset fun _ _ inv permits => inv.step permits
  exact inv.routes

/-- Two clusters send to interface 1 at once.  With buffers of two places one command is
    in flight at a time, the second one leaves when the response of the first is out. -/
theorem cmdUnit_routes_throttled :
    let params : CmdUnitParams := ⟨2, 2, 1, 1, 1, by decide, by decide, by decide⟩
    let cmd (k : BitVec 1) : params.Cmd := ⟨1, ⟨0, 0, k⟩, .nicSend, Vector.replicate 19 0, false⟩
    let quiet : CmdUnitIn params := ⟨fun _ => false, fun _ => cmd 0, fun _ => true,
      fun _ => false, fun _ => ⟨⟨0, 0, 0⟩⟩⟩
    let inputs := [
      { quiet with cmdValidI := fun _ => true, cmdI := fun j => cmd (BitVec.ofNat 1 j) }, quiet,
      { quiet with intfCmdRespValidI := fun i => decide (i = 1) }, quiet, quiet]
    let trace := (cmdUnitTrace params).run inputs
    (trace.2.received 1 = [(0, cmd 0), (1, cmd 1)] ∧ trace.2.delivered = [⟨⟨0, 0, 0⟩⟩]) ∧
      Routes trace :=
  ⟨by decide +kernel, cmdUnit_routes _ _ (by decide +kernel)⟩

end CmdUnitTrace

end Pspin
