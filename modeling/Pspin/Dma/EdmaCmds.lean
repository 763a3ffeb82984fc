import Pspin.Clocked.Selection
import Pspin.Cmds.CmdRouting
import Pspin.Dma.SocDmaResponses

/-! # Commands to the SoC-level DMA

`pspin` connects an interface of `cmd_unit` with `soc_dma_wrap`, and each of the two relies on the other:
the FIFOs of the wrapper have room because the unit keeps few commands outstanding, and the response
buffer of the unit has room because the wrapper answers a command at most once.  Here the wires between
them are closed.  What is left open is the clusters, the other interfaces and the engine.
-/

namespace Pspin

open Clocked

structure EdmaCmdsParams extends CmdUnitParams where
  axiAxReqDepth : Nat
  tfReqFifoDepth : Nat
  someDepth : 0 < tfReqFifoDepth + axiAxReqDepth
  respBuffers : 2 ^ respBuffBits - 1 ≤ tfReqFifoDepth + axiAxReqDepth
  someEdma : cmdEdmaId < numCmdInterfaces

namespace EdmaCmdsParams

variable (params : EdmaCmdsParams)

abbrev wrap : SocDmaWrapParams where
  axiAxReqDepth := params.axiAxReqDepth
  tfReqFifoDepth := params.tfReqFifoDepth
  intfRespBuffSize := params.intfRespBuffSize
  numCores := params.numCores
  idBits := params.idBits
  someDepth := params.someDepth
  buffers := params.respBuffers

/-- The interface of the SoC-level DMA. -/
def edma : params.Intf := ⟨cmdEdmaId, params.someEdma⟩

end EdmaCmdsParams

structure EdmaCmds (params : EdmaCmdsParams) where
  cmdUnit : CmdUnit params.toCmdUnitParams
  socDmaWrap : SocDmaWrap params.wrap

/-- What the clusters, the other interfaces and the engine drive. -/
structure EdmaCmdsIn (params : EdmaCmdsParams) where
  cmdValidI : params.Cluster → Bool
  cmdI : params.Cluster → params.Cmd
  intfReadyI : params.Intf → Bool
  intfCmdRespValidI : params.Intf → Bool
  intfCmdRespI : params.Intf → params.Resp
  reqReady : DmaPort → Bool
  respValid : DmaPort → Bool

namespace EdmaCmds

variable {params : EdmaCmdsParams}

def reset : EdmaCmds params where
  cmdUnit := CmdUnit.reset
  socDmaWrap := SocDmaWrap.reset

variable (cmds : EdmaCmds params) (inp : EdmaCmdsIn params)

def socDmaWrapIn : SocDmaWrapIn params.wrap where
  cmdReqValidI := cmds.cmdUnit.intfValidO params.edma
  cmdReqI := cmds.cmdUnit.intfCmdO params.edma
  reqReady := inp.reqReady
  respValid := inp.respValid

def cmdUnitIn : CmdUnitIn params.toCmdUnitParams where
  cmdValidI := inp.cmdValidI
  cmdI := inp.cmdI
  intfReadyI i := if i = params.edma then cmds.socDmaWrap.cmdReqReadyO (cmds.socDmaWrapIn inp)
    else inp.intfReadyI i
  intfCmdRespValidI i := if i = params.edma then cmds.socDmaWrap.cmdRespValidO
    else inp.intfCmdRespValidI i
  intfCmdRespI i := if i = params.edma then cmds.socDmaWrap.cmdRespO else inp.intfCmdRespI i

/-- One clock edge. -/
def step : EdmaCmds params where
  cmdUnit := cmds.cmdUnit.step (cmds.cmdUnitIn inp)
  socDmaWrap := cmds.socDmaWrap.step (cmds.socDmaWrapIn inp)

end EdmaCmds

def edmaCmds (params : EdmaCmdsParams) : Machine (EdmaCmds params) (EdmaCmdsIn params) where
  reset := EdmaCmds.reset
  step := EdmaCmds.step

structure EdmaCmdsHistory (params : EdmaCmdsParams) where
  cmdUnit : CmdUnitHistory params.toCmdUnitParams
  socDmaWrap : SocDmaHistory params.wrap

namespace EdmaCmdsHistory

variable {params : EdmaCmdsParams}

def empty : EdmaCmdsHistory params where
  cmdUnit := CmdUnitHistory.empty
  socDmaWrap := SocDmaHistory.empty

def record (cmds : EdmaCmds params) (history : EdmaCmdsHistory params) (inp : EdmaCmdsIn params) :
    EdmaCmdsHistory params where
  cmdUnit := CmdUnitHistory.record cmds.cmdUnit history.cmdUnit (cmds.cmdUnitIn inp)
  socDmaWrap := SocDmaHistory.record cmds.socDmaWrap history.socDmaWrap (cmds.socDmaWrapIn inp)

end EdmaCmdsHistory

abbrev EdmaCmdsTrace (params : EdmaCmdsParams) := EdmaCmds params × EdmaCmdsHistory params

def edmaCmdsTrace (params : EdmaCmdsParams) : Machine (EdmaCmdsTrace params) (EdmaCmdsIn params) :=
  (edmaCmds params).observedBy EdmaCmdsHistory.empty EdmaCmdsHistory.record

/-- The port whose transfer a command asks for. -/
def PspinCmd.dmaPort {numCores idBits : Nat} (cmd : PspinCmd numCores idBits) : DmaPort :=
  if cmd.descr.hostDmaCmd.rxReqValid then DmaPort.rx else DmaPort.tx

namespace EdmaCmdsTrace

variable {params : EdmaCmdsParams}

section

variable (trace : EdmaCmdsTrace params) (inp : EdmaCmdsIn params)

def step : EdmaCmdsTrace params := (trace.1.step inp, EdmaCmdsHistory.record trace.1 trace.2 inp)

/-! The two units with their own histories. -/

def unit : CmdUnitTrace params.toCmdUnitParams := (trace.1.cmdUnit, trace.2.cmdUnit)

def wrap : SocDmaTrace params.wrap := (trace.1.socDmaWrap, trace.2.socDmaWrap)

/-- Commands name an interface, the other interfaces answer each of their commands at most once, and the
    engine completes transfers that it took. -/
structure Permits : Prop where
  named : ∀ j, (inp.cmdValidI j && trace.1.cmdUnit.cmdReadyO j) = true →
    (inp.cmdI j).intfId.toNat < params.numCmdInterfaces
  others : ∀ i, i ≠ params.edma →
    ((trace.step inp).unit.2.given i).length ≤ ((trace.step inp).unit.2.received i).length
  completes : ∀ port, inp.respValid port = true →
    trace.wrap.2.completed port < ((trace.step inp).wrap.2.started port).length

instance : Decidable (trace.Permits inp) :=
  decidable_of_iff ((∀ _ : Fin params.numClusters, _ → _) ∧
      (∀ _ : Fin params.numCmdInterfaces, _ → _) ∧ ∀ _ : Fin 2, _ → _)
    ⟨fun all => ⟨all.1, all.2.1, all.2.2⟩, fun permits => ⟨permits.1, permits.2, permits.3⟩⟩

/-- The commands received for a port of the engine. -/
def receivedFor (port : DmaPort) : List params.Cmd :=
  ((trace.unit.2.received params.edma).map Prod.snd).filter fun cmd => decide (cmd.dmaPort = port)

/-- A response at some place among those of the interface: that to a command whose transfer is complete,
    which is another one for each place. -/
def Answered (n : Nat) (resp : params.Resp) : Prop :=
  ∃ port cmd, (trace.receivedFor port)[
      (trace.wrap.2.responded.take n).countP fun entry => decide (entry.1 = port)]? = some cmd ∧
    resp = cmd.resp ∧
      (trace.wrap.2.responded.take n).countP (fun entry => decide (entry.1 = port)) <
        trace.wrap.2.completed port

/-- The rules of each unit are kept, the transfers are those of the commands received, and the responses
    that the unit hands on are to commands whose transfers are complete. -/
structure Answers : Prop where
  routes : trace.unit.Routes
  transfers : trace.wrap.AnswersTransfers
  started : ∀ port, trace.wrap.2.started port =
    (trace.receivedFor port).map fun cmd => cmd.descr.hostDmaCmd.xferDescr
  answered : ∀ n resp, (ofKey params.edma trace.unit.2.taken)[n]? = some resp → trace.Answered n resp

/-- The invariant: what one unit gives is what the other one takes. -/
structure Inv : Prop where
  unit : trace.unit.Inv
  wrap : trace.wrap.Inv
  accepted : ∀ port, trace.wrap.2.accepted port = trace.receivedFor port
  given : trace.unit.2.given params.edma = trace.wrap.2.responded.map Prod.snd

end

theorem inv_reset : Inv (edmaCmdsTrace params).reset where
  unit := CmdUnitTrace.inv_reset
  wrap := SocDmaTrace.inv_reset
  accepted _ := rfl
  given := rfl

variable {trace : EdmaCmdsTrace params} {inp : EdmaCmdsIn params}

theorem length_receivedFor (trace : EdmaCmdsTrace params) :
    (trace.receivedFor DmaPort.rx).length + (trace.receivedFor DmaPort.tx).length =
      (trace.unit.2.received params.edma).length := by
  have either (cmd : params.Cmd) :
      decide (cmd.dmaPort = DmaPort.tx) = !decide (cmd.dmaPort = DmaPort.rx) := by
    rw [PspinCmd.dmaPort]
    split
    · rfl
    · rfl
  have split := List.length_eq_countP_add_countP (fun cmd : params.Cmd =>
    decide (cmd.dmaPort = DmaPort.rx)) (l := (trace.unit.2.received params.edma).map Prod.snd)
  rw [List.length_map] at split
  rw [receivedFor, receivedFor, ← List.countP_eq_length_filter, ← List.countP_eq_length_filter, split]
  simp [either]

namespace Inv

variable (inv : trace.Inv)

include inv

/-- What is outstanding for the wrapper is what is in flight for the unit. -/
theorem outstanding_eq : trace.wrap.2.outstanding =
    (trace.unit.2.received params.edma).length - (trace.unit.2.given params.edma).length := by
  rw [SocDmaHistory.outstanding, inv.accepted, inv.accepted, length_receivedFor, inv.given,
    List.length_map]

/-- The unit keeps the commands of the wrapper few. -/
theorem wrapPermits (permits : trace.Permits inp) :
    trace.wrap.Permits (trace.1.socDmaWrapIn inp) := by
  refine ⟨fun valid => ?_, permits.completes⟩
  rw [inv.outstanding_eq]
  exact inv.unit.outstanding_of_valid valid

omit inv in
theorem received_step : (trace.step inp).unit.2.received params.edma =
    trace.unit.2.received params.edma ++
      if trace.1.cmdUnit.intfValidO params.edma &&
        trace.1.socDmaWrap.cmdReqReadyO (trace.1.socDmaWrapIn inp)
      then [(trace.1.cmdUnit.cmdArbIdx params.edma, trace.1.cmdUnit.intfCmdO params.edma)] else [] := by
  have ready : (trace.1.cmdUnitIn inp).intfReadyI params.edma =
      trace.1.socDmaWrap.cmdReqReadyO (trace.1.socDmaWrapIn inp) := by
    simp [EdmaCmds.cmdUnitIn]
  rw [← ready]
  rfl

theorem accepted_step (port : DmaPort) :
    (trace.step inp).wrap.2.accepted port = (trace.step inp).receivedFor port := by
  have accepted : (trace.step inp).wrap.2.accepted port = trace.wrap.2.accepted port ++
    if trace.1.cmdUnit.intfValidO params.edma &&
        trace.1.socDmaWrap.cmdReqReadyO (trace.1.socDmaWrapIn inp) &&
        decide ((trace.1.cmdUnit.intfCmdO params.edma).dmaPort = port)
    then [trace.1.cmdUnit.intfCmdO params.edma] else [] := rfl
  rw [accepted, inv.accepted, receivedFor, receivedFor, received_step, List.map_append,
    List.filter_append]
  congr 1
  cases trace.1.cmdUnit.intfValidO params.edma &&
      trace.1.socDmaWrap.cmdReqReadyO (trace.1.socDmaWrapIn inp) with
  | false => rfl
  | true =>
    by_cases here : (trace.1.cmdUnit.intfCmdO params.edma).dmaPort = port <;> simp [here]

theorem given_step : (trace.step inp).unit.2.given params.edma =
    (trace.step inp).wrap.2.responded.map Prod.snd := by
  have valid : (trace.1.cmdUnitIn inp).intfCmdRespValidI params.edma =
      trace.1.socDmaWrap.cmdRespValidO := by
    simp [EdmaCmds.cmdUnitIn]
  have resp : (trace.1.cmdUnitIn inp).intfCmdRespI params.edma =
      trace.1.socDmaWrap.cmdRespO := by
    simp [EdmaCmds.cmdUnitIn]
  have given : (trace.step inp).unit.2.given params.edma = trace.unit.2.given params.edma ++
    if (trace.1.cmdUnitIn inp).intfCmdRespValidI params.edma
    then [(trace.1.cmdUnitIn inp).intfCmdRespI params.edma] else [] := rfl
  have responded : (trace.step inp).wrap.2.responded = trace.wrap.2.responded ++
    if trace.1.socDmaWrap.cmdRespValidO
    then [(trace.1.socDmaWrap.respIdx, trace.1.socDmaWrap.cmdRespO)] else [] := rfl
  rw [given, responded, List.map_append, inv.given, valid, resp]
  cases trace.1.socDmaWrap.cmdRespValidO <;> rfl

omit inv in
/-- The wrapper answers a command at most once. -/
theorem length_given_le (wrap : trace.wrap.Inv)
    (accepted : ∀ port, trace.wrap.2.accepted port = trace.receivedFor port)
    (given : trace.unit.2.given params.edma = trace.wrap.2.responded.map Prod.snd) :
    (trace.unit.2.given params.edma).length ≤ (trace.unit.2.received params.edma).length := by
  have rx := wrap.length_contents DmaPort.rx
  have tx := wrap.length_contents DmaPort.tx
  have sent : trace.wrap.2.responded.length =
      (trace.wrap.answers DmaPort.rx).length + (trace.wrap.answers DmaPort.tx).length :=
    SocDmaTrace.length_responded trace.wrap.2.responded
  rw [accepted] at rx tx
  rw [given, List.length_map, ← length_receivedFor]
  omega

theorem step (permits : trace.Permits inp) : (trace.step inp).Inv := by
  have wrap : (trace.step inp).wrap.Inv := inv.wrap.step (inv.wrapPermits permits)
  have unitPermits : trace.unit.Permits (trace.1.cmdUnitIn inp) := by
    refine ⟨permits.named, fun i => ?_⟩
    by_cases here : i = params.edma
    · rw [here]
      exact length_given_le wrap inv.accepted_step inv.given_step
    · exact permits.others i here
  exact ⟨inv.unit.step unitPermits, wrap, inv.accepted_step, inv.given_step⟩

theorem answered {n : Nat} {resp : params.Resp}
    (taken : (ofKey params.edma trace.unit.2.taken)[n]? = some resp) : trace.Answered n resp := by
  -- the response is one that the wrapper sent, for one of its ports
  have sent : (trace.wrap.2.responded.map Prod.snd)[n]? = some resp := by
    have flows : trace.unit.2.given params.edma = _ ++ _ := inv.unit.responses params.edma
    rw [← inv.given, flows, List.getElem?_append_left (List.getElem?_eq_some_iff.mp taken).1, taken]
  rw [List.getElem?_map] at sent
  obtain ⟨⟨port, resp⟩, isHere, rfl⟩ := Option.map_eq_some_iff.mp sent
  have isAnswer : (trace.wrap.answers port)[
      (trace.wrap.2.responded.take n).countP fun entry => decide (entry.1 = port)]? = some resp := by
    have isEntry := filter_countP (p := fun entry => decide (entry.1 = port)) isHere
      (decide_eq_true rfl)
    rw [SocDmaTrace.answers, ofKey, List.getElem?_map, isEntry]
    rfl
  -- so it is that to a command of the port, and as many transfers are complete
  have inside := (List.getElem?_eq_some_iff.mp isAnswer).1
  have flows : (trace.wrap.2.accepted port).map PspinCmd.resp = _ ++ _ := inv.wrap.responses port
  have counted := inv.wrap.counted port
  rw [inv.accepted] at flows
  have isCmd : ((trace.receivedFor port).map PspinCmd.resp)[
      (trace.wrap.2.responded.take n).countP fun entry => decide (entry.1 = port)]? = some resp := by
    rw [flows, List.getElem?_append_left inside, isAnswer]
  rw [List.getElem?_map] at isCmd
  obtain ⟨cmd, isCmd, same⟩ := Option.map_eq_some_iff.mp isCmd
  exact ⟨port, cmd, isCmd, same.symm, by omega⟩

theorem answers : trace.Answers where
  routes := inv.unit.routes
  transfers := inv.wrap.answersTransfers
  started port := by rw [inv.wrap.started, inv.accepted]
  answered _ _ := inv.answered

end Inv

end EdmaCmdsTrace

/-- Commands to the SoC-level DMA: while the clusters name interfaces, the other interfaces answer each of
    their commands at most once and the engine completes what it took, the unit and the wrapper keep
    each other's rules.  So every command is received and answered once, no response is lost, and the
    clusters get the response to a command when its transfer is complete. -/
theorem edmaCmds_answers (params : EdmaCmdsParams) (inputs : List (EdmaCmdsIn params))
    (permitted : (edmaCmdsTrace params).Admits EdmaCmdsTrace.Permits inputs) :
    ((edmaCmdsTrace params).run inputs).Answers :=
  (permitted.invariant EdmaCmdsTrace.Inv EdmaCmdsTrace.inv_reset
    fun _ _ inv permits => inv.step permits).answers

theorem numCmdInterfaces_pos : 0 < numCmdInterfaces := Nat.succ_pos 2

theorem cmdEdmaId_lt : cmdEdmaId < numCmdInterfaces := Nat.lt_succ_self 2

/-- Two clusters with two cores each, and response buffers of four places. -/
def twoClusters : EdmaCmdsParams where
  numClusters := 2
  numCmdInterfaces := numCmdInterfaces
  respBuffBits := 2
  numCores := 2
  idBits := 1
  someCluster := Nat.two_pos
  someInterface := numCmdInterfaces_pos
  buffers := Nat.two_pos
  axiAxReqDepth := 12
  tfReqFifoDepth := 64
  someDepth := by decide
  respBuffers := by decide
  someEdma := cmdEdmaId_lt

/-- Both clusters send a command to the engine at once, to the host and from it.  The transfer of the
    second one is complete first, so its response comes first. -/
theorem edmaCmds_answers_both :
    let toHost : twoClusters.Cmd :=
      ⟨2, ⟨0, 0, 0⟩, .hostMemCpy, (Vector.replicate 19 0).setIfInBounds 4 1, true⟩
    let fromHost : twoClusters.Cmd := ⟨2, ⟨1, 0, 0⟩, .hostMemCpy, Vector.replicate 19 0, true⟩
    let quiet : EdmaCmdsIn twoClusters := ⟨fun _ => false, fun _ => toHost, fun _ => true,
      fun _ => false, fun _ => ⟨⟨0, 0, 0⟩⟩, fun _ => true, fun _ => false⟩
    let inputs := [{ quiet with
        cmdValidI := fun _ => true
        cmdI := fun j => if j.val = 0 then toHost else fromHost }, quiet, quiet,
      { quiet with respValid := fun port => decide (port.val = 1) },
      { quiet with respValid := fun port => decide (port.val = 0) }, quiet, quiet, quiet, quiet]
    let trace := (edmaCmdsTrace twoClusters).run inputs
    trace.unit.2.delivered = [fromHost.resp, toHost.resp] ∧ trace.Answers :=
  ⟨by decide +kernel, edmaCmds_answers _ _ (by decide +kernel)⟩

end Pspin
