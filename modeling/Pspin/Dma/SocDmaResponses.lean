import Pspin.Clocked.Flow
import Pspin.Dma.SocDmaWrap

/-! # Responses of `soc_dma_wrap`

The engine completes the transfers of a port in the order in which it took them.  Since the ids of a
port leave its FIFO in the same order and at most as many as there are completions, the response
that is sent is that of a transfer which is complete.
-/

namespace Pspin

open Clocked

/-- Commands accepted, transfers that the engine took and completed, and responses sent. -/
structure SocDmaHistory (params : SocDmaWrapParams) where
  accepted : DmaPort → List params.Cmd
  started : DmaPort → List TransfDescrSoc
  completed : DmaPort → Nat
  responded : List (DmaPort × params.Resp)

namespace SocDmaHistory

variable {params : SocDmaWrapParams}

def empty : SocDmaHistory params where
  accepted := fun _ => []
  started := fun _ => []
  completed := fun _ => 0
  responded := []

def record (wrap : SocDmaWrap params) (history : SocDmaHistory params) (inp : SocDmaWrapIn params) :
    SocDmaHistory params where
  accepted i := history.accepted i ++
    if inp.cmdReqValidI && wrap.cmdReqReadyO inp && decide (inp.port = i) then [inp.cmdReqI] else []
  started i := history.started i ++
    if inp.reqValid i && inp.reqReady i then [inp.xferDescr] else []
  completed i := history.completed i + (inp.respValid i).toNat
  responded := history.responded ++
    if wrap.cmdRespValidO then [(wrap.respIdx, wrap.cmdRespO)] else []

/-- The commands accepted and not answered. -/
def outstanding (history : SocDmaHistory params) : Nat :=
  (history.accepted DmaPort.rx).length + (history.accepted DmaPort.tx).length -
    history.responded.length

end SocDmaHistory

abbrev SocDmaTrace (params : SocDmaWrapParams) := SocDmaWrap params × SocDmaHistory params

def socDmaTrace (params : SocDmaWrapParams) : Machine (SocDmaTrace params) (SocDmaWrapIn params) :=
  (socDmaWrap params).observedBy SocDmaHistory.empty SocDmaHistory.record

namespace SocDmaTrace

open SocDmaWrap

variable {params : SocDmaWrapParams} (trace : SocDmaTrace params) (inp : SocDmaWrapIn params)

def step : SocDmaTrace params := (trace.1.step inp, SocDmaHistory.record trace.1 trace.2 inp)

/-- The command unit keeps the commands outstanding below the size of its response buffer, and the
    engine completes transfers that it took. -/
def Permits : Prop :=
  (inp.cmdReqValidI = true → trace.2.outstanding < params.intfRespBuffSize - 1) ∧
  ∀ i, inp.respValid i = true → trace.2.completed i < ((trace.step inp).2.started i).length

instance : Decidable (trace.Permits inp) :=
  inferInstanceAs (Decidable (_ ∧ ∀ _ : Fin 2, _ → _))

/-- The responses sent for a port. -/
def answers (i : DmaPort) : List params.Resp := ofKey i trace.2.responded

/-- Transfers, responses and counters belong to the commands accepted. -/
structure AnswersTransfers : Prop where
  /-- The transfers are those of the commands accepted. -/
  started : ∀ i, trace.2.started i = (trace.2.accepted i).map fun cmd =>
    cmd.descr.hostDmaCmd.xferDescr
  /-- The responses sent and the ids queued are those of the commands accepted, in order. -/
  responses : ∀ i, Flows ((trace.2.accepted i).map PspinCmd.resp) (trace.answers i)
    (trace.1.respFifo i).contents
  /-- A counter is the number of transfers completed that were not answered: it never wraps, and
      as many transfers as responses are complete. -/
  counted : ∀ i, (trace.answers i).length + trace.1.toPopQ i = trace.2.completed i
  queued : ∀ i, trace.1.toPopQ i ≤ (trace.1.respFifo i).contents.length
  /-- Whatever comes later, a transfer that is complete is answered within two cycles for each
      one of its port that is complete. -/
  responds : ∀ i later, (socDmaTrace params).AdmitsFrom Permits trace later →
    2 * trace.1.toPopQ i ≤ later.length →
      trace.2.completed i ≤ (((socDmaTrace params).runFrom trace later).answers i).length

/-- The invariant. -/
structure Inv : Prop where
  started : ∀ i, trace.2.started i = (trace.2.accepted i).map fun cmd =>
    cmd.descr.hostDmaCmd.xferDescr
  responses : ∀ i, Flows ((trace.2.accepted i).map PspinCmd.resp) (trace.answers i)
    (trace.1.respFifo i).contents
  counted : ∀ i, (trace.answers i).length + trace.1.toPopQ i = trace.2.completed i
  completed : ∀ i, trace.2.completed i ≤ (trace.2.accepted i).length
  turns : trace.1.respArb.TakesTurns

variable {trace inp}

theorem inv_reset : Inv (socDmaTrace params).reset where
  started _ := rfl
  responses _ := .nil
  counted _ := rfl
  completed _ := Nat.le_refl _
  turns := .reset

/-- Every response is one of a port. -/
theorem length_responded (responded : List (DmaPort × params.Resp)) :
    responded.length = (ofKey DmaPort.rx responded).length + (ofKey DmaPort.tx responded).length := by
  rw [DmaPort.rx, DmaPort.tx]
  induction responded with
  | nil => rfl
  | cons entry responded inductionHypothesis =>
    obtain ⟨i, resp⟩ := entry
    rcases Fin.exists_fin_two.mp ⟨i, rfl⟩ with rfl | rfl
    · simp only [ofKey, List.filter_cons, List.length_map] at inductionHypothesis ⊢
      simp [inductionHypothesis]
      omega
    · simp only [ofKey, List.filter_cons, List.length_map] at inductionHypothesis ⊢
      simp [inductionHypothesis]
      omega

namespace Inv

variable (inv : trace.Inv)

include inv

theorem length_contents (i : DmaPort) : (trace.2.accepted i).length =
    (trace.answers i).length + (trace.1.respFifo i).contents.length := by
  have length := (inv.responses i).length
  rwa [List.length_map] at length

theorem queued (i : DmaPort) : trace.1.toPopQ i ≤ (trace.1.respFifo i).contents.length := by
  have counted := inv.counted i
  have completed := inv.completed i
  have contents := inv.length_contents i
  omega

/-- The ids queued for a port are of commands outstanding. -/
theorem length_contents_le (i : DmaPort) :
    (trace.1.respFifo i).contents.length ≤ trace.2.outstanding := by
  have total : trace.2.responded.length =
      (trace.answers DmaPort.rx).length + (trace.answers DmaPort.tx).length :=
    length_responded trace.2.responded
  have rx := inv.length_contents DmaPort.rx
  have tx := inv.length_contents DmaPort.tx
  rw [SocDmaHistory.outstanding]
  have either : i = DmaPort.rx ∨ i = DmaPort.tx := Fin.exists_fin_two.mp ⟨i, rfl⟩
  rcases either with rfl | rfl
  · omega
  · omega

theorem latched : trace.1.respArb.Latched trace.1.fifoRespAvail := by
  intro locked
  rw [inv.turns.unlocked] at locked
  cases locked

/-- A response is popped when the arbiter sends it. -/
theorem fifoPop_eq (i : DmaPort) :
    trace.1.fifoPop i = (trace.1.cmdRespValidO && decide (trace.1.respIdx = i)) := by
  have granted := inv.latched.granted_eq true i
  rw [Bool.and_true] at granted
  exact granted

theorem nonempty_of_pop {i : DmaPort} (pops : trace.1.fifoPop i = true) :
    0 < trace.1.toPopQ i ∧ 0 < (trace.1.respFifo i).contents.length := by
  simp only [fifoPop, fifoRespAvail, Bool.and_eq_true, decide_eq_true_eq] at pops
  exact ⟨pops.1, pops.1.trans_le (inv.queued i)⟩

/-- What is sent in a cycle for a port is the oldest id of its FIFO. -/
theorem answers_step (i : DmaPort) : (trace.step inp).answers i = trace.answers i ++
    if trace.1.fifoPop i then (trace.1.respFifo i).contents.head?.toList else [] := by
  have sent : ofKey i (if trace.1.cmdRespValidO then [(trace.1.respIdx, trace.1.cmdRespO)] else []) =
      if trace.1.fifoPop i then (trace.1.respFifo i).contents.head?.toList else [] := by
    rw [ofKey_ite, inv.fifoPop_eq]
    cases pops : trace.1.cmdRespValidO && decide (trace.1.respIdx = i) with
    | false => rfl
    | true =>
      have some := (inv.nonempty_of_pop (by rw [inv.fifoPop_eq, pops])).2
      simp only [Bool.and_eq_true, decide_eq_true_eq] at pops
      obtain ⟨-, rfl⟩ := pops
      obtain ⟨front, rest, isFront⟩ := List.exists_cons_of_length_pos some
      simp [cmdRespO, FifoV3.dataO_eq_head isFront, isFront]
  rw [answers, answers, ← sent]
  exact ofKey_append i _ _

theorem length_answers_step (i : DmaPort) : ((trace.step inp).answers i).length =
    (trace.answers i).length + (trace.1.fifoPop i).toNat := by
  rw [inv.answers_step, List.length_append]
  cases pops : trace.1.fifoPop i with
  | false => rfl
  | true =>
    obtain ⟨front, rest, isFront⟩ := List.exists_cons_of_length_pos (inv.nonempty_of_pop pops).2
    simp [isFront]

theorem responses_step (i : DmaPort) : Flows (((trace.step inp).2.accepted i).map PspinCmd.resp)
    ((trace.step inp).answers i) ((trace.step inp).1.respFifo i).contents := by
  -- the FIFO has room whenever a request is accepted
  have pushes : (trace.1.fifoPush inp i && !(trace.1.respFifo i).fullO) =
      (inp.cmdReqValidI && trace.1.cmdReqReadyO inp && decide (inp.port = i)) := by
    by_cases here : inp.port = i
    · subst here
      cases valid : inp.cmdReqValidI with
      | false => simp [fifoPush, SocDmaWrapIn.reqValid, valid]
      | true => grind [fifoPush, SocDmaWrapIn.reqValid, cmdReqReadyO, fifoFull]
    · simp [fifoPush, SocDmaWrapIn.reqValid, here]
  have contents : ((trace.step inp).1.respFifo i).contents = _ :=
    FifoV3.contents_step (trace.1.respFifo i) inp.cmdReqI.resp (trace.1.fifoPush inp i)
      (trace.1.fifoPop i)
  have flows := (inv.responses i).step (trace.1.fifoPop i)
    (if inp.cmdReqValidI && trace.1.cmdReqReadyO inp && decide (inp.port = i)
      then [inp.cmdReqI.resp] else [])
  have accepted : ((trace.step inp).2.accepted i).map PspinCmd.resp =
      (trace.2.accepted i).map PspinCmd.resp ++
        if inp.cmdReqValidI && trace.1.cmdReqReadyO inp && decide (inp.port = i)
        then [inp.cmdReqI.resp] else [] := by
    simp only [SocDmaTrace.step, SocDmaHistory.record, List.map_append]
    congr 1
    split
    · rfl
    · rfl
  rw [contents, pushes, accepted, inv.answers_step]
  exact flows

section Step

variable (permits : trace.Permits inp)

include permits

/-- No FIFO is full when a command comes: it is accepted when the engine takes its transfer. -/
theorem accepts_eq (i : DmaPort) :
    (inp.cmdReqValidI && trace.1.cmdReqReadyO inp && decide (inp.port = i)) =
      (inp.reqValid i && inp.reqReady i) := by
  cases valid : inp.cmdReqValidI with
  | false => simp [SocDmaWrapIn.reqValid, valid]
  | true =>
    have room : trace.1.fifoFull inp.port = false := by
      have few := permits.1 valid
      have queued := inv.length_contents_le inp.port
      have buffers := params.buffers
      have depth : params.respFifoDepth = params.tfReqFifoDepth + params.axiAxReqDepth := rfl
      rw [fifoFull, FifoV3.fullO_eq_false]
      omega
    by_cases here : inp.port = i
    · subst here
      simp [cmdReqReadyO, SocDmaWrapIn.reqValid, valid, room]
    · simp [SocDmaWrapIn.reqValid, here]

theorem started_step (i : DmaPort) : (trace.step inp).2.started i =
    ((trace.step inp).2.accepted i).map fun cmd => cmd.descr.hostDmaCmd.xferDescr := by
  simp only [SocDmaTrace.step, SocDmaHistory.record, List.map_append, inv.accepts_eq permits,
    inv.started]
  congr 1
  split
  · rfl
  · rfl

theorem completed_step (i : DmaPort) :
    (trace.step inp).2.completed i ≤ ((trace.step inp).2.accepted i).length := by
  have started := congrArg List.length (inv.started_step permits i)
  rw [List.length_map] at started
  have taken : (trace.2.accepted i).length ≤ ((trace.step inp).2.accepted i).length := by
    simp [SocDmaTrace.step, SocDmaHistory.record]
  have completed : (trace.step inp).2.completed i =
    trace.2.completed i + (inp.respValid i).toNat := rfl
  rw [completed]
  cases done : inp.respValid i with
  | false =>
    rw [Bool.toNat_false]
    exact (inv.completed i).trans taken
  | true =>
    have before := permits.2 i done
    rw [Bool.toNat_true]
    omega

/-- A counter follows the completions and the responses: before it would wrap the FIFO is full. -/
theorem counted_step (i : DmaPort) : ((trace.step inp).answers i).length +
    (trace.step inp).1.toPopQ i = (trace.step inp).2.completed i := by
  have counted := inv.counted i
  have popped := @length_answers_step params trace inp inv i
  have bounded := ((trace.step inp).1.respFifo i).length_contents_le
  have length := (@responses_step params trace inp inv i).length
  have completed := inv.completed_step permits i
  -- the counter has one bit more than the depth of the FIFO needs
  have width : params.respFifoDepth < 2 ^ params.toPopWidth := by
    have covers := le_two_pow_clog2 params.respFifoDepth
    have positive := Nat.two_pow_pos (clog2 params.respFifoDepth)
    rw [SocDmaWrapParams.toPopWidth, Nat.pow_succ]
    omega
  have now : (trace.step inp).2.completed i =
    trace.2.completed i + (inp.respValid i).toNat := rfl
  have next : (trace.step inp).1.toPopQ i = trace.1.toPopD inp i := rfl
  rw [List.length_map] at length
  rw [now] at completed
  rw [now, next, popped, toPopD]
  cases done : inp.respValid i with
  | false =>
    cases pops : trace.1.fifoPop i with
    | false =>
      simp only [Bool.toNat_false, Nat.add_zero]
      exact counted
    | true =>
      have some := (inv.nonempty_of_pop pops).1
      have queued := (inv.queued i).trans (trace.1.respFifo i).length_contents_le
      simp only [Bool.toNat_true, Bool.toNat_false]
      rw [decrement_of_pos some (by omega)]
      omega
  | true =>
    cases pops : trace.1.fifoPop i with
    | false =>
      simp only [done, pops, Bool.toNat_true, Bool.toNat_false] at popped completed ⊢
      rw [increment_of_lt (by omega)]
      omega
    | true =>
      simp only [Bool.toNat_true]
      omega

theorem step : (trace.step inp).Inv where
  started := inv.started_step permits
  responses := inv.responses_step
  counted := inv.counted_step permits
  completed := inv.completed_step permits
  turns := inv.turns.step _

/-- A port with a completed transfer is served in this cycle or in the next one. -/
theorem served {i : DmaPort} (some : 0 < trace.1.toPopQ i) :
    trace.1.fifoPop i = true ∨ (trace.step inp).1.fifoPop i = true := by
  have pops_of_chosen : ∀ {state : SocDmaTrace params}, state.Inv → 0 < state.1.toPopQ i →
      state.1.respArb.idxO state.1.fifoRespAvail = i → state.1.fifoPop i = true := by
    intro state holds waits chosen
    have avail : state.1.fifoRespAvail i = true := decide_eq_true waits
    have latched : state.1.respArb.Latched state.1.fifoRespAvail := holds.latched
    have valid : state.1.cmdRespValidO = true := latched.reqO_of_reqI avail
    rw [holds.fifoPop_eq, valid, respIdx, chosen]
    simp
  have avail : trace.1.fifoRespAvail i = true := decide_eq_true some
  rcases inv.turns.served avail with now | next
  · exact .inl (pops_of_chosen inv some now)
  · cases pops : trace.1.fifoPop i with
    | true => exact .inl rfl
    | false =>
      -- nothing was sent for the port, so its counter did not go down
      have after := inv.step permits
      have counted := after.counted i
      have same := @length_answers_step params trace inp inv i
      have before := inv.counted i
      have completed : (trace.step inp).2.completed i =
        trace.2.completed i + (inp.respValid i).toNat := rfl
      rw [pops, Bool.toNat_false] at same
      have waits : 0 < (trace.step inp).1.toPopQ i := by omega
      exact .inr (pops_of_chosen after waits (next _ (decide_eq_true waits)))

end Step

end Inv

/-- What was sent for a port stays sent. -/
theorem length_answers_le (i : DmaPort) {later : List (SocDmaWrapIn params)} (inv : trace.Inv)
    (admitted : (socDmaTrace params).AdmitsFrom Permits trace later) :
    (trace.answers i).length ≤ (((socDmaTrace params).runFrom trace later).answers i).length := by
  induction later generalizing trace with
  | nil => exact Nat.le_refl _
  | cons inp later inductionHypothesis =>
    have grows := @Inv.length_answers_step params trace inp inv i
    have rest := inductionHypothesis (inv.step admitted.1) admitted.2
    exact (grows ▸ Nat.le_add_right _ _ : _ ≤ ((trace.step inp).answers i).length).trans rest

/-- Every two cycles bring a port one response closer to what was complete.  The induction is on the
    responses that are missing. -/
theorem responds_run (i : DmaPort) (missing : Nat) {target : Nat}
    {later : List (SocDmaWrapIn params)} (inv : trace.Inv)
    (admitted : (socDmaTrace params).AdmitsFrom Permits trace later)
    (complete : target ≤ trace.2.completed i)
    (close : target ≤ (trace.answers i).length + missing) (long : 2 * missing ≤ later.length) :
    target ≤ (((socDmaTrace params).runFrom trace later).answers i).length := by
  induction missing generalizing trace later with
  | zero => exact close.trans (length_answers_le i inv admitted)
  | succ missing inductionHypothesis =>
    by_cases reached : target ≤ (trace.answers i).length
    · exact reached.trans (length_answers_le i inv admitted)
    · have waits : 0 < trace.1.toPopQ i := by
        have counted := inv.counted i
        omega
      obtain ⟨first, rest, rfl⟩ := List.exists_cons_of_length_pos (by omega : 0 < later.length)
      rw [List.length_cons] at long
      obtain ⟨second, later, rfl⟩ := List.exists_cons_of_length_pos (by omega : 0 < rest.length)
      rw [List.length_cons] at long
      obtain ⟨permits, permits', admitted⟩ := admitted
      have inv' : (trace.step first).Inv := inv.step permits
      have complete' : target ≤ (trace.step first).2.completed i :=
        complete.trans (Nat.le_add_right _ _)
      have grows := @Inv.length_answers_step params trace first inv i
      rcases inv.served permits waits with now | next
      · have admitted' : (socDmaTrace params).AdmitsFrom Permits (trace.step first)
            (second :: later) := ⟨permits', admitted⟩
        have closer : target ≤ ((trace.step first).answers i).length + missing := by
          rw [grows, now, Bool.toNat_true]
          omega
        have enough : 2 * missing ≤ (second :: later).length := by
          rw [List.length_cons]
          omega
        have reaches := inductionHypothesis inv' admitted' complete' closer enough
        exact reaches
      · have inv'' : ((trace.step first).step second).Inv := inv'.step permits'
        have complete'' : target ≤ ((trace.step first).step second).2.completed i :=
          complete'.trans (Nat.le_add_right _ _)
        have grows' := @Inv.length_answers_step params (trace.step first) second inv' i
        have closer : target ≤ (((trace.step first).step second).answers i).length + missing := by
          rw [grows', next, Bool.toNat_true]
          omega
        have reaches := inductionHypothesis inv'' admitted complete'' closer (by omega)
        exact reaches

theorem Inv.answersTransfers (inv : trace.Inv) : trace.AnswersTransfers where
  started := inv.started
  responses := inv.responses
  counted := inv.counted
  queued := inv.queued
  responds i _ admitted long :=
    responds_run i (trace.1.toPopQ i) inv admitted (Nat.le_refl _) (inv.counted i).ge long

end SocDmaTrace

/-- Response law: while the command unit bounds the commands outstanding and the engine completes
    the transfers of each port in the order in which it took them, a transfer starts with its
    command, and each command gets one response, with its id, after its transfer. -/
theorem socDmaWrap_answers (params : SocDmaWrapParams) (inputs : List (SocDmaWrapIn params))
    (permitted : (socDmaTrace params).Admits SocDmaTrace.Permits inputs) :
    ((socDmaTrace params).run inputs).AnswersTransfers :=
  (permitted.invariant SocDmaTrace.Inv SocDmaTrace.inv_reset
    fun _ _ inv permits => inv.step permits).answersTransfers

/-- At the deployed sizes: a transfer of each port; the second one is complete first, and both are
    complete before the first response of the first port is sent. -/
theorem socDmaWrap_answers_both :
    let params : SocDmaWrapParams := ⟨12, 64, 8, 8, 2, by decide, by decide⟩
    let toHost : params.Cmd := { (default : params.Cmd) with
      descr := (default : PspinCmdDescr).setIfInBounds 4 1 }
    let fromHost : params.Cmd := { (default : params.Cmd) with
      cmdId := { (default : PspinCmdId 8 2) with localCmdId := 1 } }
    let quiet : SocDmaWrapIn params := ⟨false, default, fun _ => true, fun _ => false⟩
    let inputs := [{ quiet with cmdReqValidI := true, cmdReqI := toHost },
      { quiet with cmdReqValidI := true, cmdReqI := fromHost },
      { quiet with respValid := fun i => decide (i.val = 1) },
      { quiet with respValid := fun i => decide (i.val = 0) }, quiet]
    let trace := (socDmaTrace params).run inputs
    trace.2.responded.map (fun entry => entry.2.cmdId.localCmdId) = [1, 0] ∧
      trace.AnswersTransfers :=
  ⟨by decide +kernel, socDmaWrap_answers _ _ (by decide +kernel)⟩

end Pspin
