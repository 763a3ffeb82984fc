import Pspin.Clocked.Selection
import Pspin.Dma.DmaCluster

/-! # Packets and transfers of a cluster

What the scheduler, the frontend and the backend of a cluster each believe about a transfer fits
together: the transfers of the scheduler are those of the external port, in the same order, the frontend
has started the transfers that move something, and it counts as complete what the backend has written.
So a handler runs only when its packet is in L1, and its end is reported only when its own transfers
have arrived.
-/

namespace Pspin

open Clocked

/-- How many bytes the transfers before the one at a place have. -/
def AxiDmaHistory.start (history : AxiDmaHistory) (k : Nat) : Nat :=
  (((AxiDmaTrace.filled history.taken).take k).map BurstReq.numBytes).sum

/-- The transfer at a place is copied: behind the bytes of the transfers before it, its own were read and
    were written, each with the value that was read.  Transfers without bytes have no place. -/
structure AxiDmaHistory.Copied (params : AxiDmaParams) (history : AxiDmaHistory) (k : Nat)
    (req : BurstReq) : Prop where
  isHere : (AxiDmaTrace.filled history.taken)[k]? = some req
  bytes : ∀ i < req.numBytes, ∃ byte,
    history.fetched[history.start k + i]? = some ((req.src + i) % 2 ^ params.addrWidth, byte) ∧
      history.written[history.start k + i]? = some ((req.dst + i) % 2 ^ params.addrWidth, byte)

namespace AxiDmaTrace

variable {params : AxiDmaParams} {trace : AxiDmaTrace params}

theorem flatMap_filled (reqs : List BurstReq) :
    (filled reqs).flatMap (BurstReq.moves params) = reqs.flatMap (BurstReq.moves params) := by
  induction reqs with
  | nil => rfl
  | cons req reqs inductionHypothesis =>
    by_cases none : req.numBytes = 0
    · have empty : req.moves params = [] := by rw [BurstReq.moves, none, List.range_zero, List.map_nil]
      rw [filled, List.filter_cons_of_neg (by simp [none]), List.flatMap_cons, empty, List.nil_append]
      exact inductionHypothesis
    · rw [filled, List.filter_cons_of_pos (by simp [none]), List.flatMap_cons, List.flatMap_cons]
      exact congrArg _ inductionHypothesis

/-- What was written at a place is what was read there. -/
theorem CopiesTransfers.exists_byte (copies : trace.CopiesTransfers) {place : Nat} {move : Move}
    (isMove : (trace.2.moves params)[place]? = some move) (inside : place < trace.2.written.length) :
    ∃ byte, trace.2.fetched[place]? = some (move.src, byte) ∧
      trace.2.written[place]? = some (move.dst, byte) := by
  have data := List.prefix_iff_getElem?.mp copies.data place (by rwa [List.length_map])
  have some : place < trace.2.fetched.length := by
    have shorter := copies.data.length_le
    rw [List.length_map, List.length_map] at shorter
    omega
  have dst := List.prefix_iff_getElem?.mp copies.writes place (by rwa [List.length_map])
  have src := List.prefix_iff_getElem?.mp copies.reads place (by rwa [List.length_map])
  rw [List.getElem?_map, isMove, List.getElem_map, Option.map_some, Option.some.injEq] at dst src
  rw [List.getElem?_map, List.getElem?_eq_getElem some, List.getElem_map, Option.map_some,
    Option.some.injEq] at data
  refine ⟨trace.2.fetched[place].2, ?_, ?_⟩
  · rw [List.getElem?_eq_getElem some, src]
  · rw [List.getElem?_eq_getElem inside, dst, data]

/-- A transfer that is complete is copied. -/
theorem CopiesTransfers.copied (copies : trace.CopiesTransfers) {k : Nat} {req : BurstReq}
    (isHere : (filled trace.2.taken)[k]? = some req) (before : k < trace.2.completed) :
    trace.2.Copied params k req := by
  obtain ⟨front, back, split, length⟩ := exists_split isHere
  have whole : trace.2.moves params = front.flatMap (BurstReq.moves params) ++
      (req.moves params ++ back.flatMap (BurstReq.moves params)) := by
    rw [AxiDmaHistory.moves, ← flatMap_filled, split, List.flatMap_append, List.flatMap_cons]
  have count := req.length_moves params
  -- its bytes are among those of the transfers that are complete
  have enough : (front.flatMap (BurstReq.moves params)).length + req.numBytes ≤
      trace.2.written.length := by
    have taken : (filled trace.2.taken).take trace.2.completed =
        front ++ req :: back.take (trace.2.completed - (k + 1)) := by
      have more : trace.2.completed - front.length = trace.2.completed - (k + 1) + 1 := by omega
      rw [split, List.take_append, List.take_of_length_le (by omega), more, List.take_succ_cons]
    have bytes : (((filled trace.2.taken).take trace.2.completed).flatMap
        (BurstReq.moves params)).length ≤ trace.2.written.length := copies.completed
    rw [taken, List.flatMap_append, List.flatMap_cons, List.length_append, List.length_append,
      count] at bytes
    omega
  have start : trace.2.start k = (front.flatMap (BurstReq.moves params)).length := by
    rw [AxiDmaHistory.start, split, ← length, List.take_left, List.length_flatMap]
    exact congrArg List.sum (List.map_congr_left fun req _ => (req.length_moves params).symm)
  refine ⟨isHere, fun i small => ?_⟩
  rw [start]
  have isMove : (trace.2.moves params)[(front.flatMap (BurstReq.moves params)).length + i]? = some
      { src := (req.src + i) % 2 ^ params.addrWidth
        dst := (req.dst + i) % 2 ^ params.addrWidth
        last := decide (i + 1 = req.numBytes) } := by
    rw [whole, List.getElem?_append_right (Nat.le_add_right _ _), Nat.add_sub_cancel_left,
      List.getElem?_append_left (by rwa [count]), BurstReq.moves, List.getElem?_map,
      List.getElem?_range small]
    rfl
  exact copies.exists_byte isMove (by omega)

end AxiDmaTrace

/-- A scheduler offers only transfers that move something. -/
theorem ClusterTrace.InOrder.numBytes_ne {params : ClusterSchedulerParams} {trace : ClusterTrace params}
    (ordered : trace.InOrder) {inp : ClusterSchedulerIn params}
    (valid : trace.1.dmaXferValidO inp = true) : (trace.1.dmaXferO inp).numBytes ≠ 0 := by
  cases state : trace.1.stateQ with
  | ready =>
    simp only [ClusterScheduler.dmaXferValidO, state, decide_true, Bool.true_and, reduceCtorEq,
      decide_false, Bool.or_false, ClusterScheduler.canIssueDma, Bool.and_eq_true,
      decide_eq_true_eq] at valid
    rw [ClusterScheduler.dmaXferO, if_pos state]
    exact valid.2
  | waitDma =>
    -- the transfer that waits is that of a task with a packet
    have transfers : (withPacket trace.2.accepted).map ClusterScheduler.dmaXferOf =
      trace.2.dmas ++ trace.pendingDma := ordered.transfers
    have waits : trace.pendingDma = [trace.1.dmaXferQ] := by rw [pendingDma, state]
    have member : trace.1.dmaXferQ ∈ (withPacket trace.2.accepted).map ClusterScheduler.dmaXferOf := by
      rw [transfers, waits]
      exact List.mem_append_right _ List.mem_cons_self
    obtain ⟨task, packet, isTask⟩ := List.mem_map.mp member
    have some := (List.mem_filter.mp packet).2
    rw [HpuHandlerTask.hasPacket, decide_eq_true_eq] at some
    rw [ClusterScheduler.dmaXferO, state, if_neg (by simp), ← isTask]
    exact some

/-- Of the transfers that are complete, those of a port. -/
theorem DmaTrace.Inv.count_step {params : PulpClusterFrontendParams} {trace : DmaTrace params}
    {inp : PulpClusterFrontendIn params} (inv : trace.Inv) (permits : trace.Permits inp)
    (port : params.Port) :
    ((trace.step inp).2.started.take (trace.step inp).2.completed).count port =
      (trace.2.started.take trace.2.completed).count port +
        (decide (trace.1.tfHead = port) && !trace.1.tfEmpty && inp.transComplete).toNat := by
  have started : (trace.step inp).2.started =
    trace.2.started ++ if trace.1.issue inp then [trace.1.peIdxArb inp] else [] := rfl
  have completed : (trace.step inp).2.completed = trace.2.completed + inp.transComplete.toNat := rfl
  rw [started, completed]
  cases done : inp.transComplete with
  | false =>
    have same : (trace.2.started ++ if trace.1.issue inp then [trace.1.peIdxArb inp] else []).take
        (trace.2.completed + false.toNat) = trace.2.started.take trace.2.completed :=
      List.take_append_of_le_length inv.completed
    rw [same, Bool.and_false]
    rfl
  | true =>
    have before := permits.2.1 done
    -- the transfer that completes is the one the FIFO shows
    have front : trace.1.tfIdFifo.contents =
        trace.2.started[trace.2.completed] :: trace.2.started.drop (trace.2.completed + 1) := by
      rw [inv.holds, DmaHistory.inProgress, List.drop_eq_getElem_cons before]
    have head : trace.1.tfHead = trace.2.started[trace.2.completed] := FifoV3.dataO_eq_head front
    have notEmpty : trace.1.tfEmpty = false :=
      FifoV3.emptyO_eq_false.mpr (by rw [front]; exact List.cons_ne_nil _ _)
    have more : (trace.2.started ++ if trace.1.issue inp then [trace.1.peIdxArb inp] else []).take
        (trace.2.completed + true.toNat) =
        trace.2.started.take trace.2.completed ++ [trace.2.started[trace.2.completed]] := by
      rw [Bool.toNat_true, List.take_append_of_le_length before,
        List.take_succ_eq_append_getElem before]
    rw [more, List.count_append, head, notEmpty]
    by_cases own : trace.2.started[trace.2.completed] = port <;> simp [own]

/-- The packet of the task that was dispatched at a place is copied, by the transfer that was made for
    it: as many transfers of the external port come before that one as tasks with packets were
    dispatched before the task. -/
def DmaClusterHistory.PacketCopied {params : DmaClusterParams} (history : DmaClusterHistory params)
    (n : Nat) (task : HpuHandlerTask) : Prop :=
  ∃ k, history.moving[k]? = some (DmaCluster.extPort, (ClusterScheduler.dmaXferOf task).burstReq) ∧
    (history.moving.take k).countP (fun entry => decide (entry.1 = DmaCluster.extPort)) =
      (history.scheduler.dispatched.take n).countP (fun entry => entry.2.hasPacket) ∧
    history.backend.Copied params.backend k (ClusterScheduler.dmaXferOf task).burstReq

namespace DmaClusterTrace

variable {params : DmaClusterParams}

/-- What the units know of the transfers fits together. -/
structure Inv (trace : DmaClusterTrace params) : Prop where
  dma : trace.dma.Inv
  sched : trace.sched.InOrder
  back : trace.back.Inv
  keeps : trace.1.frontend.rrArbTree.lockQ = true →
    trace.1.frontend.rrArbTree.reqQ DmaCluster.extPort = true → trace.1.scheduler.stateQ = .waitDma
  taken : trace.2.issued.map Prod.snd = trace.back.2.taken
  started : trace.2.moving.map Prod.fst = trace.dma.2.started
  completed : trace.dma.2.completed = trace.back.2.completed
  nonzero : ∀ entry ∈ trace.2.issued, entry.1 = DmaCluster.extPort → entry.2.numBytes ≠ 0
  dmas : (trace.2.issued.filter fun entry => decide (entry.1 = DmaCluster.extPort)).map Prod.snd =
    trace.sched.2.dmas.map TransfDescr32.burstReq
  resps : trace.sched.2.resps =
    (trace.dma.2.started.take trace.dma.2.completed).count DmaCluster.extPort

theorem Inv.reset : (dmaClusterTrace params).reset.Inv where
  dma := .reset
  sched := ClusterTrace.inOrder_reset
  back := .reset
  keeps locked := by cases locked
  taken := rfl
  started := rfl
  completed := rfl
  nonzero _ member := by cases member
  dmas := rfl
  resps := rfl

section

variable {trace : DmaClusterTrace params} {inp : DmaClusterIn params}

theorem fits_burstReq (descr : TransfDescr32) : descr.burstReq.Fits params.backend where
  src := Nat.lt_of_lt_of_le descr.srcAddr.isLt
    (Nat.pow_le_pow_right Nat.two_pos params.addrWidth_ge)
  dst := Nat.lt_of_lt_of_le descr.dstAddr.isLt
    (Nat.pow_le_pow_right Nat.two_pos params.addrWidth_ge)
  burstSrc := rfl
  burstDst := rfl

theorem PermitsBus.back (permits : trace.PermitsBus inp) : trace.back.Permits (trace.1.backendIn inp) where
  fits _ := fits_burstReq _
  reads := permits.reads
  rLast := permits.rLast
  writes := permits.writes
  answers := permits.answers
  room := permits.room

theorem filled_taken (inv : trace.Inv) :
    AxiDmaTrace.filled trace.back.2.taken = trace.2.moving.map Prod.snd := by
  rw [← inv.taken, AxiDmaTrace.filled, List.filter_map]
  rfl

/-- The backend completes only what the frontend has started. -/
theorem Inv.completes (inv : trace.Inv) (permits : trace.PermitsBus inp)
    (done : trace.1.backend.mover.transCompleteO inp.axiDmaResI = true) :
    trace.dma.2.completed < trace.dma.2.started.length := by
  obtain ⟨written, held, left, bytes, copies⟩ := inv.back.copies
  have total := copies.length_filled
  rw [filled_taken inv, List.length_map] at total
  have started := congrArg List.length inv.started
  rw [List.length_map] at started
  rw [AxiDmaDataMover.transCompleteO, Bool.and_eq_true] at done
  obtain ⟨ax, rest, isFirst⟩ := List.exists_cons_of_ne_nil (permits.answers done.2)
  have last : ax.last = true := (inv.back.answering.isLastAw_eq isFirst).symm.trans done.1
  rw [isFirst, List.countP_cons_of_pos last] at total
  rw [inv.completed, ← started]
  omega

theorem Inv.dmaPermits (inv : trace.Inv) (permits : trace.Permits inp) :
    trace.dma.Permits (trace.1.dmaIn inp) := by
  refine ⟨fun port locked set => ?_, inv.completes permits.toPermitsBus, permits.tracked⟩
  by_cases ext : port = DmaCluster.extPort
  · -- the scheduler waits with its transfer
    subst ext
    have state := inv.keeps locked set
    have valid : trace.1.scheduler.dmaXferValidO (trace.1.offerIn inp) = true := by
      rw [ClusterScheduler.dmaXferValidO, state]
      rfl
    exact (Fin.lastCases_last ..).trans valid
  · exact permits.waits port ext locked set

/-! ## The wires -/

/-- The arbiter decides on what its inputs show. -/
theorem Inv.held (inv : trace.Inv) (permits : trace.Permits inp) :
    trace.1.frontend.rrArbTree.Latched (PulpClusterFrontend.beValid (trace.1.dmaIn inp)) :=
  fun locked => ⟨(inv.dma.latched locked).1, fun port => (inv.dmaPermits permits).1 port locked⟩

theorem beValid_ext (trace : DmaClusterTrace params) (inp : DmaClusterIn params) :
    PulpClusterFrontend.beValid (trace.1.dmaIn inp) DmaCluster.extPort =
      trace.1.scheduler.dmaXferValidO (trace.1.schedulerIn inp) :=
  (Fin.lastCases_last ..).trans (trace.1.dmaXferValidO_eq inp).symm

/-- The transfer of the scheduler is taken when the backend takes one from the external port. -/
theorem Inv.ext_takes (inv : trace.Inv) (permits : trace.Permits inp) :
    (trace.1.scheduler.dmaXferValidO (trace.1.schedulerIn inp) &&
        (trace.1.schedulerIn inp).dmaXferReadyI) =
      (trace.1.backend.takes (trace.1.backendIn inp) &&
        decide (trace.1.frontend.peIdxArb (trace.1.dmaIn inp) = DmaCluster.extPort)) := by
  have granted := (inv.held permits).granted_eq trace.1.backend.readyO DmaCluster.extPort
  rw [beValid_ext] at granted
  exact granted

/-- Then it is the one that the scheduler offers. -/
theorem burstReqI_ext (isExt : trace.1.frontend.peIdxArb (trace.1.dmaIn inp) = DmaCluster.extPort) :
    (trace.1.backendIn inp).burstReqI =
      (trace.1.scheduler.dmaXferO (trace.1.schedulerIn inp)).burstReq := by
  have descr : trace.1.frontend.transfDescrArb (trace.1.dmaIn inp) =
      trace.1.scheduler.dmaXferO (trace.1.offerIn inp) := by
    rw [PulpClusterFrontend.transfDescrArb, isExt]
    exact Fin.lastCases_last ..
  rw [DmaCluster.dmaXferO_eq, ← descr]
  rfl

theorem issue_eq (trace : DmaClusterTrace params) (inp : DmaClusterIn params) :
    trace.1.frontend.issue (trace.1.dmaIn inp) = (trace.1.backend.takes (trace.1.backendIn inp) &&
      decide ((trace.1.backendIn inp).burstReqI.numBytes ≠ 0)) := by
  have moves : decide ((trace.1.backendIn inp).burstReqI.numBytes ≠ 0) =
      decide ((trace.1.frontend.transfDescrArb (trace.1.dmaIn inp)).numBytes ≠ 0) := by
    refine decide_eq_decide.mpr (not_congr ?_)
    exact ⟨fun zero => BitVec.eq_of_toNat_eq zero, fun zero => congrArg BitVec.toNat zero⟩
  rw [moves, PulpClusterFrontend.issue, Bool.and_comm (trace.1.dmaIn inp).beReadyArb]
  rfl

/-! ## One cycle -/

section

variable (inv : trace.Inv) (permits : trace.Permits inp)

theorem issued_step : (trace.step inp).2.issued = trace.2.issued ++
    if trace.1.backend.takes (trace.1.backendIn inp) then
      [(trace.1.frontend.peIdxArb (trace.1.dmaIn inp), (trace.1.backendIn inp).burstReqI)] else [] := rfl

theorem moving_step : (trace.step inp).2.moving = trace.2.moving ++
    if trace.1.frontend.issue (trace.1.dmaIn inp) then
      [(trace.1.frontend.peIdxArb (trace.1.dmaIn inp), (trace.1.backendIn inp).burstReqI)] else [] := by
  rw [DmaClusterHistory.moving, issued_step, List.filter_append, issue_eq]
  refine congrArg (trace.2.moving ++ ·) ?_
  cases trace.1.backend.takes (trace.1.backendIn inp) with
  | false => rfl
  | true => by_cases none : (trace.1.backendIn inp).burstReqI.numBytes = 0 <;> simp [none]

include inv permits

theorem keeps_step (locked : (trace.step inp).1.frontend.rrArbTree.lockQ = true)
    (set : (trace.step inp).1.frontend.rrArbTree.reqQ DmaCluster.extPort = true) :
    (trace.step inp).1.scheduler.stateQ = .waitDma := by
  have locked : (trace.1.frontend.rrArbTree.reqO (PulpClusterFrontend.beValid (trace.1.dmaIn inp)) &&
    !trace.1.backend.readyO) = true := locked
  rw [Bool.and_eq_true, Bool.not_eq_true'] at locked
  have set : trace.1.frontend.rrArbTree.reqD (PulpClusterFrontend.beValid (trace.1.dmaIn inp))
    DmaCluster.extPort = true := set
  have valid := (inv.held permits).wants_of_reqD (fun _ => id) set
  rw [beValid_ext] at valid
  have refused : (trace.1.schedulerIn inp).dmaXferReadyI = false := by
    have grant : (trace.1.schedulerIn inp).dmaXferReadyI = RrArbTree.gntO trace.1.frontend.rrArbTree
      (PulpClusterFrontend.beValid (trace.1.dmaIn inp)) trace.1.backend.readyO DmaCluster.extPort := rfl
    rw [grant, RrArbTree.gntO, locked.2, Bool.false_and]
  have after : (trace.step inp).1.scheduler.stateQ =
    trace.1.scheduler.stateD (trace.1.schedulerIn inp) := rfl
  rw [after, ClusterScheduler.stateD, refused]
  rw [ClusterScheduler.dmaXferValidO] at valid
  cases state : trace.1.scheduler.stateQ with
  | ready =>
    have issues : trace.1.scheduler.canIssueDma (trace.1.schedulerIn inp) = true := by
      simpa [state] using valid
    simp [issues]
  | waitDma => rfl

omit permits in
theorem taken_step : (trace.step inp).2.issued.map Prod.snd = (trace.step inp).back.2.taken := by
  have taken : (trace.step inp).back.2.taken = trace.back.2.taken ++
    if trace.1.backend.takes (trace.1.backendIn inp) then [(trace.1.backendIn inp).burstReqI]
    else [] := rfl
  rw [issued_step, taken, List.map_append, inv.taken]
  cases trace.1.backend.takes (trace.1.backendIn inp) <;> rfl

omit permits in
theorem started_step : (trace.step inp).2.moving.map Prod.fst = (trace.step inp).dma.2.started := by
  have started : (trace.step inp).dma.2.started = trace.dma.2.started ++
    if trace.1.frontend.issue (trace.1.dmaIn inp) then
      [trace.1.frontend.peIdxArb (trace.1.dmaIn inp)] else [] := rfl
  rw [moving_step, started, List.map_append, inv.started]
  cases trace.1.frontend.issue (trace.1.dmaIn inp) <;> rfl

theorem nonzero_step : ∀ entry ∈ (trace.step inp).2.issued, entry.1 = DmaCluster.extPort →
    entry.2.numBytes ≠ 0 := by
  intro entry member isExt
  rw [issued_step, List.mem_append] at member
  rcases member with before | joins
  · exact inv.nonzero entry before isExt
  · cases takes : trace.1.backend.takes (trace.1.backendIn inp) with
    | false => simp [takes] at joins
    | true =>
      rw [takes, if_pos rfl, List.mem_singleton] at joins
      subst joins
      have valid : trace.1.scheduler.dmaXferValidO (trace.1.schedulerIn inp) = true := by
        have both := inv.ext_takes permits
        rw [takes, decide_eq_true isExt, Bool.and_self, Bool.and_eq_true] at both
        exact both.1
      have some : (trace.1.scheduler.dmaXferO (trace.1.schedulerIn inp)).numBytes ≠ 0 :=
        inv.sched.numBytes_ne valid
      show (trace.1.backendIn inp).burstReqI.numBytes ≠ 0
      rw [burstReqI_ext isExt]
      exact fun zero => some (BitVec.eq_of_toNat_eq zero)

theorem dmas_step :
    ((trace.step inp).2.issued.filter fun entry => decide (entry.1 = DmaCluster.extPort)).map Prod.snd =
      (trace.step inp).sched.2.dmas.map TransfDescr32.burstReq := by
  have dmas : (trace.step inp).sched.2.dmas = trace.sched.2.dmas ++
    if trace.1.scheduler.dmaXferValidO (trace.1.schedulerIn inp) &&
      (trace.1.schedulerIn inp).dmaXferReadyI then
      [trace.1.scheduler.dmaXferO (trace.1.schedulerIn inp)] else [] := rfl
  rw [issued_step, dmas, List.filter_append, List.map_append, List.map_append, inv.dmas,
    inv.ext_takes permits]
  congr 1
  cases trace.1.backend.takes (trace.1.backendIn inp) with
  | false => rfl
  | true =>
    by_cases isExt : trace.1.frontend.peIdxArb (trace.1.dmaIn inp) = DmaCluster.extPort
    · simp [isExt, burstReqI_ext isExt]
    · simp [isExt]

theorem resps_step : (trace.step inp).sched.2.resps =
    ((trace.step inp).dma.2.started.take (trace.step inp).dma.2.completed).count DmaCluster.extPort := by
  have resps : (trace.step inp).sched.2.resps = trace.sched.2.resps +
    (trace.1.schedulerIn inp).dmaRespI.toNat := rfl
  have count := inv.dma.count_step (inv.dmaPermits permits) DmaCluster.extPort
  have after : (trace.step inp).dma = trace.dma.step (trace.1.dmaIn inp) := rfl
  rw [resps, inv.resps, after, count]
  rfl

/-- The scheduler gets no more responses than it has transfers. -/
theorem permitsDma : trace.sched.PermitsDma (trace.1.schedulerIn inp) := by
  show (trace.step inp).sched.2.resps ≤ (trace.step inp).sched.2.dmas.length
  have ext := congrArg List.length (dmas_step inv permits)
  rw [List.length_map, List.length_map] at ext
  rw [resps_step inv permits, ← ext, ← started_step inv]
  refine ((List.take_sublist _ _).count_le _).trans ?_
  rw [List.count_eq_countP, List.countP_map, DmaClusterHistory.moving, ← List.countP_eq_length_filter]
  refine (List.Sublist.countP_le (List.filter_sublist)).trans (Nat.le_of_eq ?_)
  exact List.countP_congr fun entry _ => by simp

theorem Inv.step : (trace.step inp).Inv where
  dma := inv.dma.step (inv.dmaPermits permits)
  sched := inv.sched.step (permitsDma inv permits)
  back := inv.back.step permits.back
  keeps := keeps_step inv permits
  taken := taken_step inv
  started := started_step inv
  completed := congrArg (· + _) inv.completed
  nonzero := nonzero_step inv permits
  dmas := dmas_step inv permits
  resps := resps_step inv permits

end

/-! ## What is complete is copied -/

theorem Inv.copied_of_lt (inv : trace.Inv) {k : Nat} {port : params.dma.Port} {req : BurstReq}
    (isHere : trace.2.moving[k]? = some (port, req)) (before : k < trace.dma.2.completed) :
    trace.back.2.Copied params.backend k req := by
  refine inv.back.copiesTransfers.copied ?_ (inv.completed ▸ before)
  rw [filled_taken inv, List.getElem?_map, isHere]
  rfl

/-- The transfers of the external port all move something. -/
theorem Inv.dmas_moving (inv : trace.Inv) :
    (trace.2.moving.filter fun entry => decide (entry.1 = DmaCluster.extPort)).map Prod.snd =
      trace.sched.2.dmas.map TransfDescr32.burstReq := by
  rw [← inv.dmas, DmaClusterHistory.moving, List.filter_filter]
  refine congrArg _ (List.filter_congr fun entry member => ?_)
  by_cases isExt : entry.1 = DmaCluster.extPort
  · simp [isExt, inv.nonzero entry member isExt]
  · simp [isExt]

/-- The responses of the scheduler are for the transfers of its port that are complete. -/
theorem Inv.resps_moving (inv : trace.Inv) : trace.sched.2.resps =
    (trace.2.moving.take trace.dma.2.completed).countP
      fun entry => decide (entry.1 = DmaCluster.extPort) := by
  rw [inv.resps, ← inv.started, ← List.map_take, List.count_eq_countP, List.countP_map]
  exact List.countP_congr fun entry _ => by simp

/-- A task with a packet is dispatched only when its own transfer is complete. -/
theorem Inv.packetCopied (inv : trace.Inv) {n : Nat} {core : params.CoreId} {task : HpuHandlerTask}
    (dispatched : trace.2.scheduler.dispatched[n]? = some (core, task))
    (packet : task.hasPacket = true) : trace.2.PacketCopied n task := by
  -- the transfer of the task among those of the scheduler
  have isTask : (ClusterTrace.withPacket (trace.2.scheduler.dispatched.map Prod.snd))[
      (trace.2.scheduler.dispatched.take n).countP fun entry => entry.2.hasPacket]? = some task := by
    rw [ClusterTrace.withPacket, List.filter_map, List.getElem?_map]
    have isEntry := filter_countP (p := HpuHandlerTask.hasPacket ∘ Prod.snd) dispatched packet
    exact congrArg (Option.map Prod.snd) isEntry
  have inTransfers : ((ClusterTrace.withPacket (trace.2.scheduler.dispatched.map Prod.snd)).map
      ClusterScheduler.dmaXferOf)[
        (trace.2.scheduler.dispatched.take n).countP fun entry => entry.2.hasPacket]? =
      some (ClusterScheduler.dmaXferOf task) := by
    rw [List.getElem?_map, isTask]
    rfl
  obtain ⟨later, transfers⟩ := inv.sched.dispatches.copied
  have isDma : (trace.sched.2.dmas.take trace.sched.2.resps)[
      (trace.2.scheduler.dispatched.take n).countP fun entry => entry.2.hasPacket]? =
      some (ClusterScheduler.dmaXferOf task) := by
    rw [← transfers]
    exact (List.getElem?_append_left (List.getElem?_eq_some_iff.mp inTransfers).1).trans inTransfers
  rw [List.getElem?_take] at isDma
  split at isDma
  next early =>
    -- the same transfer among those that the frontend started
    have isReq : ((trace.2.moving.filter fun entry => decide (entry.1 = DmaCluster.extPort)).map
        Prod.snd)[(trace.2.scheduler.dispatched.take n).countP fun entry => entry.2.hasPacket]? =
        some (ClusterScheduler.dmaXferOf task).burstReq := by
      rw [inv.dmas_moving, List.getElem?_map]
      exact congrArg (Option.map TransfDescr32.burstReq) isDma
    rw [List.getElem?_map] at isReq
    obtain ⟨⟨port, req⟩, isEntry, rfl⟩ := Option.map_eq_some_iff.mp isReq
    have isExt : port = DmaCluster.extPort := by
      simpa using (List.mem_filter.mp (List.mem_of_getElem? isEntry)).2
    obtain ⟨k, isHere, counted⟩ := exists_of_filter isEntry
    have fewer : (trace.2.moving.take k).countP (fun entry => decide (entry.1 = DmaCluster.extPort)) <
        (trace.2.moving.take trace.dma.2.completed).countP
          fun entry => decide (entry.1 = DmaCluster.extPort) := by
      rw [counted, ← inv.resps_moving]
      exact early
    have before : k < trace.dma.2.completed := lt_of_countP_lt fewer
    exact ⟨k, isExt ▸ isHere, counted, inv.copied_of_lt isHere before⟩
  next => cases isDma

/-- Of the first transfers that were started, those of a core that has none outstanding are copied. -/
theorem Inv.copied_of_none (inv : trace.Inv) {count : Nat} {i : params.CoreId}
    (none : trace.dma.2.outstandingOf count i = 0) {k : Nat} {req : BurstReq} (inside : k < count)
    (isHere : trace.2.moving[k]? = some (params.dma.corePort i, req)) :
    trace.back.2.Copied params.backend k req := by
  refine inv.copied_of_lt isHere ?_
  by_contra later
  have started : trace.dma.2.started[k]? = some (params.dma.corePort i) := by
    rw [← inv.started, List.getElem?_map, isHere]
    rfl
  have waits : ((trace.dma.2.started.take count).drop trace.dma.2.completed)[
      k - trace.dma.2.completed]? = some (params.dma.corePort i) := by
    rw [List.getElem?_drop, Nat.add_sub_cancel' (Nat.not_lt.mp later), List.getElem?_take,
      if_pos inside, started]
  exact List.count_eq_zero.mp none (List.mem_of_getElem? waits)

/-! ## Whole runs -/

end

/-- No core has as many transfers outstanding as its counter has values. -/
def Few (trace : DmaClusterTrace params) (inp : DmaClusterIn params) : Prop :=
  trace.sys.Few (trace.1.clusterDmaIn inp)

instance (trace : DmaClusterTrace params) (inp : DmaClusterIn params) : Decidable (trace.Few inp) :=
  inferInstanceAs (Decidable (trace.sys.Few _))

/-! ### What the frontend can remember -/

/-- When a transfer is started, no more write bursts wait for their acknowledgement than the data path
    has places. -/
def Acknowledged (trace : DmaClusterTrace params) (inp : DmaClusterIn params) : Prop :=
  trace.1.frontend.issue (trace.1.dmaIn inp) = true →
    trace.back.2.answering.length ≤ PulpClusterFrontendParams.bufferDepth

instance (trace : DmaClusterTrace params) (inp : DmaClusterIn params) :
    Decidable (trace.Acknowledged inp) := inferInstanceAs (Decidable (_ → _))

/-- The transfers outstanding wait in the backend, are cut, or have a burst that is not acknowledged. -/
theorem Inv.inProgress_le {trace : DmaClusterTrace params} (inv : trace.Inv) :
    trace.dma.2.inProgress.length ≤ trace.1.backend.burstRequestFifo.contents.length + 1 +
      params.axiAxReqDepth + trace.back.2.answering.length := by
  obtain ⟨written, held, left, bytes, copies⟩ := inv.back.copies
  have total := copies.length_filled
  rw [filled_taken inv, List.length_map] at total
  have started := congrArg List.length inv.started
  rw [List.length_map] at started
  have length : trace.dma.2.inProgress.length =
      trace.dma.2.started.length - trace.dma.2.completed := List.length_drop
  have answers := List.countP_le_length (p := DescAx.last) (l := trace.back.2.answering)
  have bursts := inv.back.writing.countP_rest_le
  have emitted : trace.back.writes.length ≤ params.axiAxReqDepth := by
    rw [AxiDmaTrace.writes, List.length_zipWith]
    exact (Nat.min_le_right _ _).trans trace.back.1.mover.wEmitter.length_contents_le
  have queued : (AxiDmaTrace.filled trace.back.1.burstRequestFifo.contents).length ≤
      trace.1.backend.burstRequestFifo.contents.length := List.length_filter_le _ _
  have cut := Bool.toNat_le (decide (trace.back.1.burst.dst.numBytes ≠ 0))
  rw [length, inv.completed, ← started]
  omega

theorem Inv.permits_of_acknowledged {trace : DmaClusterTrace params} {inp : DmaClusterIn params}
    (inv : trace.Inv) (permits : trace.PermitsBus inp) (acknowledged : trace.Acknowledged inp) :
    trace.Permits inp where
  toPermitsBus := permits
  tracked := by
    intro issue
    have few := acknowledged issue
    have most := inv.inProgress_le
    have notFull : trace.1.backend.burstRequestFifo.contents.length < params.tfReqFifoDepth := by
      rw [issue_eq, Bool.and_eq_true, AxiDmaBackend.takes, Bool.and_eq_true, AxiDmaBackend.readyO,
        Bool.not_eq_true'] at issue
      exact FifoV3.fullO_eq_false.mp issue.1.2
    show _ < params.tfReqFifoDepth + params.axiAxReqDepth + PulpClusterFrontendParams.bufferDepth + 1
    omega

/-- The invariant with that of the counters. -/
structure CountedInv (trace : DmaClusterTrace params) : Prop where
  inv : trace.Inv
  sys : trace.sys.Inv

theorem CountedInv.step {trace : DmaClusterTrace params} {inp : DmaClusterIn params}
    (counted : trace.CountedInv) (permits : trace.Permits inp) (few : trace.Few inp) :
    (trace.step inp).CountedInv where
  inv := counted.inv.step permits
  sys := counted.sys.step (counted.inv.dmaPermits permits) few

end DmaClusterTrace

/-- A core gets a task only when its packet is in L1: the transfer that was made for this packet has
    written each byte as it was read from L2, whatever the other cores transfer meanwhile and however
    the bus takes its time. -/
theorem dmaCluster_packetFirst (params : DmaClusterParams) (inputs : List (DmaClusterIn params))
    (admitted : (dmaClusterTrace params).Admits DmaClusterTrace.Permits inputs)
    (n : Nat) (core : params.CoreId) (task : HpuHandlerTask)
    (dispatched :
      ((dmaClusterTrace params).run inputs).2.scheduler.dispatched[n]? = some (core, task))
    (packet : task.hasPacket = true) :
    ((dmaClusterTrace params).run inputs).2.PacketCopied n task :=
  (admitted.invariant DmaClusterTrace.Inv .reset fun _ _ inv permits =>
    inv.step permits).packetCopied dispatched packet

/-! Two tasks with packets of three bytes, over a bus of two lanes that is eager.  The handler of the
first one copies three bytes more. -/

def smallCluster : DmaClusterParams where
  numCores := 2
  numHersPerCluster := 2
  slotBits := 1
  clusterId := 0#6
  someCore := Nat.two_pos
  someHer := Nat.two_pos
  addressable := Nat.succ_le_succ (Nat.zero_le 22)
  idBits := 2
  idBits_le := Nat.succ_le_succ (Nat.succ_le_succ (Nat.zero_le 30))
  axiAxReqDepth := 2
  tfReqFifoDepth := 2
  offsetWidth := 1
  addrWidth := 32
  offsetWidth_pos := Nat.one_pos
  offsetWidth_le := smallDma.offsetWidth_le
  addrWidth_ge := smallDma.addrWidth_ge
  axiAxReqDepth_pos := Nat.two_pos
  tfReqFifoDepth_pos := Nat.two_pos

namespace DmaClusterTrace

/-- A cycle of an eager bus without other requests. -/
def eagerIn (trace : DmaClusterTrace smallCluster) : DmaClusterIn smallCluster where
  taskValidI := false
  taskDescrI := default
  feedbackReadyI := true
  hpuDriverBus := fun _ => default
  coreCmdReady := fun _ => true
  cmdRespValidI := false
  cmdRespI := default
  ctrlTarg := fun _ => default
  ctrlPeTarg := default
  axiDmaResI := trace.back.eagerIn.axiDmaResI

/-- What happens in a cycle: a task arrives, or the first core asks something of its driver or of the DMA
    engine. -/
inductive ClusterDoes where
  | waits
  | arrives
  | fetches
  | writes (addr data : BitVec 32)
  | starts
  | ends

def packetTask : HandlerTask :=
  { (default : HandlerTask) with handlerFun := 64, pktAddr := 5, pktSize := 3 }

def clusterIn (trace : DmaClusterTrace smallCluster) : ClusterDoes → DmaClusterIn smallCluster
  | .waits => trace.eagerIn
  | .arrives => { trace.eagerIn with taskValidI := true, taskDescrI := packetTask }
  | .fetches => { trace.eagerIn with hpuDriverBus := fun i => ⟨decide (i.val = 0), 0, true, 0⟩ }
  | .writes addr data =>
    { trace.eagerIn with ctrlTarg := fun i => ⟨decide (i.val = 0), false, 15, addr, data⟩ }
  | .starts => { trace.eagerIn with ctrlTarg := fun i => ⟨decide (i.val = 0), true, 15, 0x18, 0⟩ }
  | .ends => { trace.eagerIn with hpuDriverBus := fun i => ⟨decide (i.val = 0), 0x50, true, 0⟩ }

def clusterInputs :
    List ClusterDoes → DmaClusterTrace smallCluster → List (DmaClusterIn smallCluster)
  | [], _ => []
  | does :: rest, trace =>
    trace.clusterIn does :: clusterInputs rest (trace.step (trace.clusterIn does))

/-- The first task arrives, and the core fetches it.  When it has got it, it starts a transfer and ends;
    then the second task arrives. -/
def packetRun (cycles : Nat) : List (DmaClusterIn smallCluster) :=
  let handler := [.writes 0x08 0x41, .writes 0x10 3, .starts, .ends, .arrives]
  let run := [.arrives, .fetches] ++ List.replicate 7 .waits ++ handler ++ List.replicate 8 .waits
  clusterInputs (run.take cycles) (dmaClusterTrace smallCluster).reset

end DmaClusterTrace

/-- The packet of the second task is copied by the third transfer, the second one of its port. -/
theorem dmaCluster_packetFirst_three :
    let trace := (dmaClusterTrace smallCluster).run (DmaClusterTrace.packetRun 22)
    trace.2.moving.map Prod.fst =
        [DmaCluster.extPort, smallCluster.dma.corePort ⟨0, Nat.two_pos⟩, DmaCluster.extPort] ∧
      ∃ entry ∈ trace.2.scheduler.dispatched[1]?, trace.2.PacketCopied 1 entry.2 := by
  intro trace
  have ports : trace.2.moving.map Prod.fst =
      [DmaCluster.extPort, smallCluster.dma.corePort ⟨0, Nat.two_pos⟩, DmaCluster.extPort] := by
    decide +kernel
  have packets : ∀ entry ∈ trace.2.scheduler.dispatched[1]?, entry.2.hasPacket = true := by
    decide +kernel
  have some : (trace.2.scheduler.dispatched[1]?).isSome = true := by decide +kernel
  obtain ⟨⟨core, task⟩, isEntry⟩ := Option.isSome_iff_exists.mp some
  exact ⟨ports, (core, task), isEntry, dmaCluster_packetFirst smallCluster
    (DmaClusterTrace.packetRun 22) (by decide +kernel) 1 core task isEntry
      (packets (core, task) isEntry)⟩

/-- While no core has too many transfers outstanding to be counted, the feedback of a handler is sent
    only when every transfer that its core had started when it ended is copied. -/
theorem dmaCluster_transfersFirst (params : DmaClusterParams) (inputs : List (DmaClusterIn params))
    (inp : DmaClusterIn params)
    (admitted : (dmaClusterTrace params).Admits DmaClusterTrace.Permits (inputs ++ [inp]))
    (few : (dmaClusterTrace params).Admits DmaClusterTrace.Few (inputs ++ [inp]))
    (sent : ((dmaClusterTrace params).run inputs).1.system.feedbackValidO
      (((dmaClusterTrace params).run inputs).1.clusterDmaIn inp) = true) :
    let core := ((dmaClusterTrace params).run inputs).1.system.feedbackIdx
      (((dmaClusterTrace params).run inputs).1.clusterDmaIn inp)
    ∃ count rest, ((dmaClusterTrace params).run inputs).2.system.handlerEnds core = count :: rest ∧
      ∀ k < count, ∀ req,
        ((dmaClusterTrace params).run (inputs ++ [inp])).2.moving[k]? =
          some (params.dma.corePort core, req) →
        ((dmaClusterTrace params).run (inputs ++ [inp])).2.backend.Copied params.backend k req := by
  intro core
  have both := admitted.and few
  have counted : ((dmaClusterTrace params).run inputs).CountedInv :=
    both.of_append.invariant DmaClusterTrace.CountedInv ⟨.reset, .reset⟩ fun _ _ counted allows =>
      counted.step allows.1 allows.2
  obtain ⟨permits, fewNow⟩ := both.after.1
  have permitted : ((dmaClusterTrace params).run inputs).sys.Permits
      (((dmaClusterTrace params).run inputs).1.clusterDmaIn inp) := counted.inv.dmaPermits permits
  have waits := counted.sys.waits_of_few permitted fewNow
  obtain ⟨count, rest, isFront, none⟩ := waits.feedback sent
  refine ⟨count, rest, isFront, fun k inside req isHere => ?_⟩
  rw [Machine.run_concat] at isHere ⊢
  exact (counted.inv.step permits).copied_of_none none inside isHere

/-- When the handler ends, two transfers have been started: that of its packet and its own. -/
theorem dmaCluster_transfersFirst_three :
    let trace := (dmaClusterTrace smallCluster).run (DmaClusterTrace.packetRun 17)
    let core := trace.1.system.feedbackIdx (trace.1.clusterDmaIn trace.eagerIn)
    trace.2.system.handlerEnds core = [2] ∧
      (trace.2.moving.map Prod.fst).take 2 = [DmaCluster.extPort, smallCluster.dma.corePort core] ∧
      ∃ count rest, trace.2.system.handlerEnds core = count :: rest ∧ ∀ k < count, ∀ req,
        ((dmaClusterTrace smallCluster).run
            (DmaClusterTrace.packetRun 17 ++ [trace.eagerIn])).2.moving[k]? =
          some (smallCluster.dma.corePort core, req) →
        ((dmaClusterTrace smallCluster).run
          (DmaClusterTrace.packetRun 17 ++ [trace.eagerIn])).2.backend.Copied
            smallCluster.backend k req := by
  intro trace core
  exact ⟨by decide +kernel, by decide +kernel,
    dmaCluster_transfersFirst smallCluster (DmaClusterTrace.packetRun 17) trace.eagerIn
      (by decide +kernel) (by decide +kernel) (by decide +kernel)⟩

/-- If there are few write bursts to be acknowledged whenever a transfer starts, the frontend remembers
    where each transfer outstanding came from. -/
theorem dmaCluster_remembers (params : DmaClusterParams) (inputs : List (DmaClusterIn params))
    (admitted : (dmaClusterTrace params).Admits DmaClusterTrace.PermitsBus inputs)
    (acknowledged : (dmaClusterTrace params).Admits DmaClusterTrace.Acknowledged inputs) :
    (dmaClusterTrace params).Admits DmaClusterTrace.Permits inputs ∧
      ((dmaClusterTrace params).run inputs).1.frontend.tfIdFifo.contents =
        ((dmaClusterTrace params).run inputs).2.system.dma.inProgress := by
  have permitted : (dmaClusterTrace params).Admits DmaClusterTrace.Permits inputs :=
    ((admitted.and acknowledged).congr DmaClusterTrace.Inv .reset
      (fun _ _ inv allows => iff_of_true (inv.permits_of_acknowledged allows.1 allows.2) trivial)
      fun _ _ inv allows _ => inv.step (inv.permits_of_acknowledged allows.1 allows.2)).mpr
        (Machine.admits_true _ inputs)
  have inv : ((dmaClusterTrace params).run inputs).Inv :=
    permitted.invariant DmaClusterTrace.Inv .reset fun _ _ inv permits => inv.step permits
  exact ⟨permitted, inv.dma.holds⟩

theorem dmaCluster_remembers_three :
    (dmaClusterTrace smallCluster).Admits DmaClusterTrace.Permits (DmaClusterTrace.packetRun 22) ∧
      ((dmaClusterTrace smallCluster).run (DmaClusterTrace.packetRun 22)).1.frontend.tfIdFifo.contents =
        ((dmaClusterTrace smallCluster).run (DmaClusterTrace.packetRun 22)).2.system.dma.inProgress :=
  dmaCluster_remembers smallCluster (DmaClusterTrace.packetRun 22) (by decide +kernel)
    (by decide +kernel)

end Pspin
