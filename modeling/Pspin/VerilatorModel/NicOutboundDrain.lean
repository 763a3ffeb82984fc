import Pspin.VerilatorModel.AxiReadWork
import Pspin.VerilatorModel.NicOutboundRuns

/-! # The outbound engine runs empty

Every stage of a cycle either changes nothing or does some of the work that is left: a beat comes
closer to its packet, a packet closer to the network.  Cutting a packet off its command does work
too, since the bytes of a command weigh more than all that is done for them.  When no commands come
and the memory is ready often enough, all work gets done.
-/

namespace Pspin

open Clocked

/-- The memory returns a beat and takes a burst. -/
def NicOutboundIn.ready (inp : NicOutboundIn) : Bool := inp.arReady && inp.rData.isSome

namespace NicOutbound

/-- What is left to be done: a packet waits for at most `2 ^ 32` cycles before the next one. -/
def work (no : NicOutbound) : Nat :=
  (2 ^ 32 + 7) * (no.commands.map fun cmd => cmd.length.toNat).sum + no.axiDriver.load +
    (2 ^ 32 + 1) * no.dmaPktInFlight.length + 2 ^ 32 * no.networkQueue.length + no.waitCycles

section Work

variable {params : NicOutboundParams} {no no' : NicOutbound} {inp : NicOutboundIn}
  {buffered requested : List PlannedBeat}

theorem driver_work {axiDriver : AxiReads} {reason : Prop}
    (works : Works AxiReads.load reason no.axiDriver axiDriver) :
    Works work reason no { no with axiDriver := axiDriver } := by
  rcases works with ⟨same, stays⟩ | less
  · left
    rw [same]
    exact ⟨rfl, stays⟩
  · right
    simp only [work]
    omega

theorem arNegedge_work (no : NicOutbound) (arReady : Bool) :
    (work { no with axiDriver := no.axiDriver.arNegedge arReady } = no.work ∧
      (no.axiDriver.arPort = none ∨ arReady = false)) ∨
      work { no with axiDriver := no.axiDriver.arNegedge arReady } < no.work := by
  rcases arNegedge_load no.axiDriver arReady with ⟨same, stays⟩ | less
  · left
    simp only [work, same]
    exact ⟨trivial, stays⟩
  · right
    simp only [work]
    omega

theorem progressNetqueue_accepted (params : NicOutboundParams) (no : NicOutbound) :
    (no.progressNetqueue params).accepted = no.accepted := by
  rw [NicOutbound.progressNetqueue]
  dsimp only
  split
  · rfl
  · cases no.networkQueue <;> rfl

theorem respond_work (responds : no.progressAxiReadResponses = some no') :
    Works work (no.axiDriver.rQueue = []) no no' := by
  rw [progressAxiReadResponses] at responds
  split at responds
  next idle => exact Or.inl ⟨(Option.some.inj responds).symm, List.isEmpty_iff.mp idle⟩
  next =>
    right
    split at responds
    next => cases responds
    next pkt dmaPktInFlight inFlight =>
      obtain ⟨⟨axiDriver, data, readComplete⟩, consumed, rest⟩ :=
        Option.bind_eq_some_iff.mp responds
      have less := consumeRBeat_load consumed
      dsimp only at rest
      split at rest
      next =>
        split at rest
        next =>
          rw [← Option.some.inj rest]
          simp only [work, inFlight, List.length_cons, List.length_append, List.length_nil]
          omega
        next => cases rest
      next =>
        rw [← Option.some.inj rest]
        simp only [work, inFlight, List.length_cons]
        omega

theorem progressNetqueue_work (params : NicOutboundParams) (no : NicOutbound) :
    Works work (no.networkQueue = [] ∧ no.waitCycles = 0) no (no.progressNetqueue params) := by
  rw [NicOutbound.progressNetqueue]
  dsimp only
  split
  next waits =>
    right
    simp only [work]
    omega
  next =>
    cases queue : no.networkQueue with
    | nil =>
      by_cases none_ : no.waitCycles = 0
      · have same : { no with waitCycles := no.waitCycles - 1 } = no := by
          rw [none_, Nat.zero_sub, ← none_]
        rw [queue] at same
        exact Or.inl ⟨same, rfl, none_⟩
      · right
        simp only [work, queue, List.length_nil]
        omega
    | cons pkt networkQueue =>
      right
      have short := Nat.mod_lt (params.gap * (pkt.length.toNat / wordSize)) (Nat.two_pow_pos 32)
      simp only [work, queue, List.length_cons]
      omega

theorem progressPackets_work (moves : no.Moves params buffered requested)
    (room : 32 < params.maxPktLength.toNat) (packets : no.progressPackets params = some no') :
    Works work (no.commands = [] ∨
      params.networkBufferSize ≤ no.networkQueue.length + no.dmaPktInFlight.length) no no' := by
  rw [NicOutbound.progressPackets] at packets
  split at packets
  next goes =>
    right
    obtain ⟨cmd, commands, queue⟩ := List.exists_cons_of_ne_nil goes.1
    obtain ⟨positive, single⟩ := moves.cutting.fits cmd (queue ▸ List.mem_cons_self)
    obtain ⟨pkt, piece, taken⟩ := getNextPacket_eq room positive single commands
    have some_ := piece.some_
    have inside := piece.inside
    rw [queue] at packets
    simp only [taken, Option.bind_eq_bind, Option.bind_some] at packets
    obtain ⟨axiDriver, issued, rest⟩ := Option.bind_eq_some_iff.mp packets
    have more := read_load issued
    rw [← Option.some.inj rest]
    simp only [work, queue, List.map_cons, List.sum_cons, List.length_append, List.length_singleton]
    -- a command with its last packet cut off counts no more, any other one counts less
    cases last : pkt.isLast with
    | true =>
      have all := piece.isLast.mp last
      rw [if_pos rfl]
      omega
    | false =>
      have left : (cmd.without pkt).length.toNat = cmd.length.toNat - pkt.payloadLength.toNat :=
        BitVec.toNat_sub_of_le (BitVec.le_def.mpr inside)
      rw [if_neg Bool.false_ne_true, List.map_append, List.sum_append, List.map_singleton,
        List.sum_singleton, left]
      omega
  next stays =>
    left
    refine ⟨(Option.some.inj packets).symm, ?_⟩
    rw [Classical.not_and_iff_not_or_not, not_not, Nat.not_lt] at stays
    exact stays

/-- The engine between two cycles. -/
def InStep (params : NicOutboundParams) (no : NicOutbound) : Prop :=
  no.axiDriver.Settled ∧ ∃ buffered requested, no.Moves params buffered requested

theorem reset_inStep (params : NicOutboundParams) : reset.InStep params :=
  ⟨rfl, [], [], reset_moves params⟩

/-- When nothing is on its way to or from the memory, no packet waits for it. -/
theorem Moves.noneInFlight (moves : no.Moves params buffered requested)
    (drained : no.axiDriver.Drained) : no.dmaPktInFlight = [] := by
  obtain ⟨rfl, rfl⟩ := moves.serves.drained drained
  exact List.map_eq_nil_iff.mp moves.reads.symm

theorem load_eq_zero {reads : AxiReads} (drained : reads.Drained) : reads.load = 0 := by
  rw [AxiReads.load, AxiReads.awaited, drained.arPending, drained.arQueue, drained.arPort, drained.owed,
    drained.rQueue]
  rfl

/-- When no stage has anything to do, no work is left. -/
theorem Moves.work_eq_zero (moves : no.Moves params buffered requested)
    (buffers : 0 < params.networkBufferSize) (drained : no.axiDriver.Drained)
    (networkQueue : no.networkQueue = []) (waitCycles : no.waitCycles = 0)
    (commands : no.commands = [] ∨
      params.networkBufferSize ≤ no.networkQueue.length + no.dmaPktInFlight.length) :
    no.work = 0 := by
  have inFlight := moves.noneInFlight drained
  have empty : no.commands = [] := by
    rcases commands with empty | full
    · exact empty
    · rw [networkQueue, inFlight] at full
      exact absurd (Nat.le_zero.mp full) buffers.ne'
  rw [NicOutbound.work, empty, load_eq_zero drained, inFlight, networkQueue, waitCycles]
  rfl

/-- No work is left of an engine that is idle. -/
theorem InStep.idle (inStep : no.InStep params) (done : no.work = 0) : no.Idle := by
  obtain ⟨-, buffered, requested, moves⟩ := inStep
  have fits := moves.cutting.fits
  rw [NicOutbound.work] at done
  refine ⟨?_, List.length_eq_zero_iff.mp (by omega), List.length_eq_zero_iff.mp (by omega)⟩
  cases queue : no.commands with
  | nil => rfl
  | cons cmd commands =>
    rw [queue] at fits done
    have some_ := (fits cmd List.mem_cons_self).1
    rw [List.map_cons, List.sum_cons] at done
    omega

/-- A cycle keeps the engine in step.  Without a new command, it does some work if the memory is
    ready and any is left, and makes none. -/
theorem InStep.cycle (inStep : no.InStep params) (room : 32 < params.maxPktLength.toNat)
    (valid : inp.Valid params) : ∃ no', no.cycle params inp = some no' ∧ no'.InStep params ∧
      (inp.cmdReq = none → no'.accepted = no.accepted ∧
        (0 < params.networkBufferSize → no'.work ≤ no.work - inp.ready.toNat)) := by
  obtain ⟨settled, buffered, requested, moves⟩ := inStep
  -- one stage after the other, in the order of the source
  have sent := moves.serves.sendArBeat.arPosedge (sendArBeat_settled settled)
  have anything : ∀ data ∈ inp.rData,
      ∀ beat ∈ no.axiDriver.sendArBeat.arPosedge.owed.head?, True := fun _ _ _ _ => trivial
  obtain ⟨axiDriver, arrived, rest, returned, rfl, serves⟩ := sent.rPosedge anything
  have arrives := moves.driver serves (List.append_assoc buffered arrived rest)
  obtain ⟨no₁, buffered', responds, moves₁, accepted₁⟩ := arrives.respond
  obtain ⟨no₂, accepts, moves₂⟩ := moves₁.progressNetqueue.handleCmdPosedge valid
  obtain ⟨no₃, requested', packets, moves₃, accepted₃⟩ := moves₂.progressPackets room
  refine ⟨{ no₃ with axiDriver := no₃.axiDriver.arNegedge inp.arReady }, ?_,
    ⟨arNegedge_settled _ _, buffered', requested', moves₃.driver (moves₃.serves.arNegedge _) rfl⟩,
    fun quiet => ?_⟩
  · simp only [NicOutbound.cycle, returned, responds, accepts, packets, Option.bind_eq_bind,
      Option.bind_some]
  · rw [quiet] at accepts
    have leaves : no₁.progressNetqueue params = no₂ := Option.some.inj accepts
    refine ⟨?_, fun buffers => ?_⟩
    · show no₃.accepted = no.accepted
      rw [accepted₃, ← leaves, progressNetqueue_accepted, accepted₁]
    -- what each stage does to the work that is left
    · have sends := (sendArBeat_load no.axiDriver).trans (arPosedge_load (sendArBeat_settled settled))
      have posedge := driver_work (sends.trans (rPosedge_load returned))
      have response := respond_work responds
      have netqueue := progressNetqueue_work params no₁
      have packet := progressPackets_work moves₂ room packets
      have negedge := arNegedge_work no₃ inp.arReady
      rw [leaves] at netqueue
      have le₀ := posedge.le
      have le₁ := response.le
      have le₂ := netqueue.le
      have le₃ := packet.le
      have le₄ : work { no₃ with axiDriver := no₃.axiDriver.arNegedge inp.arReady } ≤ no₃.work :=
        negedge.elim (fun stays => Nat.le_of_eq stays.1) Nat.le_of_lt
      by_cases less : work { no₃ with axiDriver := no₃.axiDriver.arNegedge inp.arReady } < no.work
      · have single := Bool.toNat_le inp.ready
        omega
      · -- no stage has done anything: no work is left, or the memory is not ready
        obtain ⟨same₀, sent, ⟨same, pending, queue⟩, owed⟩ := posedge.still (by omega)
        obtain ⟨same₁, rQueue⟩ := response.still (by omega)
        obtain ⟨same₂, networkQueue, waitCycles⟩ := netqueue.still (by omega)
        obtain ⟨same₃, commands⟩ := packet.still (by omega)
        obtain ⟨-, free⟩ := negedge.resolve_right (by omega)
        rw [same] at sent queue
        rw [same, sent] at owed
        rw [same₀] at same₁ rQueue
        rw [same₁] at same₂ networkQueue waitCycles
        rw [same₂] at same₃ commands
        rw [same₃] at free
        cases ready : inp.ready with
        | false =>
          show _ ≤ no.work
          omega
        | true =>
          obtain ⟨arReady, rData⟩ := Bool.and_eq_true_iff.mp ready
          have noPort := free.resolve_right (by simp [arReady])
          have noBeat := owed.resolve_left (Option.isSome_iff_ne_none.mp rData)
          have noQueue := Settled.queue_eq_nil settled noPort queue
          have done := moves.work_eq_zero buffers ⟨pending, noQueue, noPort, noBeat, rQueue⟩
            networkQueue waitCycles commands
          omega

end Work

end NicOutbound

/-- Whatever comes when, no assertion fails, every command is cut into packets and is answered once
    all of them have left; and once the memory was ready often enough, every command is answered. -/
theorem nicOutbound_exact (params : NicOutboundParams)
    (room : rdmaHeaderLength < params.maxPktLength) {inputs : List NicOutboundIn}
    (valid : ∀ inp ∈ inputs, inp.Valid params) :
    ∃ no, (nicOutbound params).run inputs = some no ∧ no.Exact params ∧
      (0 < params.networkBufferSize → ∃ enough, ∀ more : List NicOutboundIn,
        (∀ inp ∈ more, inp.cmdReq = none) → enough ≤ more.countP NicOutboundIn.ready →
          ∃ no', (nicOutbound params).run (inputs ++ more) = some no' ∧ no'.Exact params ∧ no'.Idle ∧
            no'.accepted = no.accepted) := by
  have room' : 32 < params.maxPktLength.toNat := BitVec.lt_def.mp room
  obtain ⟨no, run, inStep⟩ : ∃ no, (nicOutbound params).run inputs = some no ∧
      no.InStep params := by
    refine Machine.failing_run _ (NicOutbound.reset_inStep params) (fun no inp inStep valid => ?_)
      valid
    obtain ⟨no', cycle, inStep', -⟩ := NicOutbound.InStep.cycle inStep room' valid
    exact ⟨no', cycle, inStep'⟩
  have exact_ : no.Exact params := by
    obtain ⟨-, buffered, requested, moves⟩ := inStep
    exact moves.exact
  refine ⟨no, run, exact_, fun buffers => ⟨no.work, fun more quiet enough => ?_⟩⟩
  -- while no command comes, the work left bounds the ready cycles that are needed
  have works (no' : NicOutbound) (inp : NicOutboundIn)
      (holds : no'.InStep params ∧ no'.accepted = no.accepted) (quiet : inp.cmdReq = none) :
      ∃ next, no'.cycle params inp = some next ∧
        (next.InStep params ∧ next.accepted = no.accepted) ∧
          next.work ≤ no'.work - inp.ready.toNat := by
    obtain ⟨next, cycle, inStep', quietly⟩ :=
      NicOutbound.InStep.cycle holds.1 room' (NicOutboundIn.valid_of_none quiet)
    obtain ⟨accepted, less⟩ := quietly quiet
    exact ⟨next, cycle, ⟨inStep', accepted.trans holds.2⟩, less buffers⟩
  obtain ⟨no', rest, ⟨inStep', same⟩, left⟩ := Machine.failing_runFrom_work
    (fun no' => no'.InStep params ∧ no'.accepted = no.accepted) NicOutbound.work
    NicOutboundIn.ready works ⟨inStep, rfl⟩ quiet
  have idle := NicOutbound.InStep.idle inStep' (by omega)
  obtain ⟨-, buffered, requested, moves⟩ := inStep'
  exact ⟨no', (Machine.failing_run_append run).trans rest, moves.exact, idle, same⟩

/-- The packet of the second command leaves between those of the first one, and is answered first. -/
theorem nicOutbound_exact_two :
    let params : NicOutboundParams := ⟨0, 96, 4⟩
    let inputs : List NicOutboundIn := ⟨none, true, some (0x1000, 200, 1, 7)⟩ ::
      ⟨none, true, some (0x2000, 40, 0, 8)⟩ :: List.replicate 6 ⟨some fun _ => 0, true, none⟩
    ((nicOutbound params).run inputs).map (fun no =>
      (no.sent.map fun pkt => (pkt.sourceAddr, pkt.length, pkt.isLast), no.responses)) =
        some ([(0x1000, 96, false), (0x1040, 96, false), (0x2000, 40, true), (0x1080, 96, false),
          (0x10c0, 40, true)], [(1, 8), (0, 7)]) ∧
    ∃ no, (nicOutbound params).run inputs = some no ∧ no.Exact params ∧
      (0 < params.networkBufferSize → ∃ enough, ∀ more : List NicOutboundIn,
        (∀ inp ∈ more, inp.cmdReq = none) → enough ≤ more.countP NicOutboundIn.ready →
          ∃ no', (nicOutbound params).run (inputs ++ more) = some no' ∧ no'.Exact params ∧ no'.Idle ∧
            no'.accepted = no.accepted) := by
  refine ⟨by decide +kernel, nicOutbound_exact ⟨0, 96, 4⟩ (by decide) (List.forall_mem_cons.mpr
    ⟨?_, List.forall_mem_cons.mpr ⟨?_, List.forall_mem_replicate.mpr (Or.inr ?_)⟩⟩)⟩
  · intro req isReq
    obtain rfl := Option.some.inj isReq
    exact ⟨by decide, by decide⟩
  · intro req isReq
    obtain rfl := Option.some.inj isReq
    exact ⟨by decide, by decide⟩
  · exact NicOutboundIn.valid_of_none rfl

end Pspin
