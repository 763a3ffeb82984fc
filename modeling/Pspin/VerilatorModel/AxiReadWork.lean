import Pspin.Clocked.Fallible
import Pspin.VerilatorModel.AxiMasterRead

/-! # Reads on their way

Every stage of the AXI master brings a burst closer to the memory or a beat closer to the client, or
there is nothing for it to do.
-/

namespace Pspin

open Clocked

/-- Nothing is on its way any more. -/
structure AxiReads.Drained (reads : AxiReads) : Prop where
  arPending : reads.arPending = []
  arQueue : reads.arQueue = []
  arPort : reads.arPort = none
  owed : reads.owed = []
  rQueue : reads.rQueue = []

/-- How far everything is from the client. -/
def AxiReads.load (reads : AxiReads) : Nat :=
  3 * reads.arPending.length + 2 * reads.arQueue.length + reads.arPort.toList.length +
    2 * reads.awaited.length + reads.rQueue.length

section Load

variable {reads reads' : AxiReads}

theorem sendArBeat_load (reads : AxiReads) :
    Works AxiReads.load (reads.arPending = []) reads reads.sendArBeat := by
  have awaited := sendArBeat_awaited reads
  cases pending : reads.arPending with
  | nil =>
    rw [AxiReads.sendArBeat, pending]
    exact Or.inl ⟨rfl, rfl⟩
  | cons ar arPending =>
    right
    rw [AxiReads.load, awaited, AxiReads.load, AxiReads.sendArBeat, pending]
    simp only [List.length_append, List.length_cons, List.length_nil]
    omega

/-- A burst goes to the port, if it is free. -/
theorem arPosedge_load (settled : reads.Settled) :
    Works AxiReads.load (reads.arWait = true ∨ reads.arQueue = []) reads reads.arPosedge := by
  have awaited := arPosedge_awaited settled
  cases wait : reads.arWait with
  | true =>
    rw [AxiReads.arPosedge, wait]
    exact Or.inl ⟨rfl, Or.inl rfl⟩
  | false =>
    have free := Settled.port_eq_none settled wait
    cases queue : reads.arQueue with
    | nil =>
      have same : { reads with arPort := none } = reads := by rw [← free]
      rw [wait, queue] at same
      rw [AxiReads.arPosedge, wait, if_neg Bool.false_ne_true, queue]
      exact Or.inl ⟨same, Or.inr rfl⟩
    | cons ar arQueue =>
      right
      rw [AxiReads.load, awaited, AxiReads.load, AxiReads.arPosedge, wait, if_neg Bool.false_ne_true,
        queue, free]
      simp only [Option.toList_some, Option.toList_none, List.length_cons, List.length_nil]
      omega

/-- A burst that finds the port free does not stay in the queue. -/
theorem Settled.queue_eq_nil (settled : reads.Settled) (free : reads.arPort = none)
    (queue : reads.arWait = true ∨ reads.arQueue = []) : reads.arQueue = [] := by
  rcases queue with wait | none_
  · rw [AxiReads.Settled, wait, free] at settled
    cases settled
  · exact none_

/-- A beat that arrives was requested and is buffered. -/
theorem rPosedge_load {rData : Option (Nat → BitVec 8)} (arrives : reads.rPosedge rData = some reads') :
    Works AxiReads.load (rData = none ∨ reads.owed = []) reads reads' := by
  by_cases idle : rData = none ∨ reads.owed = []
  · rw [rPosedge_idle idle, Option.some.injEq] at arrives
    exact Or.inl ⟨arrives.symm, idle⟩
  · right
    obtain ⟨present, owes⟩ := not_or.mp idle
    obtain ⟨data, rfl⟩ := Option.ne_none_iff_exists'.mp present
    obtain ⟨beat, owed, isOwed⟩ := List.exists_cons_of_ne_nil owes
    unfold AxiReads.rPosedge at arrives
    rw [isOwed] at arrives
    cases queue : reads.readQueue with
    | nil =>
      rw [queue] at arrives
      cases arrives
    | cons entry readQueue =>
      rw [queue] at arrives
      rw [← Option.some.inj arrives]
      simp only [AxiReads.load, AxiReads.awaited, isOwed, List.length_append, List.length_cons,
        List.length_nil]
      omega

/-- A burst that the memory takes leaves the port. -/
theorem arNegedge_load (reads : AxiReads) (arReady : Bool) :
    ((reads.arNegedge arReady).load = reads.load ∧ (reads.arPort = none ∨ arReady = false)) ∨
      (reads.arNegedge arReady).load < reads.load := by
  have awaited := arNegedge_awaited reads arReady
  rw [AxiReads.load, awaited, AxiReads.load, AxiReads.arNegedge]
  cases port : reads.arPort with
  | none => exact Or.inl ⟨rfl, Or.inl rfl⟩
  | some ar =>
    cases arReady with
    | false => exact Or.inl ⟨rfl, Or.inr rfl⟩
    | true =>
      right
      simp only [if_true, Option.toList_some, Option.toList_none, List.length_cons, List.length_nil]
      omega

theorem consumeRBeat_load {dataLength : Nat} {data : List (BitVec 8)} {last : Bool}
    (consumed : reads.consumeRBeat dataLength = some (reads', data, last)) :
    reads'.load < reads.load := by
  rw [AxiReads.consumeRBeat] at consumed
  cases queue : reads.rQueue with
  | nil =>
    rw [queue] at consumed
    cases consumed
  | cons r rQueue =>
    rw [queue, Option.some.injEq, Prod.mk.injEq] at consumed
    obtain ⟨rfl, -⟩ := consumed
    simp only [AxiReads.load, AxiReads.awaited, queue, List.length_cons]
    omega

/-- A read has at most as many beats as bytes. -/
theorem length_readBeats_le (addr nBytes : Nat) : (readBeats addr nBytes).length ≤ nBytes := by
  induction addr, nBytes using axBursts.induct with
  | case1 addr =>
    rw [readBeats, axBursts_zero]
    exact Nat.le_refl 0
  | case2 addr nBytes some_ inductionHypothesis =>
    have inside : bytesInPage addr nBytes ≤ nBytes := Nat.min_le_left _ _
    have positive : 0 < bytesInPage addr nBytes := by
      unfold bytesInPage
      omega
    have beats : (pageBurst addr (bytesInPage addr nBytes)).beat.axLen + 1 ≤
        bytesInPage addr nBytes := by
      show (addr % axiSw + bytesInPage addr nBytes - 1) / axiSw + 1 ≤ _
      unfold axiSw
      omega
    rw [readBeats] at inductionHypothesis
    rw [readBeats, axBursts, if_neg some_, List.flatMap_cons, List.length_append, length_beatsOf]
    omega

theorem read_load {addr : Nat} {nBytes : Word} (issued : reads.read addr nBytes = some reads') :
    reads'.load ≤ reads.load + 5 * nBytes.toNat := by
  have bursts := length_axBursts_le addr nBytes.toNat
  have beats := length_readBeats_le addr nBytes.toNat
  rw [readBeats] at beats
  rw [AxiReads.read, createAxBeats_eq (Nat.lt_succ_self nBytes.toNat)] at issued
  rw [← Option.some.inj issued]
  simp only [AxiReads.load, AxiReads.awaited, List.flatMap_append, List.flatMap_map,
    List.length_append, List.length_map]
  omega

/-- When everything is drained no beat is planned. -/
theorem Serves.drained {returned : RBeat → (Nat → BitVec 8) → Prop}
    {buffered requested : List PlannedBeat} (serves : Serves returned reads buffered requested)
    (drained : reads.Drained) : buffered = [] ∧ requested = [] := by
  have beats := serves.beats
  have buffers := serves.buffers
  rw [AxiReads.awaited, drained.owed, drained.arPort, drained.arQueue, drained.arPending] at beats
  rw [drained.rQueue] at buffers
  exact ⟨List.forall₂_nil_left_iff.mp buffers, List.map_eq_nil_iff.mp beats.symm⟩

end Load

end Pspin
