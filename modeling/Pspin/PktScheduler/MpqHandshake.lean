import Pspin.PktScheduler.MpqStock

/-! # The output handshake of `mpq_engine`

A grant of the arbiter reads two memories, so its task is built one cycle later, and the offer may
then wait for `task_ready_i` while HERs and feedbacks change the MPQ, its packets and its metadata.
The laws here hold for every input: each grant becomes one task handed out, in order, and that task
is the one of the MPQ as the grant found it.
-/

namespace Pspin

open Clocked MpqPlan MpqPhase

/-- What the grants of an engine are to become: the packets and the metadata of each MPQ, the task
    of each grant at the time it was made, and the tasks that were handed out. -/
structure MpqGrants (params : MpqEngineParams) where
  queue : params.Idx → List MpqPkt
  metas : params.Idx → MpqMeta
  granted : List HandlerTask
  handed : List HandlerTask

namespace MpqGrants

variable {params : MpqEngineParams}

def initial (metas : params.Idx → MpqMeta) : MpqGrants params where
  queue := fun _ => []
  metas := metas
  granted := []
  handed := []

/-- The task that the grant of this cycle stands for: the MPQ granted, its state, its metadata and
    the packet at the front of its queue. -/
def grant (engine : MpqEngine params) (grants : MpqGrants params) (inp : MpqEngineIn) :
    List HandlerTask :=
  let i := engine.tasksentMpqIdx
  if engine.taskSent inp then
    (grants.queue i).head?.toList.map fun front =>
      (taskFor (MpqEngine.idxMsgid i) (engine.mpqQ i).state (grants.metas i) front
        (engine.fifoPop inp)).task
  else []

def record (engine : MpqEngine params) (grants : MpqGrants params) (inp : MpqEngineIn) :
    MpqGrants params where
  queue i := turn ((engine.fifoIn inp).pops i) ((engine.fifoIn inp).pushes i)
    (MpqEngine.newPkt inp) (grants.queue i)
  -- only the HER that opens a message brings metadata
  metas i :=
    if engine.herNew inp && decide (MpqEngine.newherMpqIdx inp = i) &&
      decide ((engine.mpqQ i).state = .free)
    then inp.herI.mpqMeta else grants.metas i
  granted := grants.granted ++ grant engine grants inp
  handed := grants.handed ++ if inp.taskReadyI then engine.offer else []

end MpqGrants

/-- An engine and its grants. -/
abbrev MpqHandover (params : MpqEngineParams) := MpqEngine params × MpqGrants params

def mpqHandover (params : MpqEngineParams) (cells : Nat → MpqPkt) (metas : params.Idx → MpqMeta) :
    Machine (MpqHandover params) MpqEngineIn :=
  (mpqEngine params cells metas).observedBy (MpqGrants.initial metas) MpqGrants.record

namespace MpqHandover

variable {params : MpqEngineParams} (trace : MpqHandover params)

def step (inp : MpqEngineIn) : MpqHandover params :=
  (trace.1.step inp, MpqGrants.record trace.1 trace.2 inp)

/-- The handshake at one time, whatever the next cycle brings. -/
structure KeepsHandshake : Prop where
  /-- The grants are the tasks handed out and the one on offer. -/
  balanced : trace.2.granted = trace.2.handed ++ trace.1.offer
  /-- A grant is of an MPQ that requests it and has a packet, so it stands for one task. -/
  founded : ∀ inp, trace.1.taskSent inp = true →
    trace.1.mpqValid trace.1.tasksentMpqIdx = true ∧
      ∃ task, MpqGrants.grant trace.1 trace.2 inp = [task]
  /-- An offer that is not taken stays. -/
  stable : ∀ inp, trace.1.taskValidO = true → inp.taskReadyI = false →
    (trace.1.step inp).taskValidO = true ∧ (trace.1.step inp).taskO = trace.1.taskO
  /-- A request stays until it is granted. -/
  persistent : ∀ inp i, trace.1.mpqValid i = true →
    (trace.1.taskSent inp && decide (trace.1.tasksentMpqIdx = i)) = false →
      (trace.1.step inp).mpqValid i = true

/-- Once a cycle is ready, everything granted before it has been handed out. -/
def HandsOver (machine : Machine (MpqHandover params) MpqEngineIn) (inputs : List MpqEngineIn) :
    Prop :=
  ∀ later, (∃ inp ∈ later, inp.taskReadyI = true) →
    (machine.run inputs).2.granted <+: (machine.run (inputs ++ later)).2.handed

/-- The invariant. -/
structure Founded : Prop where
  supplied : trace.1.Supplied trace.2.queue
  stored : ∀ i, trace.1.mpqMetaMem.sram i = trace.2.metas i
  balanced : trace.2.granted = trace.2.handed ++ trace.1.offer

variable {trace}

theorem founded_reset (cells : Nat → MpqPkt) (metas : params.Idx → MpqMeta) :
    Founded (mpqHandover params cells metas).reset where
  supplied := MpqEngine.supplied_reset cells metas
  stored _ := rfl
  balanced := rfl

namespace Founded

variable (founded : trace.Founded)

include founded

/-- The task built from what the memories return is the one the grant stands for. -/
theorem grant_eq (inp : MpqEngineIn) : MpqGrants.grant trace.1 trace.2 inp =
    if trace.1.taskSent inp then [(trace.1.step inp).newTask] else [] := by
  cases sends : trace.1.taskSent inp with
  | false => simp [MpqGrants.grant, sends]
  | true =>
    obtain ⟨front, isFront⟩ := founded.supplied.front sends
    have requested := MpqEngine.requests_of_sent founded.supplied.held sends
    have built := MpqEngine.newTask_step founded.supplied.packets sends requested isFront
    rw [built, founded.stored]
    simp [MpqGrants.grant, sends, isFront]

theorem balanced_step (inp : MpqEngineIn) : (trace.step inp).2.granted =
    (trace.step inp).2.handed ++ (trace.step inp).1.offer := by
  have granted : (trace.step inp).2.granted =
      trace.2.granted ++ MpqGrants.grant trace.1 trace.2 inp := rfl
  have handed : (trace.step inp).2.handed =
      trace.2.handed ++ if inp.taskReadyI then trace.1.offer else [] := rfl
  have offered := trace.1.offer_step inp
  rw [granted, handed, founded.grant_eq, founded.balanced, List.append_assoc, List.append_assoc,
    ← offered]
  rfl

theorem step (inp : MpqEngineIn) : (trace.step inp).Founded where
  supplied := founded.supplied.step inp
  stored i := by
    have stored : (trace.step inp).1.mpqMetaMem.sram i = _ := MpqEngine.sram_step trace.1 inp i
    rw [stored, founded.stored]
    rfl
  balanced := founded.balanced_step inp

theorem keeps : trace.KeepsHandshake where
  balanced := founded.balanced
  founded inp sends := by
    have requested := MpqEngine.requests_of_sent founded.supplied.held sends
    exact ⟨requested, (trace.1.step inp).newTask, by rw [founded.grant_eq, if_pos sends]⟩
  stable inp valid refused := by
    have busy : trace.1.stateQ ≠ .idle := by
      intro idle
      simp [MpqEngine.taskValidO, idle] at valid
    obtain ⟨-, next⟩ := trace.1.stalls_of_not_ready inp busy refused
    have stalled : (trace.1.step inp).stateQ = .stalled := next
    constructor
    · simp [MpqEngine.taskValidO, stalled]
    · rw [MpqEngine.taskO, stalled]
      rfl
  persistent inp i requesting waits := founded.supplied.requests_until_granted requesting waits

end Founded

theorem founded_run (cells : Nat → MpqPkt) (metas : params.Idx → MpqMeta)
    (inputs : List MpqEngineIn) : Founded ((mpqHandover params cells metas).run inputs) :=
  ((mpqHandover params cells metas).admits_true inputs).invariant Founded
    (founded_reset cells metas) fun _ inp founded _ => founded.step inp

/-- What is granted is never revoked. -/
theorem granted_prefix_run (cells : Nat → MpqPkt) (metas : params.Idx → MpqMeta)
    (inputs later : List MpqEngineIn) :
    ((mpqHandover params cells metas).run inputs).2.granted <+:
      ((mpqHandover params cells metas).run (inputs ++ later)).2.granted := by
  induction later using List.reverseRecOn with
  | nil => rw [List.append_nil]
  | append_singleton later inp inductionHypothesis =>
    rw [← List.append_assoc, Machine.run_concat]
    exact inductionHypothesis.trans (List.prefix_append _ _)

theorem handsOver_run (cells : Nat → MpqPkt) (metas : params.Idx → MpqMeta)
    (inputs : List MpqEngineIn) : HandsOver (mpqHandover params cells metas) inputs := by
  intro later ready
  induction later using List.reverseRecOn with
  | nil => simp at ready
  | append_singleton later inp inductionHypothesis =>
    have handed : ((mpqHandover params cells metas).run (inputs ++ later ++ [inp])).2.handed =
        ((mpqHandover params cells metas).run (inputs ++ later)).2.handed ++
          if inp.taskReadyI then ((mpqHandover params cells metas).run (inputs ++ later)).1.offer
          else [] := by
      rw [Machine.run_concat]
      rfl
    rw [← List.append_assoc, handed]
    cases now : inp.taskReadyI with
    | true =>
      -- the offer goes out now, and with it everything granted so far
      have balanced := (founded_run cells metas (inputs ++ later)).balanced
      rw [if_pos rfl, ← balanced]
      exact granted_prefix_run cells metas inputs later
    | false =>
      have before : ∃ inp ∈ later, inp.taskReadyI = true := by
        simpa [now] using ready
      exact (inductionHypothesis before).trans (List.prefix_append _ _)

end MpqHandover

/-- Output handshake: whatever stalls, HERs and feedbacks come, each grant of an MPQ becomes one
    task handed out, built from its first packet, its metadata and its state at the grant; an
    offer stays until it is taken and a request until it is granted. -/
theorem mpqEngine_hands_over (params : MpqEngineParams) (cells : Nat → MpqPkt)
    (metas : params.Idx → MpqMeta) (inputs : List MpqEngineIn) :
    ((mpqHandover params cells metas).run inputs).KeepsHandshake ∧
      MpqHandover.HandsOver (mpqHandover params cells metas) inputs :=
  ⟨(MpqHandover.founded_run cells metas inputs).keeps, MpqHandover.handsOver_run cells metas inputs⟩

end Pspin
