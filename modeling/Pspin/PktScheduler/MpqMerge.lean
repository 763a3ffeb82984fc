import Pspin.PktScheduler.MpqEngine

/-! # Merging the three updates of a cycle

A new HER, a task sent and a feedback each name an MPQ, and three copies of `mpq_fsm` compute
the next state of the one they name.  Where they name the same one every copy sees all of its
events, so that it does not matter which result is written last.
-/

namespace Pspin

/-- The events of a cycle, each with the MPQ it is about.  What an index is without its event does
    not matter. -/
structure MpqEvents (params : MpqEngineParams) where
  herNew : Bool
  newherMpqIdx : params.Idx
  taskSent : Bool
  tasksentMpqIdx : params.Idx
  feedback : Bool
  feedbackMpqIdx : params.Idx
  herNewHasHh : Bool
  herNewHasTh : Bool
  herNewIsEom : Bool

namespace MpqEvents

variable {params : MpqEngineParams} (events : MpqEvents params) (mpqQ : params.Idx → Mpq)

def fsmIn (herNewI taskSentI feedbackI : Bool) : MpqFsmIn where
  herNewI := herNewI
  taskSentI := taskSentI
  feedbackI := feedbackI
  herNewHasHhI := events.herNewHasHh
  herNewHasThI := events.herNewHasTh
  herNewIsEomI := events.herNewIsEom

/-! ## The three copies -/

def newherMpqFsm : MpqFsmIn :=
  events.fsmIn events.herNew
    (events.taskSent && decide (events.tasksentMpqIdx = events.newherMpqIdx))
    (events.feedback && decide (events.feedbackMpqIdx = events.newherMpqIdx))

def tasksentMpqFsm : MpqFsmIn :=
  events.fsmIn (events.herNew && decide (events.newherMpqIdx = events.tasksentMpqIdx))
    events.taskSent
    (events.feedback && decide (events.feedbackMpqIdx = events.tasksentMpqIdx))

def feedbackMpqFsm : MpqFsmIn :=
  events.fsmIn (events.herNew && decide (events.newherMpqIdx = events.feedbackMpqIdx))
    (events.taskSent && decide (events.feedbackMpqIdx = events.tasksentMpqIdx))
    events.feedback

def writeBack (event : MpqFsmIn) (idx : params.Idx) (mpqD : params.Idx → Mpq) : params.Idx → Mpq :=
  if MpqFsm.updateO event then Function.update mpqD idx (MpqFsm.mpqO event (mpqQ idx)) else mpqD

/-- `mpq_d`, the results written one after another. -/
def merged : params.Idx → Mpq :=
  writeBack mpqQ events.feedbackMpqFsm events.feedbackMpqIdx
    (writeBack mpqQ events.tasksentMpqFsm events.tasksentMpqIdx
      (writeBack mpqQ events.newherMpqFsm events.newherMpqIdx mpqQ))

/-! ## One step for each MPQ -/

/-- The events that are about an MPQ. -/
def addressedTo (i : params.Idx) : MpqFsmIn :=
  events.fsmIn (events.herNew && decide (events.newherMpqIdx = i))
    (events.taskSent && decide (events.tasksentMpqIdx = i))
    (events.feedback && decide (events.feedbackMpqIdx = i))

/-- An event is about an MPQ. -/
def Names (i : params.Idx) : Prop :=
  (events.herNew = true ∧ events.newherMpqIdx = i) ∨
    (events.taskSent = true ∧ events.tasksentMpqIdx = i) ∨
    (events.feedback = true ∧ events.feedbackMpqIdx = i)

instance (i : params.Idx) : Decidable (events.Names i) := inferInstanceAs (Decidable (_ ∨ _ ∨ _))

/-- Each MPQ that an event is about takes one step with all of its events. -/
def combined (i : params.Idx) : Mpq :=
  if events.Names i then MpqFsm.mpqO (events.addressedTo i) (mpqQ i) else mpqQ i

variable {mpqQ}

theorem updateO_addressedTo (i : params.Idx) :
    MpqFsm.updateO (events.addressedTo i) = true ↔ events.Names i := by
  simp only [Names, MpqFsm.updateO, addressedTo, fsmIn, Bool.or_eq_true, Bool.and_eq_true,
    decide_eq_true_eq, or_assoc]

theorem writeBack_apply (idx i : params.Idx) (mpqD : params.Idx → Mpq) :
    writeBack mpqQ (events.addressedTo idx) idx mpqD i =
      if i = idx ∧ events.Names i
      then MpqFsm.mpqO (events.addressedTo i) (mpqQ i) else mpqD i := by
  by_cases same : i = idx
  · subst same
    rw [writeBack]
    by_cases named : events.Names i
    · simp [named, events.updateO_addressedTo]
    · simp [named, events.updateO_addressedTo]
  · unfold writeBack
    split <;> simp [same]

/-- Every copy sees all the events of its MPQ. -/
theorem fsms_eq : events.newherMpqFsm = events.addressedTo events.newherMpqIdx ∧
    events.tasksentMpqFsm = events.addressedTo events.tasksentMpqIdx ∧
    events.feedbackMpqFsm = events.addressedTo events.feedbackMpqIdx := by
  refine ⟨?_, ?_, ?_⟩
  · simp [newherMpqFsm, addressedTo]
  · simp [tasksentMpqFsm, addressedTo]
  · simp [feedbackMpqFsm, addressedTo, eq_comm]

theorem merged_eq (mpqQ : params.Idx → Mpq) : events.merged mpqQ = events.combined mpqQ := by
  obtain ⟨newher, tasksent, feedback⟩ := events.fsms_eq
  funext i
  rw [merged, newher, tasksent, feedback, writeBack_apply, writeBack_apply, writeBack_apply, combined]
  by_cases named : events.Names i
  · have here : i = events.newherMpqIdx ∨ i = events.tasksentMpqIdx ∨ i = events.feedbackMpqIdx := by
      rcases named with ⟨-, her⟩ | ⟨-, task⟩ | ⟨-, feedback⟩
      · exact .inl her.symm
      · exact .inr (.inl task.symm)
      · exact .inr (.inr feedback.symm)
    rcases here with here | here | here <;> simp [named, ← here]
  · simp [named]

end MpqEvents

/-! ## The engine's update -/

namespace MpqEngine

variable {params : MpqEngineParams} (engine : MpqEngine params) (inp : MpqEngineIn)

def events : MpqEvents params where
  herNew := engine.herNew inp
  newherMpqIdx := newherMpqIdx inp
  taskSent := engine.taskSent inp
  tasksentMpqIdx := engine.tasksentMpqIdx
  feedback := feedbackTaken inp
  feedbackMpqIdx := feedbackMpqIdx inp
  herNewHasHh := decide (inp.herI.mpqMeta.hhAddr ≠ 0)
  herNewHasTh := decide (inp.herI.mpqMeta.thAddr ≠ 0)
  herNewIsEom := inp.herI.eom

theorem mpqD_eq_merged : engine.mpqD inp = (engine.events inp).merged engine.mpqQ := rfl

end MpqEngine

/-- For all states of the MPQs and all events, present or not, at whatever MPQs: the merged update
    gives each MPQ that an event names one step with exactly the events that name it, and leaves
    the others as they are.  The engine's update is that one. -/
theorem mpq_updates_agree {params : MpqEngineParams} :
    (∀ (events : MpqEvents params) (mpqQ : params.Idx → Mpq) (i : params.Idx),
      events.merged mpqQ i =
        if events.Names i then MpqFsm.mpqO (events.addressedTo i) (mpqQ i) else mpqQ i) ∧
      ∀ (engine : MpqEngine params) (inp : MpqEngineIn),
        engine.mpqD inp = (engine.events inp).merged engine.mpqQ := by
  refine ⟨fun events mpqQ i => ?_, fun engine inp => engine.mpqD_eq_merged inp⟩
  rw [events.merged_eq]
  rfl

end Pspin
