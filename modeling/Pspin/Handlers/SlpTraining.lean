import Pspin.Handlers.SlpL1

/-! # Training with readers and writers apart

What the handlers of `slp_l1` compute in runs in which no handler predicts while another one
updates: the lock still keeps the writers from each other.
-/

namespace Pspin

open Clocked

namespace SlpRun

variable {vectorLen : Nat} {Core : Type} {run run' : SlpRun vectorLen Core} {log log' : SlpLog vectorLen}
  {initial : Weights vectorLen} {core : Core} {position : SlpPos vectorLen}

/-- What is true where a core is, of the weights and of those that the updates left. -/
def At (weights committed : Weights vectorLen) : SlpPos vectorLen → Prop
  | .dot k sum sample _ => sum = ∑ j with j < k, sample.factor j * committed j
  | .rUnlock sum sample _ => sum = sample.dotOf committed
  | .load k e sample _ =>
    ∀ j, weights j = if j < k then sample.fit e j (committed j) else committed j
  | .store k loaded e sample _ => loaded = weights k ∧
    ∀ j, weights j = if j < k then sample.fit e j (committed j) else committed j
  | .wUnlock e sample _ => ∀ j, weights j = sample.fit e j (committed j)
  | _ => True

/-- Nothing is known where a core neither predicts nor updates. -/
theorem at_of_outside {weights committed : Weights vectorLen} (noUpdate : ¬position.Updates)
    (noPrediction : ¬position.Predicts) : At weights committed position := by
  cases position <;> simp_all [At, SlpPos.Updates, SlpPos.Predicts]

/-- A core that asks for the lock to read waits for it, or has summed nothing yet. -/
theorem at_of_asked {weights committed : Weights vectorLen} {sample : Sample vectorLen} {rest : List (Sample vectorLen)}
    (asked : position = .rWait sample rest ∨ position = .dot 0 0 sample rest) :
    ¬position.Updates ∧ At weights committed position := by
  rcases asked with rfl | rfl
  · exact ⟨id, trivial⟩
  · refine ⟨id, ?_⟩
    rw [At, Finset.filter_false_of_mem fun j _ => Fin.not_lt_zero j, Finset.sum_empty]

/-- A packet starts with neither a prediction nor an update. -/
theorem slpL1Ph_outside (pkt : ByteMem) :
    ¬(SlpPos.slpL1Ph vectorLen pkt).Updates ∧ ¬(SlpPos.slpL1Ph vectorLen pkt).Predicts := by
  rw [SlpPos.slpL1Ph]
  split
  · cases slpSamples vectorLen pkt <;> exact ⟨id, id⟩
  · exact ⟨id, id⟩

structure Inv (initial : Weights vectorLen) (run : SlpRun vectorLen Core) (log : SlpLog vectorLen) :
    Prop where
  alone : ∀ {core other}, (run.thread core).Updates → other ≠ core →
    ¬(run.thread other).Updates ∧ ¬(run.thread other).Predicts
  locked : ∀ {core}, (run.thread core).Updates → run.shared.rwlock.glock ≠ 0
  progress : ∀ core, At run.shared.weights (applyAll initial log.updates) (run.thread core)
  applied : (∀ core, ¬(run.thread core).Updates) →
    run.shared.weights = applyAll initial log.updates
  whole : ∀ prediction ∈ log.predictions, ∃ count ≤ log.updates.length,
    prediction.2 = prediction.1.dotOf (applyAll initial (log.updates.take count))

namespace Inv

/-- While somebody predicts, the weights are those that the updates left. -/
theorem weights_of_predicts (inv : Inv initial run log) (predicts : (run.thread core).Predicts) :
    (∀ other, ¬(run.thread other).Updates) ∧
      run.shared.weights = applyAll initial log.updates := by
  have none : ∀ other, ¬(run.thread other).Updates := by
    intro other updates
    by_cases self : other = core
    · subst self
      cases position : run.thread other <;> simp_all [SlpPos.Updates, SlpPos.Predicts]
    · exact (inv.alone updates (Ne.symm self)).2 predicts
  exact ⟨none, inv.applied none⟩

variable [DecidableEq Core]

/-- A step of a core, in what it does to the weights, the lock and the log. -/
theorem of_update (inv : Inv initial run log)
    (thread : run'.thread = Function.update run.thread core position)
    (updates : position.Updates → ∀ other, other ≠ core →
      ¬(run.thread other).Updates ∧ ¬(run.thread other).Predicts)
    (predicts : position.Predicts → ∀ other, other ≠ core → ¬(run.thread other).Updates)
    (locked : position.Updates ∨ (∃ other, other ≠ core ∧ (run.thread other).Updates) →
      run'.shared.rwlock.glock ≠ 0)
    (others : (run'.shared.weights = run.shared.weights ∧ log'.updates = log.updates) ∨
      ∀ other, other ≠ core → ¬(run.thread other).Updates ∧ ¬(run.thread other).Predicts)
    (progress : At run'.shared.weights (applyAll initial log'.updates) position)
    (applied : ¬position.Updates → (∀ other, other ≠ core → ¬(run.thread other).Updates) →
      run'.shared.weights = applyAll initial log'.updates)
    (whole : ∀ prediction ∈ log'.predictions, ∃ count ≤ log'.updates.length,
      prediction.2 = prediction.1.dotOf (applyAll initial (log'.updates.take count))) :
    Inv initial run' log' where
  alone := by
    intro one other updating ne
    -- which of the two cores is the one that steps
    rw [thread, Function.update_apply] at updating ⊢
    split at updating
    next first =>
      subst first
      rw [if_neg ne]
      exact updates updating other ne
    next first =>
      split
      next second =>
        subst second
        refine ⟨fun mine => (updates mine one first).1 updating, fun mine => ?_⟩
        exact predicts mine one first updating
      next => exact inv.alone updating ne
  locked := by
    intro one updating
    rw [thread, Function.update_apply] at updating
    split at updating
    next => exact locked (.inl updating)
    next first => exact locked (.inr ⟨one, first, updating⟩)
  progress := by
    intro one
    rw [thread, Function.update_apply]
    split
    · exact progress
    next apart =>
      rcases others with ⟨weights, committed⟩ | outside
      · rw [weights, committed]
        exact inv.progress one
      · exact at_of_outside (outside one apart).1 (outside one apart).2
  applied := by
    intro none
    rw [thread] at none
    refine applied ?_ fun other ne => ?_
    · have mine := none core
      rwa [Function.update_self] at mine
    · have theirs := none other
      rwa [Function.update_of_ne ne] at theirs
  whole := whole

/-- A step that neither is part of an update nor starts one. -/
theorem of_reader (inv : Inv initial run log)
    (thread : run'.thread = Function.update run.thread core position)
    (weights : run'.shared.weights = run.shared.weights) (committed : log'.updates = log.updates)
    (noUpdate : ¬position.Updates) (wasNone : ¬(run.thread core).Updates)
    (predicts : position.Predicts → ∀ other, other ≠ core → ¬(run.thread other).Updates)
    (glock : run'.shared.rwlock.glock ≠ 0 ∨ run'.shared.rwlock.glock = run.shared.rwlock.glock ∨
      ∀ other, ¬(run.thread other).Updates)
    (progress : At run.shared.weights (applyAll initial log.updates) position)
    (whole : ∀ prediction ∈ log'.predictions, prediction ∉ log.predictions →
      prediction.2 = prediction.1.dotOf (applyAll initial log.updates)) :
    Inv initial run' log' := by
  refine inv.of_update thread (fun mine => absurd mine noUpdate) predicts ?_
    (.inl ⟨weights, committed⟩) ?_ ?_ ?_
  · rintro (mine | ⟨other, -, updating⟩)
    · exact absurd mine noUpdate
    · rcases glock with held | same | none
      · exact held
      · rw [same]
        exact inv.locked updating
      · exact absurd updating (none other)
  · rw [weights, committed]
    exact progress
  · intro _ none
    rw [weights, committed]
    refine inv.applied fun other => ?_
    by_cases self : other = core
    · rw [self]
      exact wasNone
    · exact none other self
  · intro prediction among
    rw [committed]
    -- a new prediction was made from all the updates so far
    by_cases was : prediction ∈ log.predictions
    · exact inv.whole prediction was
    · refine ⟨log.updates.length, le_refl _, ?_⟩
      rw [List.take_length]
      exact whole prediction among was

section Steps

variable {sample : Sample vectorLen} {rest : List (Sample vectorLen)} {sum e loaded : Word} {k : WeightId vectorLen}

/-- `spin_rw_lock_r_lock` counts a reader while nobody updates. -/
theorem rLock (inv : Inv initial run log) (here : run.thread core = .rLock sample rest)
    (apart : ∀ other, ¬(run.thread other).Updates) (noUpdate : ¬position.Updates)
    (numReaders : Word)
    (progress : At run.shared.weights (applyAll initial log.updates) position) :
    Inv initial ⟨{ run.shared with rwlock := { run.shared.rwlock with numReaders } },
      Function.update run.thread core position⟩ log :=
  inv.of_reader rfl rfl rfl noUpdate (by rw [here]; exact id) (fun _ other _ => apart other)
    (.inr (.inl rfl)) progress fun _ among new => absurd among new

/-- A reader does something to the lock or the position, while it is one. -/
theorem reader (inv : Inv initial run log) (was : (run.thread core).Predicts)
    (noUpdate : ¬position.Updates) (rwlock : RwLock)
    (progress : At run.shared.weights (applyAll initial log.updates) position) :
    Inv initial ⟨{ run.shared with rwlock }, Function.update run.thread core position⟩ log := by
  have none := (inv.weights_of_predicts was).1
  exact inv.of_reader rfl rfl rfl noUpdate (none core) (fun _ other _ => none other)
    (.inr (.inr none)) progress fun _ among new => absurd among new

/-- A prediction is finished. -/
theorem rUnlock (inv : Inv initial run log) (here : run.thread core = .rUnlock sum sample rest)
    (noUpdate : ¬position.Updates) (rwlock : RwLock)
    (progress : At run.shared.weights (applyAll initial log.updates) position) :
    Inv initial ⟨{ run.shared with rwlock }, Function.update run.thread core position⟩
      { log with predictions := log.predictions ++ [(sample, sum)] } := by
  have predicts : (run.thread core).Predicts := by
    rw [here]
    trivial
  have none := (inv.weights_of_predicts predicts).1
  refine inv.of_reader rfl rfl rfl noUpdate (none core) (fun _ other _ => none other)
    (.inr (.inr none)) progress fun prediction among new => ?_
  rcases List.mem_append.mp among with was | now
  · exact absurd was new
  · obtain rfl := List.mem_singleton.mp now
    have read := inv.progress core
    rwa [here] at read

/-- One more weight goes into the sum. -/
theorem dot (inv : Inv initial run log) (here : run.thread core = .dot k sum sample rest) :
    Inv initial ⟨run.shared, Function.update run.thread core
      (nextTurn k (fun next => .dot next (sum + sample.factor k * run.shared.weights k) sample rest)
        (.rUnlock (sum + sample.factor k * run.shared.weights k) sample rest))⟩ log := by
  have predicts : (run.thread core).Predicts := by
    rw [here]
    trivial
  have weights := (inv.weights_of_predicts predicts).2
  have read := inv.progress core
  rw [here] at read
  have partialSum : sum = _ := read
  by_cases inside : k.val + 1 < vectorLen + 1
  · rw [nextTurn_turn inside]
    refine inv.reader predicts id run.shared.rwlock ?_
    rw [At, sum_lt_next _ inside, ← partialSum, weights]
  · rw [nextTurn_exit inside]
    refine inv.reader predicts id run.shared.rwlock ?_
    rw [At, Sample.dotOf, sum_lt_last _ inside, ← partialSum, weights]

/-- The lock is taken to write while nobody predicts. -/
theorem wLock (inv : Inv initial run log) (free : run.shared.rwlock.glock = 0)
    (apart : ∀ other, ¬(run.thread other).Predicts) {rwlock : RwLock} (taken : rwlock.glock ≠ 0) :
    Inv initial ⟨{ run.shared with rwlock }, Function.update run.thread core (.load 0 e sample rest)⟩
      log := by
  have none : ∀ other, ¬(run.thread other).Updates := fun other updating =>
    inv.locked updating free
  refine inv.of_update rfl (fun _ other _ => ⟨none other, apart other⟩) (fun predicts => predicts.elim)
    (fun _ => taken) (.inl ⟨rfl, rfl⟩) ?_ (fun notMine => absurd trivial notMine) inv.whole
  intro j
  rw [if_neg (Fin.not_lt_zero j)]
  exact congrFun (inv.applied none) j

/-- A weight is loaded to be updated. -/
theorem load (inv : Inv initial run log) (here : run.thread core = .load k e sample rest) :
    Inv initial ⟨run.shared, Function.update run.thread core
      (.store k (run.shared.weights k) e sample rest)⟩ log := by
  have updating : (run.thread core).Updates := by
    rw [here]
    trivial
  have progress := inv.progress core
  rw [here] at progress
  exact inv.of_update rfl (fun _ _ => inv.alone updating) (fun predicts => predicts.elim)
    (fun _ => inv.locked updating) (.inl ⟨rfl, rfl⟩) ⟨rfl, progress⟩
    (fun notMine => absurd trivial notMine) inv.whole

/-- A weight is stored. -/
theorem store (inv : Inv initial run log) (here : run.thread core = .store k loaded e sample rest) :
    Inv initial ⟨{ run.shared with
        weights := Function.update run.shared.weights k (sample.fit e k loaded) },
      Function.update run.thread core (nextTurn k (fun next => .load next e sample rest)
        (.wUnlock e sample rest))⟩ log := by
  have updating : (run.thread core).Updates := by
    rw [here]
    trivial
  have progress := inv.progress core
  rw [here] at progress
  obtain ⟨rfl, stored⟩ := progress
  -- the weights up to this one are updated, the others are not
  have stored' : ∀ j, Function.update run.shared.weights k (sample.fit e k (run.shared.weights k)) j =
      if j = k ∨ j < k then sample.fit e j (applyAll initial log.updates j)
      else applyAll initial log.updates j := by
    intro j
    by_cases this : j = k
    · subst this
      rw [Function.update_self, stored j, if_neg (lt_irrefl j), if_pos (.inl rfl)]
    · rw [Function.update_of_ne this, stored j]
      simp only [this, false_or]
  by_cases inside : k.val + 1 < vectorLen + 1
  · rw [nextTurn_turn inside]
    refine inv.of_update rfl (fun _ _ => inv.alone updating) (fun predicts => predicts.elim)
      (fun _ => inv.locked updating) (.inr fun _ => inv.alone updating) (fun j => ?_)
      (fun notMine => absurd trivial notMine) inv.whole
    simp only [lt_next_iff inside]
    exact stored' j
  · rw [nextTurn_exit inside]
    refine inv.of_update rfl (fun _ _ => inv.alone updating) (fun predicts => predicts.elim)
      (fun _ => inv.locked updating) (.inr fun _ => inv.alone updating) (fun j => ?_)
      (fun notMine => absurd trivial notMine) inv.whole
    exact (stored' j).trans (if_pos (eq_or_lt_last inside j))

/-- An update is finished. -/
theorem wUnlock (inv : Inv initial run log) (here : run.thread core = .wUnlock e sample rest)
    (rwlock : RwLock) :
    Inv initial ⟨{ run.shared with rwlock }, Function.update run.thread core (SlpPos.fitBatch rest)⟩
      { log with updates := log.updates ++ [(sample, e)] } := by
  have updating : (run.thread core).Updates := by
    rw [here]
    trivial
  -- the last weight has been stored: the update joins those that were made
  have progress := inv.progress core
  rw [here] at progress
  have noUpdate : ¬(SlpPos.fitBatch rest).Updates := by cases rest <;> exact id
  have noPrediction : ¬(SlpPos.fitBatch rest).Predicts := by cases rest <;> exact id
  refine inv.of_update rfl (fun mine => absurd mine noUpdate) (fun mine => absurd mine noPrediction)
    ?_ (.inr fun _ => inv.alone updating) (at_of_outside noUpdate noPrediction) ?_ ?_
  · rintro (mine | ⟨other, apart, updates⟩)
    · exact absurd mine noUpdate
    · exact absurd updates (inv.alone updating apart).1
  · intro _ _
    funext j
    rw [applyAll_concat]
    exact progress j
  · intro prediction among
    obtain ⟨count, upTo, sum⟩ := inv.whole prediction among
    refine ⟨count, ?_, ?_⟩
    · rw [List.length_append]
      omega
    · rw [List.take_append_of_le_length upTo]
      exact sum

end Steps

/-- One step of a core, when readers and writers keep apart. -/
theorem step (inv : Inv initial run log) (pkt : ByteMem) (apart : run.Apart (core, pkt)) :
    Inv initial
      ⟨((run.thread core).act run.shared pkt).2,
        Function.update run.thread core ((run.thread core).act run.shared pkt).1⟩
      (run.record log (core, pkt)) := by
  rw [Apart] at apart
  rw [record]
  cases here : run.thread core with
  | idle =>
    obtain ⟨noUpdate, noPrediction⟩ := slpL1Ph_outside pkt
    exact inv.of_reader rfl rfl rfl noUpdate (by rw [here]; exact id)
      (fun predicts => absurd predicts noPrediction) (.inr (.inl rfl))
      (at_of_outside noUpdate noPrediction) fun _ among new => absurd among new
  | rLock sample rest =>
    rw [here] at apart
    have entered : ((SlpPos.rLock sample rest).act run.shared pkt).1 = .rWait sample rest ∨
        ((SlpPos.rLock sample rest).act run.shared pkt).1 = .dot 0 0 sample rest :=
      ite_eq_or_eq _ _ _
    obtain ⟨noUpdate, nothing⟩ := at_of_asked entered
    exact inv.rLock here apart noUpdate _ nothing
  | rWait sample rest =>
    have entered : ((SlpPos.rWait sample rest).act run.shared pkt).1 = .rWait sample rest ∨
        ((SlpPos.rWait sample rest).act run.shared pkt).1 = .dot 0 0 sample rest :=
      ite_eq_or_eq _ _ _
    obtain ⟨noUpdate, nothing⟩ := at_of_asked entered
    exact inv.reader (by rw [here]; trivial) noUpdate _ nothing
  | dot k sum sample rest => exact inv.dot here
  | rUnlock sum sample rest =>
    have left : ((SlpPos.rUnlock sum sample rest).act run.shared pkt).1 = .rRelease sum sample rest ∨
        ((SlpPos.rUnlock sum sample rest).act run.shared pkt).1 =
          .wLock (sample.error sum) sample rest := ite_eq_or_eq _ _ _
    refine inv.rUnlock here ?_ _ ?_
    · rcases left with releases | writes
      · rw [releases]
        exact id
      · rw [writes]
        exact id
    · rcases left with releases | writes
      · rw [releases]
        trivial
      · rw [writes]
        trivial
  | rRelease sum sample rest => exact inv.reader (by rw [here]; trivial) id _ trivial
  | wLock e sample rest =>
    rw [here] at apart
    -- nobody updates while the futex is free
    by_cases free : run.shared.rwlock.glock = 0
    · rw [SlpPos.act, spinGlock_free free]
      exact inv.wLock free (apart free) (futexTryLock_ne_zero _)
    · rw [SlpPos.act, spinGlock_taken free]
      exact inv.of_reader rfl rfl rfl id (by rw [here]; exact id) (fun predicts => predicts.elim)
        (.inl (futexTryLock_ne_zero _)) trivial fun _ among new => absurd among new
  | load k e sample rest => exact inv.load here
  | store k loaded e sample rest => exact inv.store here
  | wUnlock e sample rest => exact inv.wUnlock here _

theorem reset (rwlock : RwLock) :
    Inv initial (slpFit vectorLen Core initial rwlock).reset.1
      (slpFit vectorLen Core initial rwlock).reset.2 where
  alone := fun updates => updates.elim
  locked := fun updates => updates.elim
  progress := fun _ => trivial
  applied := fun _ => rfl
  whole := by
    intro prediction among
    cases among

end Inv

end SlpRun

/-- A frame of one sample whose inputs are 1 and whose result is 0. -/
def oneSample : ByteMem :=
  (UdpPkt.ofPayload ([0, 0, 0, 0, 1, 0, 0, 0] ++ (List.replicate 8 [1, 0, 0, 0]).flatten ++
    [0, 0, 0, 0]) (by decide)).mem

/-- The next accesses of a core. -/
def accesses {Core : Type} (core : Core) (count : Nat) : List (Core × ByteMem) :=
  List.replicate count (core, oneSample)

end Pspin
