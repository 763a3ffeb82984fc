import Pspin.Ooorb.LazylistLinks

/-! # No integer is lost, as long as the first node stays the first

`lazylist_pop_front` stores the link of the left sentinel without a look at what it is by
then, and `lazylist_put_free_node` makes a node free that others may still hold.  In the runs
in which neither does harm, every integer that was put in is in the list or has been taken
by one call.
-/

namespace Pspin

open Clocked Lazylist

namespace LazylistPc

/-- It takes the first of the free nodes, whether there is one or not. -/
def takesFree : LazylistPc → Bool
  | .inserting _ _ _ .getHead => true
  | _ => false

/-- The node after which it links the left sentinel. -/
def takesFront : LazylistPc → Option Nat
  | .popping _ front _ (.store _) => some front
  | _ => none

/-- The node that it makes the first of the free ones. -/
def frees : LazylistPc → Option Nat
  | .putting _ _ freedNode (.next _) => some freedNode
  | _ => none

end LazylistPc

variable {Core : Type}

/-- Ranges are inserted that have nothing in common, and there are enough nodes. -/
def LazylistOffers (state : LazylistState Core) (input : Core × LazylistCall) : Prop :=
  (∀ range ∈ (state.1.thread input.1).requests input.2,
    Insertable range ∧ ∀ other ∈ state.2.requested, range.Apart other) ∧
  ((state.1.thread input.1).takesFree = true → state.1.shared.freeHeadIdx ≠ eol)

instance (state : LazylistState Core) (input : Core × LazylistCall) :
    Decidable (LazylistOffers state input) :=
  inferInstanceAs (Decidable (_ ∧ _))

/-- The node that is taken off the list still is the first one, and a node is made free only
    when no other core can come across it any more. -/
def LazylistCareful (state : LazylistState Core) (input : Core × LazylistCall) : Prop :=
  (∀ front ∈ (state.1.thread input.1).takesFront,
    state.1.shared.next state.1.shared.headIdx = front) ∧
  ∀ node ∈ (state.1.thread input.1).frees, ∀ other, other ≠ input.1 →
    ∀ i ∈ (state.1.thread other).held (numSegments - 1),
      ¬Reaches state.1.shared.next (numSegments - 1) i node

/-- Every integer that was put in is in the list or was taken out, by one call; what was taken
    is returned once. -/
structure LazylistConserved (state : LazylistState Core) : Prop where
  requested : ∀ range ∈ state.2.inserted, range ∈ state.2.requested
  completed : ∀ range ∈ state.2.completed, range ∈ state.2.inserted
  conserved : ∀ x, x ∈ covers state.2.inserted ↔
    x ∈ state.1.shared.denotes ∨ x ∈ covers state.2.taken
  apart : ∀ x ∈ state.1.shared.denotes, x ∉ covers state.2.taken
  once : (∀ core, (state.1.thread core).merges = none) →
    (state.1.shared.active.map state.1.shared.range).Pairwise Interval.Apart
  takenOnce : state.2.taken.Pairwise Interval.Apart
  handed : ∀ range ∈ state.2.taken,
    range ∈ state.2.returned ∨ ∃ core, (state.1.thread core).carried = some range
  returned : ∀ range ∈ state.2.returned, range ∈ state.2.taken
  returnedOnce : state.2.returned.Pairwise Interval.Apart

/-! ## One step -/

section Step

variable [DecidableEq Core] {state : LazylistState Core} {core : Core} {call : LazylistCall}
  {n : Nat} {path free : List Nat}

theorem LazylistInvariant.step_inserting {range : LazylistRange} {pred curr : Nat}
    {stage : InsertStage} (invariant : LazylistInvariant n state path free)
    (here : state.1.thread core = .inserting range pred curr stage)
    (room : (state.1.thread core).takesFree = true → state.1.shared.freeHeadIdx ≠ eol) :
    Coherent n ((lazylistThreads Core).step state (core, call)) := by
  cases stage with
  | predRight => exact invariant.step_predRight here
  | predLeft => exact invariant.step_predLeft here
  | currLeft connectsLeft => exact invariant.step_currLeft here
  | currMax connectsLeft => exact invariant.step_currMax here
  | mergeRight => exact invariant.step_mergeRight here
  | mergeStore right => exact invariant.step_mergeStore here
  | mergeMark => exact invariant.step_mergeMark here
  | mergeNext => exact invariant.step_mergeNext here
  | mergeLink nextIdx => exact invariant.step_mergeLink here
  | extendPred => exact invariant.step_extendPred here
  | extendCurr => exact invariant.step_extendCurr here
  | getLock => exact invariant.step_getLock here
  | getCheck => exact invariant.step_getCheck here
  -- only here a free node is taken, so that one must be left
  | getHead => exact invariant.step_getHead here (room (by rw [here]; rfl))
  | getNext freeNode => exact invariant.step_getNext here
  | getStore freeNode nextIdx => exact invariant.step_getStore here
  | getUnlock freeNode => exact invariant.step_getUnlock here
  | newLeft newNode => exact invariant.step_newLeft here
  | newRight newNode => exact invariant.step_newRight here
  | newMark newNode => exact invariant.step_newMark here
  | newLock newNode => exact invariant.step_newLock here
  | newNext newNode => exact invariant.step_newNext here
  | newLink newNode => exact invariant.step_newLink here

theorem Coherent.step (coherent : Coherent (numSegments - 2) state)
    (offers : LazylistOffers state (core, call)) (careful : LazylistCareful state (core, call)) :
    Coherent (numSegments - 2) ((lazylistThreads Core).step state (core, call)) := by
  obtain ⟨path, free, invariant⟩ := coherent
  obtain ⟨offered, room⟩ := offers
  obtain ⟨atFront, alone⟩ := careful
  cases here : state.1.thread core with
  | idle =>
    refine invariant.step_begin here fun range isInsert => offered range ?_
    subst isInsert
    rw [here]
    rfl
  | findRight range pred curr => exact invariant.step_findRight here
  | findNext range curr => exact invariant.step_findNext here
  | findLeft range pred curr => exact invariant.step_findLeft here
  | popHead rangeLeft => exact invariant.step_popHead here
  | popNext rangeLeft front => exact invariant.step_popNext here
  | popEmpty rangeLeft front frontNext => exact invariant.step_popEmpty here
  | popStart rangeLeft front frontNext => exact invariant.step_popStart here
  | lockPred call' pred curr => exact invariant.step_lockPred here
  | lockCurr call' pred curr => exact invariant.step_lockCurr here
  | validating call' pred curr stage =>
    cases stage with
    | pred => exact invariant.step_validatePred here
    | curr => exact invariant.step_validateCurr here
    | next => exact invariant.step_validateNext here
  | inserting range pred curr stage => exact invariant.step_inserting here room
  -- the node that is removed is the first one
  | popping rangeLeft front frontNext stage =>
    cases stage with
    | check => exact invariant.step_popCheck here
    | left => exact invariant.step_popLeft here
    | right start => exact invariant.step_popRight here
    | mark range => exact invariant.step_popMark here
    | store range => exact invariant.step_popStore here (atFront front (by rw [here]; rfl))
  | unlockCurr call' pred curr outcome => exact invariant.step_unlockCurr here
  | unlockPred call' pred outcome =>
    cases outcome with
    | retry => exact invariant.step_unlockPred_retry here
    | finish result toDelete =>
      cases toDelete with
      | none => exact invariant.step_unlockPred_finish here
      | some freedNode => exact invariant.step_unlockPred_put here
  | putting call' result freedNode stage =>
    cases stage with
    | lock => exact invariant.step_putLock here
    | head => exact invariant.step_putHead here
    -- no other core is at the node that goes back
    | next nextIdx => exact invariant.step_putNext here (alone freedNode (by rw [here]; rfl))
    | store => exact invariant.step_putStore here
    | unlock => exact invariant.step_putUnlock here

theorem Lazylist.Represents.shape {list : Lazylist} (represents : Represents n list path free) :
    Shape n list path free where
  small := represents.small
  head := represents.head
  idx := represents.idx
  sentinelLeft := represents.sentinelLeft
  sentinelRight := represents.sentinelRight
  ended := represents.ended
  linked := represents.linked
  linkedFree := represents.linkedFree
  nodup := represents.nodup
  below _ := represents.lt

/-- All nodes are free and nobody has done anything. -/
theorem coherent_reset : Coherent (numSegments - 2) (lazylistThreads Core).reset := by
  have represents : Represents (numSegments - 2) (zeroed.lazylistInit numSegments) []
      (List.range (numSegments - 2)) := lazylistInit_represents (by decide) (by decide) ⟨rfl, rfl⟩
  refine ⟨[], List.range (numSegments - 2), represents.shape, ?_, fun core => ?_, fun _ _ _ => ?_⟩
  · constructor <;> simp [lazylistThreads, Machine.observedBy]
  · refine ⟨trivial, (fun _ mine => by cases mine), (fun mine => by cases mine),
      (fun _ mine => by cases mine), ?_, (fun _ removed => by cases removed),
      (fun _ pending => by cases pending), fun _ carried => by cases carried⟩
    rintro i (isFresh | isRemoved)
    · cases isFresh
    · cases isRemoved
  · refine ⟨fun _ mine => (by cases mine), (fun mine => by cases mine), ?_,
      (fun _ _ pending => by cases pending), fun _ _ carried => by cases carried⟩
    rintro i (isFresh | isRemoved)
    · cases isFresh
    · cases isRemoved

end Step

/-! ## What is taken is returned -/

namespace LazylistPc

variable {pc : LazylistPc} {list : Lazylist} {call : LazylistCall} {range : LazylistRange}

theorem carried_of_takes (takes : pc.takes = some range) :
    (pc.act list call).1.carried = some range := by
  cases pc with
  | popping rangeLeft front frontNext stage =>
    cases stage with
    | store range => exact takes
    | _ => cases takes
  | _ => cases takes

/-- A range that was taken is carried until it is returned. -/
theorem carried_act (carried : pc.carried = some range) :
    (pc.act list call).1.carried = some range ∨
      ∃ call', pc.returns list = some (call', .popped (some range)) := by
  have result_eq : ∀ result : LazylistResult, result.popped? = some range →
      result = .popped (some range) := by
    rintro (error | popped) same
    · cases same
    · exact congrArg LazylistResult.popped same
  cases pc with
  | unlockCurr call' pred curr outcome => exact .inl carried
  | unlockPred call' pred outcome =>
    cases outcome with
    | retry => cases carried
    | finish result toDelete =>
      cases toDelete with
      | none => exact .inr ⟨call', by rw [← result_eq result carried]; rfl⟩
      | some freedNode => exact .inl carried
  | putting call' result freedNode stage =>
    cases stage with
    | lock =>
      -- the lock of the free list may be taken, and then it is tried again
      refine .inl ?_
      rw [act, actPut, lockFreeHead_eq]
      split <;> exact carried
    | head | next _ | store => exact .inl carried
    | unlock => exact .inr ⟨call', by rw [← result_eq result carried]; rfl⟩
  | _ => cases carried

end LazylistPc

/-- What was taken was returned, or a core is about to return it. -/
def LazylistHanded (state : LazylistState Core) : Prop :=
  ∀ range ∈ state.2.taken,
    range ∈ state.2.returned ∨ ∃ core, (state.1.thread core).carried = some range

theorem returned_of_record {history : LazylistHistory} {pc : LazylistPc} {list : Lazylist}
    {call : LazylistCall} {range : LazylistRange} (member : range ∈ history.returned ∨
      ∃ call', pc.returns list = some (call', .popped (some range))) :
    range ∈ (history.record pc list call).returned := by
  rw [LazylistHistory.record]
  obtain before | ⟨call', returns⟩ := member
  · cases result : pc.returns list with
    | none => exact before
    | some returned =>
      obtain ⟨call', result⟩ := returned
      obtain ⟨completed, returned, same, -, rfl⟩ := LazylistInvariant.recordReturn_eq
        { history with
          requested := history.requested ++ (pc.requests call).toList
          inserted := history.inserted ++ pc.inserts.toList
          taken := history.taken ++ pc.takes.toList }
      rw [same]
      exact List.mem_append_left _ before
  · rw [returns]
    cases call' <;> exact List.mem_append_right _ List.mem_cons_self

theorem taken_record {history : LazylistHistory} {pc : LazylistPc} {list : Lazylist}
    {call : LazylistCall} :
    (history.record pc list call).taken = history.taken ++ pc.takes.toList := by
  rw [LazylistHistory.record]
  cases pc.returns list with
  | none => rfl
  | some returned =>
    obtain ⟨call', result⟩ := returned
    obtain ⟨_, _, same, -, -⟩ := LazylistInvariant.recordReturn_eq
      { history with
        requested := history.requested ++ (pc.requests call).toList
        inserted := history.inserted ++ pc.inserts.toList
        taken := history.taken ++ pc.takes.toList }
    rw [same]

theorem LazylistHanded.step [DecidableEq Core] {state : LazylistState Core} {core : Core}
    {call : LazylistCall} (handed : LazylistHanded state) :
    LazylistHanded ((lazylistThreads Core).step state (core, call)) := by
  rw [LazylistInvariant.step_eq rfl]
  intro range member
  rw [taken_record] at member
  have self : ∀ pc, (Function.update state.1.thread core pc core).carried = pc.carried :=
    fun pc => congrArg LazylistPc.carried (Function.update_self core pc state.1.thread)
  have frame : ∀ pc other, other ≠ core →
      (Function.update state.1.thread core pc other).carried = (state.1.thread other).carried :=
    fun pc _ ne => congrArg LazylistPc.carried (Function.update_of_ne ne pc state.1.thread)
  -- a range was taken before or is taken by this access
  obtain before | now := List.mem_append.mp member
  · obtain returned | ⟨other, carried⟩ := handed range before
    · exact .inl (returned_of_record (.inl returned))
    · by_cases same : other = core
      · subst same
        obtain still | returns := LazylistPc.carried_act carried
        · exact .inr ⟨other, (self _).trans still⟩
        · exact .inl (returned_of_record (.inr returns))
      · exact .inr ⟨other, (frame _ other same).trans carried⟩
  · have takes := Option.mem_toList.mp now
    exact .inr ⟨core, (self _).trans (LazylistPc.carried_of_takes takes)⟩

/-! ## Runs -/

theorem Shape.active_eq {list : Lazylist} {path free : List Nat}
    (shape : Shape (numSegments - 2) list path free) : list.active = path := by
  have positive : 2 < numSegments := by decide
  have nodup := (List.nodup_append.mp (List.nodup_cons.mp shape.nodup).2).1
  have length : path.length ≤ (List.range (numSegments - 2)).length :=
    (nodup.subperm fun i member => List.mem_range.mpr (shape.lt_of_path member)).length_le
  rw [List.length_range] at length
  have notLast : numSegments - 1 ∉ path := fun member => by
    have below := shape.lt_of_path member
    omega
  obtain ⟨-, linked⟩ := shape.linked
  rw [active, shape.head]
  exact linked.walk_eq notLast (by omega)

theorem Coherent.conserved {state : LazylistState Core} (coherent : Coherent (numSegments - 2) state)
    (handed : LazylistHanded state) : LazylistConserved state := by
  obtain ⟨path, free, invariant⟩ := coherent
  have active := invariant.shape.active_eq
  have denotes : ∀ x, x ∈ state.1.shared.denotes ↔
      ∃ i ∈ path, x ∈ (state.1.shared.range i).toSet := by
    intro x
    rw [Lazylist.denotes, active]
    simp [covers]
  have account := invariant.account
  refine ⟨account.requested, account.completed, fun x => ?_, fun x inList => ?_, fun noMerge => ?_,
    account.takenOnce, handed, account.returned, account.returnedOnce⟩
  · rw [denotes]
    exact account.conserved x
  · obtain ⟨i, onPath, inNode⟩ := (denotes x).mp inList
    rintro ⟨range, taken, inTaken⟩
    exact (account.takenApart i onPath range taken).notMem inNode inTaken
  · have nodup := (List.nodup_append.mp (List.nodup_cons.mp invariant.shape.nodup).2).1
    -- only while a merge is under way two nodes of the list overlap
    have idle : ∀ i j, ¬Merging state.1.thread i j := by
      rintro i j ⟨core, merges⟩
      rw [noMerge core] at merges
      cases merges
    rw [active, List.pairwise_map]
    refine nodup.pairwise_of_forall_ne fun i onPath j onPath' ne => ?_
    obtain apart | merges | merges := account.apart i onPath j onPath' ne
    · exact apart
    · exact absurd merges (idle i j)
    · exact absurd merges (idle j i)

/-- In every run in which no step takes a node off the list that is no longer the first, or frees
    one that another core can still come across, no integer is lost and none is popped twice. -/
theorem lazylist_conserves {Core : Type} [DecidableEq Core] (schedule : List (Core × LazylistCall))
    (admitted : (lazylistThreads Core).Admits
      (fun state input => LazylistOffers state input ∧ LazylistCareful state input) schedule) :
    LazylistConserved ((lazylistThreads Core).run schedule) := by
  have both := admitted.invariant
    (fun state => Coherent (numSegments - 2) state ∧ LazylistHanded state)
    ⟨coherent_reset, fun _ member => absurd member List.not_mem_nil⟩
    fun state input kept rules => ⟨kept.1.step rules.1 rules.2, kept.2.step⟩
  exact both.1.conserved both.2

/-! ## Runs of two cores -/

/-- A core takes a number of steps; what it calls matters when it is idle. -/
def turnsOf (core : Fin 2) (call : LazylistCall) (turns : Nat) : List (Fin 2 × LazylistCall) :=
  List.replicate turns (core, call)

/-- The cores take turns. -/
def alternately (call call' : LazylistCall) (turns : Nat) : List (Fin 2 × LazylistCall) :=
  (List.replicate turns [(0, call), (1, call')]).flatten

/-- The cores insert ranges at the same time, so that the second one finds its place taken and looks
    again; then one core pops the first range while the other inserts another one and holds its
    locks. -/
def poppedSchedule : List (Fin 2 × LazylistCall) :=
  alternately (.insert ⟨10, 20⟩) (.insert ⟨30, 40⟩) 26 ++ turnsOf 1 (.insert ⟨30, 40⟩) 33 ++
    turnsOf 1 (.insert ⟨50, 60⟩) 8 ++ alternately (.popFront 10) (.insert ⟨50, 60⟩) 22 ++
      turnsOf 0 (.popFront 10) 16

/-- A rule that is easy to check: nodes are made free while nobody else holds one. -/
def LazylistAlone (state : LazylistState (Fin 2)) (input : Fin 2 × LazylistCall) : Prop :=
  LazylistOffers state input ∧
  (∀ front ∈ (state.1.thread input.1).takesFront,
    state.1.shared.next state.1.shared.headIdx = front) ∧
  ((state.1.thread input.1).frees ≠ none → ∀ other, other ≠ input.1 →
    (state.1.thread other).held (numSegments - 1) = [])

instance (state : LazylistState (Fin 2)) (input : Fin 2 × LazylistCall) :
    Decidable (LazylistAlone state input) :=
  inferInstanceAs (Decidable (_ ∧ _))

theorem LazylistAlone.careful {state : LazylistState (Fin 2)} {input : Fin 2 × LazylistCall}
    (rule : LazylistAlone state input) : LazylistOffers state input ∧ LazylistCareful state input := by
  obtain ⟨offers, atFront, alone⟩ := rule
  refine ⟨offers, atFront, fun node frees other ne i held => ?_⟩
  rw [alone (by rw [Option.mem_def.mp frees]; simp) other ne] at held
  cases held

theorem lazylist_conserves_popped : LazylistConserved ((lazylistThreads (Fin 2)).run poppedSchedule) ∧
    ((lazylistThreads (Fin 2)).run poppedSchedule).2.completed = [⟨10, 20⟩, ⟨30, 40⟩, ⟨50, 60⟩] ∧
    ((lazylistThreads (Fin 2)).run poppedSchedule).2.returned = [⟨10, 20⟩] := by
  have admitted : (lazylistThreads (Fin 2)).Admits LazylistAlone poppedSchedule := by decide +kernel
  exact ⟨lazylist_conserves poppedSchedule (admitted.mono fun _ _ => LazylistAlone.careful),
    by decide +kernel, by decide +kernel⟩

/-- A core decides to pop the first range; before it locks the node, the other core puts a range in
    front of it. -/
def losingSchedule : List (Fin 2 × LazylistCall) :=
  turnsOf 0 (.insert ⟨10, 20⟩) 26 ++ turnsOf 1 (.popFront 10) 5 ++
    turnsOf 0 (.insert ⟨5, 5⟩) 26 ++ turnsOf 1 (.popFront 10) 17

/-- 5 was put in, and is neither in the list nor taken. -/
theorem lazylist_loses : (lazylistThreads (Fin 2)).Admits LazylistOffers losingSchedule ∧
    ¬LazylistConserved ((lazylistThreads (Fin 2)).run losingSchedule) := by
  refine ⟨by decide +kernel, fun conserved => ?_⟩
  have inserted : ((lazylistThreads (Fin 2)).run losingSchedule).2.inserted =
      [⟨10, 20⟩, ⟨5, 5⟩] := by decide +kernel
  have taken : ((lazylistThreads (Fin 2)).run losingSchedule).2.taken = [⟨10, 20⟩] := by
    decide +kernel
  have active : ((lazylistThreads (Fin 2)).run losingSchedule).1.shared.active = [] := by
    decide +kernel
  have lost := (conserved.conserved 5).mp (by rw [inserted]; simp [covers])
  rw [Lazylist.denotes, active, taken] at lost
  simp [covers] at lost

end Pspin
