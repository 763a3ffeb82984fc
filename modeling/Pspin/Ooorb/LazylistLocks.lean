import Mathlib.Data.List.Pairwise
import Pspin.Ooorb.LazylistMoves

/-! # Steps that take a lock or give one back

A lock that is taken is not 0, whoever tries it.  The first to try it when it is 0 has it
alone, and only that core stores 0 to it again.
-/

namespace Pspin

open Clocked Lazylist

namespace LazylistPc

theorem lockNode_eq {list : Lazylist} {i : Nat} {taken waiting : LazylistPc} :
    lockNode list i taken waiting =
      (if list.lock i = 0 then taken else waiting,
        list.setLock i (futexTryLock (list.lock i)).2) := by
  simp [lockNode]

theorem lockFreeHead_eq {list : Lazylist} {taken waiting : LazylistPc} :
    lockFreeHead list taken waiting =
      (if list.freeHeadLock = 0 then taken else waiting,
        list.setFreeHeadLock (futexTryLock list.freeHeadLock).2) := by
  simp [lockFreeHead]

end LazylistPc

theorem lock_setLock_ne {list : Lazylist} {i j : Nat} {word : Word} (nonzero : word ≠ 0)
    (locked : list.lock j ≠ 0) : (list.setLock i word).lock j ≠ 0 := by
  rw [lock_setLock]
  by_cases same : j = i
  · subst same
    rwa [Function.update_self]
  · rwa [Function.update_of_ne same]

namespace LazylistInvariant

variable {Core : Type} [DecidableEq Core] {n : Nat} {state : LazylistState Core}
  {path free : List Nat} {core : Core} {pc pc' : LazylistPc} {call call' : LazylistCall}
  {range : LazylistRange} {pred curr i : Nat} {result : LazylistResult}
  {outcome : LazylistOutcome}

/-! ## Locks of nodes -/

/-- One turn of a spin lock on a node. -/
theorem step_tryLock (invariant : LazylistInvariant n state path free)
    (here : state.1.thread core = pc)
    (acts : pc.act state.1.shared call = LazylistPc.lockNode state.1.shared i pc' pc)
    (records : state.2.record pc state.1.shared call = state.2) (carries : Carries pc pc')
    (locks : ∀ j ∈ pc'.locks, j = i ∨ j ∈ pc.locks) (locksFree : pc'.locksFree = pc.locksFree)
    (facts : state.1.shared.lock i = 0 → pc'.Facts n state.1.shared path state.2.inserted)
    (held : pc'.held (n + 1) = pc.held (n + 1)) :
    Coherent n ((lazylistThreads Core).step state (core, call)) := by
  have sane := invariant.sane core
  have separate := fun other ne => invariant.separate other core ne
  rw [here] at sane
  simp only [here] at separate
  have nonzero := futexTryLock_ne_zero (state.1.shared.lock i)
  rw [LazylistPc.lockNode_eq] at acts
  -- the lock is taken if it is free, and spun on if not; it is nonzero afterwards in both cases
  by_cases isFree : state.1.shared.lock i = 0
  · rw [if_pos isFree] at acts
    refine invariant.step_quiet here acts records .setLock carries (facts isFree) ?_ ?_ ?_ ?_ ?_
    · rw [held]
      exact sane.held
    · intro j mine
      obtain rfl | before := locks j mine
      · rw [lock_setLock, Function.update_self]
        exact nonzero
      · exact lock_setLock_ne nonzero (sane.locked j before)
    · rw [locksFree]
      exact sane.lockedFree
    · intro other ne j theirs
      have locked := (invariant.sane other).locked j theirs
      refine ⟨lock_setLock_ne nonzero locked, fun mine => ?_⟩
      obtain rfl | before := locks j mine
      · exact locked isFree
      · exact (separate other ne).locks j theirs before
    · intro other ne theirs
      exact ⟨(invariant.sane other).lockedFree theirs,
        locksFree ▸ (separate other ne).locksFree theirs⟩
  · rw [if_neg isFree] at acts
    refine invariant.step_quiet here acts records .setLock ⟨rfl, rfl, rfl, fun _ => id, fun _ => id⟩
      sane.facts sane.held ?_ sane.lockedFree ?_ ?_
    · exact fun j mine => lock_setLock_ne nonzero (sane.locked j mine)
    · intro other ne j theirs
      exact ⟨lock_setLock_ne nonzero ((invariant.sane other).locked j theirs),
        (separate other ne).locks j theirs⟩
    · intro other ne theirs
      exact ⟨(invariant.sane other).lockedFree theirs, (separate other ne).locksFree theirs⟩

theorem step_lockPred (invariant : LazylistInvariant n state path free)
    (here : state.1.thread core = .lockPred call' pred curr) :
    Coherent n ((lazylistThreads Core).step state (core, call)) := by
  have fronts : call'.Fronts n pred := invariant.facts_at here
  exact invariant.step_tryLock here rfl (record_eq rfl rfl rfl rfl)
    ⟨rfl, rfl, rfl, fun _ => id, fun _ => id⟩ (fun _ mine => .inl (List.mem_singleton.mp mine)) rfl
    (fun _ => fronts) rfl

theorem step_lockCurr (invariant : LazylistInvariant n state path free)
    (here : state.1.thread core = .lockCurr call' pred curr) :
    Coherent n ((lazylistThreads Core).step state (core, call)) := by
  have fronts : call'.Fronts n pred := invariant.facts_at here
  have locked := (invariant.sane core).locked pred (by rw [here]; exact List.mem_singleton_self pred)
  refine invariant.step_tryLock here rfl (record_eq rfl rfl rfl rfl)
    ⟨rfl, rfl, rfl, fun _ => id, fun _ => id⟩ ?_ rfl (fun isFree => ?_) rfl
  · intro j mine
    simp only [LazylistPc.locks, List.mem_cons, List.not_mem_nil, or_false] at mine ⊢
    exact mine.symm
  · refine ⟨fronts, ?_, fun later => absurd rfl later⟩
    -- a node that is locked already is not locked again
    rintro rfl
    exact locked isFree

/-- A lock that is given back, or cleared on a new node. -/
theorem step_clearLock (invariant : LazylistInvariant n state path free)
    (here : state.1.thread core = pc)
    (acts : pc.act state.1.shared call = (pc', state.1.shared.setLock i 0))
    (records : state.2.record pc state.1.shared call = state.2) (carries : Carries pc pc')
    (mine : i ∈ pc.locks ∨ pc.fresh = some i)
    (locks : ∀ j ∈ pc'.locks, j ≠ i ∧ j ∈ pc.locks) (locksFree : pc'.locksFree = pc.locksFree)
    (facts : pc'.Facts n state.1.shared path state.2.inserted)
    (held : ∀ i ∈ pc'.held (n + 1),
      Within state.1.shared.next (n + 1) (Sound n path (Removed state.1.thread)) i) :
    Coherent n ((lazylistThreads Core).step state (core, call)) := by
  have sane := invariant.sane core
  have separate := fun other ne => invariant.separate other core ne
  have keeps : ∀ j, state.1.shared.lock j ≠ 0 → j ≠ i →
      (state.1.shared.setLock i 0).lock j ≠ 0 := by
    intro j locked ne
    rwa [lock_setLock, Function.update_of_ne ne]
  subst here
  refine invariant.step_quiet rfl acts records .setLock carries facts held ?_ ?_ ?_ ?_
  · exact fun j locked => keeps j (sane.locked j (locks j locked).2) (locks j locked).1
  · rw [locksFree]
    exact sane.lockedFree
  · intro other ne j theirs
    refine ⟨keeps j ((invariant.sane other).locked j theirs) ?_, fun locked =>
      (separate other ne).locks j theirs (locks j locked).2⟩
    rintro rfl
    obtain locked | fresh := mine
    · exact (separate other ne).locks j theirs locked
    · exact invariant.not_sound fresh (invariant.sound_of_held (LazylistPc.held_of_locks theirs))
  · intro other ne theirs
    exact ⟨(invariant.sane other).lockedFree theirs, locksFree ▸ (separate other ne).locksFree theirs⟩

theorem step_unlockCurr (invariant : LazylistInvariant n state path free)
    (here : state.1.thread core = .unlockCurr call' pred curr outcome) :
    Coherent n ((lazylistThreads Core).step state (core, call)) := by
  have held := fun i => invariant.within_held here (i := i)
  obtain ⟨ne, holds⟩ := invariant.facts_at here
  refine invariant.step_clearLock here rfl (record_eq rfl rfl rfl rfl) ⟨rfl, rfl, rfl, ?_, fun _ => id⟩
    (.inl (show curr ∈ [pred, curr] by simp)) ?_ rfl holds ?_
  · cases outcome <;> exact fun _ => id
  · intro j mine
    obtain rfl := List.mem_singleton.mp mine
    exact ⟨ne, List.mem_cons_self⟩
  · intro j mine
    obtain rfl := List.mem_singleton.mp mine
    exact held j List.mem_cons_self

/-- The end of a turn that has to be followed by another. -/
theorem step_unlockPred_retry (invariant : LazylistInvariant n state path free)
    (here : state.1.thread core = .unlockPred call' pred .retry) :
    Coherent n ((lazylistThreads Core).step state (core, call)) := by
  have head := invariant.shape.head
  have small := invariant.shape.small
  have notEnd : ¬state.1.shared.headIdx = eol := by omega
  cases call' with
  | insert range =>
    refine invariant.step_clearLock here rfl (record_eq rfl rfl rfl rfl)
      ⟨rfl, rfl, rfl, fun _ => id, fun _ => id⟩ (.inl (List.mem_singleton_self pred)) (by
        simp [LazylistPc.begin, LazylistPc.locks]) rfl trivial ?_
    intro j mine
    simp only [LazylistPc.begin, LazylistPc.held, head, List.mem_cons, List.not_mem_nil, or_false,
      or_self] at mine
    subst mine
    exact invariant.within_path List.mem_cons_self
  | popFront rangeLeft =>
    have acts : (LazylistPc.unlockPred (.popFront rangeLeft) pred .retry).act state.1.shared call =
        (.popHead rangeLeft, state.1.shared.setLock pred 0) := Prod.ext (if_neg notEnd) rfl
    exact invariant.step_clearLock here acts (record_eq rfl rfl rfl rfl)
      ⟨rfl, rfl, rfl, fun _ => id, fun _ => id⟩ (.inl (List.mem_singleton_self pred))
      (by simp [LazylistPc.locks]) rfl trivial (by simp [LazylistPc.held])

/-- The end of a turn that has taken a node off the path. -/
theorem step_unlockPred_put {freedNode : Nat} (invariant : LazylistInvariant n state path free)
    (here : state.1.thread core = .unlockPred call' pred (.finish result (some freedNode))) :
    Coherent n ((lazylistThreads Core).step state (core, call)) := by
  have holds := invariant.facts_at here
  exact invariant.step_clearLock here rfl (record_eq rfl rfl rfl rfl)
    ⟨rfl, rfl, rfl, fun _ pending => (by cases pending), fun _ => id⟩
    (.inl (List.mem_singleton_self pred)) (by simp [LazylistPc.locks]) rfl ⟨trivial, holds⟩
    (by simp [LazylistPc.held])

/-! ## The lock of the free nodes -/

/-- One turn of the spin lock. -/
theorem step_tryLockFree (invariant : LazylistInvariant n state path free)
    (here : state.1.thread core = pc)
    (acts : pc.act state.1.shared call = LazylistPc.lockFreeHead state.1.shared pc' pc)
    (records : state.2.record pc state.1.shared call = state.2) (carries : Carries pc pc')
    (locks : pc'.locks = pc.locks) (facts : pc'.Facts n state.1.shared path state.2.inserted)
    (held : pc'.held (n + 1) = pc.held (n + 1)) :
    Coherent n ((lazylistThreads Core).step state (core, call)) := by
  have sane := invariant.sane core
  have separate := fun other ne => invariant.separate other core ne
  rw [here] at sane
  simp only [here] at separate
  have nonzero := futexTryLock_ne_zero state.1.shared.freeHeadLock
  rw [LazylistPc.lockFreeHead_eq] at acts
  by_cases isFree : state.1.shared.freeHeadLock = 0
  · rw [if_pos isFree] at acts
    refine invariant.step_quiet here acts records .setFreeHeadLock carries facts ?_ ?_
      (fun _ => nonzero) ?_ ?_
    · rw [held]
      exact sane.held
    · rw [locks]
      exact sane.locked
    · intro other ne j theirs
      exact ⟨(invariant.sane other).locked j theirs, locks ▸ (separate other ne).locks j theirs⟩
    · intro other ne theirs
      exact absurd isFree ((invariant.sane other).lockedFree theirs)
  · rw [if_neg isFree] at acts
    refine invariant.step_quiet here acts records .setFreeHeadLock
      ⟨rfl, rfl, rfl, fun _ => id, fun _ => id⟩ sane.facts sane.held sane.locked (fun _ => nonzero) ?_ ?_
    · intro other ne j theirs
      exact ⟨(invariant.sane other).locked j theirs, (separate other ne).locks j theirs⟩
    · intro other ne theirs
      exact ⟨nonzero, (separate other ne).locksFree theirs⟩

theorem step_getLock (invariant : LazylistInvariant n state path free)
    (here : state.1.thread core = .inserting range pred curr .getLock) :
    Coherent n ((lazylistThreads Core).step state (core, call)) := by
  obtain ⟨neighbours, -⟩ := invariant.facts_at here
  exact invariant.step_tryLockFree here rfl (record_eq rfl rfl rfl rfl)
    ⟨rfl, rfl, rfl, fun _ => id, fun _ => id⟩ rfl ⟨neighbours, trivial⟩ rfl

theorem step_putLock {freedNode : Nat} (invariant : LazylistInvariant n state path free)
    (here : state.1.thread core = .putting call' result freedNode .lock) :
    Coherent n ((lazylistThreads Core).step state (core, call)) := by
  obtain ⟨-, holds⟩ := invariant.facts_at here
  exact invariant.step_tryLockFree here rfl (record_eq rfl rfl rfl rfl)
    ⟨rfl, rfl, rfl, fun _ => id, fun _ => id⟩ rfl ⟨trivial, holds⟩ rfl

/-- The lock is given back, and the call goes on. -/
theorem step_getUnlock {freeNode : Option Nat} (invariant : LazylistInvariant n state path free)
    (here : state.1.thread core = .inserting range pred curr (.getUnlock freeNode)) :
    Coherent n ((lazylistThreads Core).step state (core, call)) := by
  have sane := invariant.sane core
  have separate := fun other ne => invariant.separate other core ne
  rw [here] at sane
  simp only [here] at separate
  obtain ⟨neighbours, -⟩ := sane.facts
  have notTheirs : ∀ other, other ≠ core → (state.1.thread other).locksFree = true → False := by
    intro other ne theirs
    have notMine := (separate other ne).locksFree theirs
    cases notMine
  have others : ∀ other, other ≠ core → ∀ i ∈ (state.1.thread other).locks,
      (state.1.shared.unlockFreeHead).lock i ≠ 0 ∧ i ∉ [pred, curr] := fun other ne j theirs =>
    ⟨(invariant.sane other).locked j theirs, (separate other ne).locks j theirs⟩
  cases freeNode with
  | some newNode =>
    exact invariant.step_quiet here rfl (record_eq rfl rfl rfl rfl) .setFreeHeadLock
      ⟨rfl, rfl, rfl, fun _ => id, fun _ => id⟩ ⟨neighbours, trivial⟩ sane.held sane.locked
      (fun locked => by cases locked) others fun other ne theirs => (notTheirs other ne theirs).elim
  | none =>
    exact invariant.step_quiet here rfl (record_eq rfl rfl rfl rfl) .setFreeHeadLock
      ⟨rfl, rfl, rfl, fun _ pending => (by cases pending), fun _ => id⟩
      ⟨neighbours.ne, fun _ _ isDone => by cases isDone⟩ sane.held sane.locked
      (fun locked => by cases locked) others fun other ne theirs => (notTheirs other ne theirs).elim

/-! ## The end of a call -/

section Returns

variable {list : Lazylist} {history : LazylistHistory} {other : LazylistPc}

/-- A return is recorded under what it returns. -/
theorem recordReturn_eq (history : LazylistHistory) : ∃ completed returned,
    history.recordReturn (some (call', result)) =
      { history with completed := completed, returned := returned } ∧
    (∀ range ∈ completed, range ∈ history.completed ∨
      (call' = .insert range ∧ result = .inserted 0)) ∧
    returned = history.returned ++ result.popped?.toList := by
  cases result with
  | inserted error =>
    cases call' with
    | insert range =>
      by_cases done : error = 0
      · refine ⟨history.completed ++ [range], history.returned, if_pos done, ?_, by
          simp [LazylistResult.popped?]⟩
        intro other member
        obtain before | now := List.mem_append.mp member
        · exact .inl before
        · obtain rfl := List.mem_singleton.mp now
          exact .inr ⟨rfl, by rw [done]⟩
      · exact ⟨history.completed, history.returned, if_neg done, fun _ => .inl, by
          simp [LazylistResult.popped?]⟩
    | popFront rangeLeft =>
      exact ⟨history.completed, history.returned, rfl, fun _ => .inl, by
        simp [LazylistResult.popped?]⟩
  | popped popped =>
    cases popped with
    | none =>
      exact ⟨history.completed, history.returned, by cases call' <;> rfl, fun _ => .inl, by
        simp [LazylistResult.popped?]⟩
    | some range =>
      exact ⟨history.completed, history.returned ++ [range], by cases call' <;> rfl, fun _ => .inl, by
        simp [LazylistResult.popped?]⟩

theorem account_recordReturn {merging : Nat → Nat → Prop}
    (account : Account list path history merging)
    (holds : (LazylistOutcome.finish result none).Holds history.inserted call')
    (popped : ∀ range, result.popped? = some range →
      range ∈ history.taken ∧ range ∉ history.returned) :
    Account list path (history.recordReturn (some (call', result))) merging := by
  obtain ⟨completed, _, same, isCompleted, rfl⟩ := recordReturn_eq history
  rw [same]
  refine { account with completed := ?_, returned := ?_, returnedOnce := ?_ }
  · intro range member
    obtain before | ⟨isInsert, isDone⟩ := isCompleted range member
    · exact account.completed range before
    · exact holds range isInsert isDone
  · intro range member
    obtain before | now := List.mem_append.mp member
    · exact account.returned range before
    · exact (popped range (Option.mem_toList.mp now)).1
  · refine List.pairwise_append.mpr ⟨account.returnedOnce, ?_, ?_⟩
    · cases result.popped? <;> simp
    · intro range member range' now
      obtain ⟨taken, notReturned⟩ := popped range' (Option.mem_toList.mp now)
      have ne : range ≠ range' := fun same => notReturned (same ▸ member)
      exact account.takenOnce.forall (account.returned range member) taken ne

/-- A core that returns a range is the only one to do so. -/
theorem continues_recordReturn (apart : ∀ range range', result.popped? = some range →
      other.carried = some range' → range.Apart range')
    (ordered : ∀ range, other.carried = some range → range.left ≤ range.right) :
    Continues history (history.recordReturn (some (call', result))) other := by
  obtain ⟨completed, _, same, -, rfl⟩ := recordReturn_eq history
  rw [same]
  refine ⟨fun _ => id, fun _ => id, fun _ => id, fun _ _ _ => .inl, fun range carried member => ?_⟩
  obtain before | now := List.mem_append.mp member
  · exact before
  · have meets := apart range range (Option.mem_toList.mp now) carried
    have nonempty := ordered range carried
    obtain before | after := meets <;> omega

end Returns

theorem record_returns {history : LazylistHistory} {list : Lazylist}
    {returned : Option (LazylistCall × LazylistResult)} (requests : pc.requests call = none)
    (inserts : pc.inserts = none) (takes : pc.takes = none) (returns : pc.returns list = returned) :
    history.record pc list call = history.recordReturn returned := by
  rw [LazylistHistory.record, requests, inserts, takes, returns]
  simp

/-- The last step of a call. -/
theorem step_return {list' : Lazylist} (invariant : LazylistInvariant n state path free)
    (here : state.1.thread core = pc) (acts : pc.act state.1.shared call = (.idle, list'))
    (requests : pc.requests call = none) (inserts : pc.inserts = none) (takes : pc.takes = none)
    (returns : pc.returns state.1.shared = some (call', result))
    (same : SameNodes state.1.shared list')
    (removed : pc.removed = none) (merges : pc.merges = none) (carried : pc.carried = result.popped?)
    (holds : (LazylistOutcome.finish result none).Holds state.2.inserted call')
    (others : ∀ other, other ≠ core → ∀ i ∈ (state.1.thread other).locks, list'.lock i ≠ 0)
    (othersFree : ∀ other, other ≠ core → (state.1.thread other).locksFree = true →
      list'.freeHeadLock ≠ 0) : Coherent n ((lazylistThreads Core).step state (core, call)) := by
  have sane := invariant.sane core
  have separate := fun other ne => invariant.separate core other ne
  rw [step_eq here, acts, record_returns requests inserts takes returns]
  rw [here] at sane
  simp only [here] at separate
  have account := account_recordReturn invariant.account holds (by rw [← carried]; exact sane.carried)
  refine ⟨path, free, invariant.quiet same others othersFree (fun other ne => ?_) account
    (by rw [here, removed]; rfl) (by rw [here, merges]; rfl) ?_ fun other ne => ?_⟩
  · refine continues_recordReturn ?_ fun range isCarried => ?_
    · rw [← carried]
      exact (separate other ne.symm).carried
    · exact invariant.account.takenOrdered range ((invariant.sane other).carried range isCarried).1
  · exact ⟨trivial, by simp [LazylistPc.locks], by simp [LazylistPc.locksFree],
      by simp [LazylistPc.held], by simp [LazylistPc.Owns, LazylistPc.fresh, LazylistPc.removed],
      by simp [LazylistPc.removed], by simp [LazylistPc.pending], by simp [LazylistPc.carried]⟩
  · exact ⟨by simp [LazylistPc.locks], by simp [LazylistPc.locksFree],
      by simp [LazylistPc.Owns, LazylistPc.fresh, LazylistPc.removed], by simp [LazylistPc.pending],
      by simp [LazylistPc.carried]⟩

theorem step_unlockPred_finish (invariant : LazylistInvariant n state path free)
    (here : state.1.thread core = .unlockPred call' pred (.finish result none)) :
    Coherent n ((lazylistThreads Core).step state (core, call)) := by
  have holds := invariant.facts_at here
  have separate := fun other ne => invariant.separate other core ne
  simp only [here] at separate
  refine invariant.step_return here rfl rfl rfl rfl rfl .setLock rfl rfl rfl holds ?_ ?_
  · intro other ne j theirs
    have notMine := (separate other ne).locks j theirs
    rw [unlockNode, lock_setLock, Function.update_of_ne (by simpa [LazylistPc.locks] using notMine)]
    exact (invariant.sane other).locked j theirs
  · exact fun other ne => (invariant.sane other).lockedFree

theorem step_putUnlock {freedNode : Nat} (invariant : LazylistInvariant n state path free)
    (here : state.1.thread core = .putting call' result freedNode .unlock) :
    Coherent n ((lazylistThreads Core).step state (core, call)) := by
  obtain ⟨-, holds⟩ := invariant.facts_at here
  have separate := fun other ne => invariant.separate other core ne
  simp only [here] at separate
  refine invariant.step_return here rfl rfl rfl rfl rfl .setFreeHeadLock rfl rfl rfl holds ?_ ?_
  · exact fun other ne => (invariant.sane other).locked
  · intro other ne theirs
    have notMine := (separate other ne).locksFree theirs
    cases notMine

/-! ## The start of a call -/

/-- A range that is apart from all that were requested before. -/
theorem step_begin (invariant : LazylistInvariant n state path free)
    (here : state.1.thread core = .idle)
    (offered : ∀ range, call = .insert range →
      Insertable range ∧ ∀ other ∈ state.2.requested, range.Apart other) :
    Coherent n ((lazylistThreads Core).step state (core, call)) := by
  have head := invariant.shape.head
  have small := invariant.shape.small
  cases call with
  | popFront rangeLeft =>
    have notEnd : ¬state.1.shared.headIdx = eol := by omega
    exact invariant.move here (Prod.ext (if_neg notEnd) rfl) (record_eq rfl rfl rfl rfl)
      ⟨⟨rfl, rfl, rfl, fun _ => id, fun _ => id⟩, rfl, rfl⟩ trivial (by simp [LazylistPc.held])
  | insert range =>
    obtain ⟨insertable, apart⟩ := offered range rfl
    have records : state.2.record .idle state.1.shared (.insert range) =
        { state.2 with requested := state.2.requested ++ [range] } := by
      simp [LazylistHistory.record, LazylistHistory.recordReturn, LazylistPc.requests,
        LazylistPc.inserts, LazylistPc.takes, LazylistPc.returns]
    have more : ∀ other ∈ state.2.requested, other ∈ state.2.requested ++ [range] :=
      fun _ => List.mem_append_left [range]
    -- a request does not count before its range is inserted
    have account : Account state.1.shared path
        { state.2 with requested := state.2.requested ++ [range] } (Merging state.1.thread) :=
      { invariant.account with
        requested := fun other member => more other (invariant.account.requested other member) }
    rw [step_eq here, records]
    refine ⟨path, free, invariant.quiet .refl (fun other _ => (invariant.sane other).locked)
      (fun other _ => (invariant.sane other).lockedFree)
      (fun _ _ => ⟨more, fun _ => id, fun _ => id, fun _ _ _ => .inl, fun _ _ => id⟩) account
      (by rw [here]; rfl) (by rw [here]; rfl) ?_ fun other ne => ?_⟩
    · refine ⟨trivial, fun _ mine => (by cases mine), fun mine => (by cases mine), ?_, ?_,
        fun _ removed => (by cases removed), ?_, fun _ carried => (by cases carried)⟩
      · intro i mine
        simp only [LazylistPc.act, LazylistPc.begin, LazylistPc.held, head, List.mem_cons,
          List.not_mem_nil, or_false, or_self] at mine
        subst mine
        exact invariant.within_path List.mem_cons_self
      · rintro i (fresh | removed)
        · cases fresh
        · cases removed
      · intro other pending
        obtain rfl := Option.some.inj pending
        refine ⟨insertable, List.mem_append_right _ List.mem_cons_self, fun other member => ?_⟩
        exact apart other (invariant.account.requested other member)
    · refine ⟨fun _ mine => (by cases mine), fun mine => (by cases mine), ?_, ?_,
        fun _ _ carried => (by cases carried)⟩
      · rintro i (fresh | removed)
        · cases fresh
        · cases removed
      · intro mine theirs pending pending'
        obtain rfl := Option.some.inj pending
        exact apart theirs ((invariant.sane other).pending theirs pending').2.1

end LazylistInvariant

end Pspin
