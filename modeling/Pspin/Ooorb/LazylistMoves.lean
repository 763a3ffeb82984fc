import Pspin.Ooorb.LazylistFrame

/-! # Steps that change no node

A load, or an operation on a lock, moves one core.  What it loads is a fact about a node
it has locked, or one about a node it holds that no store makes false again.
-/

namespace Pspin

open Clocked Lazylist

/-- The invariant, for some path and some free nodes. -/
def Coherent {Core : Type} (n : Nat) (state : LazylistState Core) : Prop :=
  ∃ path free, LazylistInvariant n state path free

theorem record_eq {history : LazylistHistory} {pc : LazylistPc} {list : Lazylist}
    {call : LazylistCall} (requests : pc.requests call = none) (inserts : pc.inserts = none)
    (takes : pc.takes = none) (returns : pc.returns list = none) :
    history.record pc list call = history := by
  rw [LazylistHistory.record, requests, inserts, takes, returns]
  simp [LazylistHistory.recordReturn]

/-- A call that finds nothing to pop. -/
theorem record_popped_none {history : LazylistHistory} {pc : LazylistPc} {list : Lazylist}
    {call call' : LazylistCall} (requests : pc.requests call = none) (inserts : pc.inserts = none)
    (takes : pc.takes = none) (returns : pc.returns list = some (call', .popped none)) :
    history.record pc list call = history := by
  rw [LazylistHistory.record, requests, inserts, takes, returns]
  simp [LazylistHistory.recordReturn]

/-- A core has after a step no more than it had before, apart from locks. -/
structure Carries (pc pc' : LazylistPc) : Prop where
  fresh : pc'.fresh = pc.fresh
  removed : pc'.removed = pc.removed
  merges : pc'.merges = pc.merges
  pending : ∀ range, pc'.pending = some range → pc.pending = some range
  carried : ∀ range, pc'.carried = some range → pc.carried = some range

/-- Locks included. -/
structure Keeps (pc pc' : LazylistPc) : Prop extends Carries pc pc' where
  locks : pc'.locks = pc.locks
  locksFree : pc'.locksFree = pc.locksFree

theorem Carries.owns {pc pc' : LazylistPc} (carries : Carries pc pc') {i : Nat}
    (owns : pc'.Owns i) : pc.Owns i := by
  rwa [LazylistPc.Owns, ← carries.fresh, ← carries.removed]

theorem Separate.carry {pc pc' other : LazylistPc} (separate : Separate pc other)
    (carries : Carries pc pc') (locks : ∀ i ∈ pc'.locks, i ∉ other.locks)
    (locksFree : pc'.locksFree = true → other.locksFree = false) : Separate pc' other where
  locks := locks
  locksFree := locksFree
  owned i owns := separate.owned i (carries.owns owns)
  pending range range' pending := separate.pending range range' (carries.pending range pending)
  carried range range' carried := separate.carried range range' (carries.carried range carried)

theorem Sane.carry {n : Nat} {list list' : Lazylist} {path free : List Nat}
    {history : LazylistHistory} {sound : Nat → Prop} {pc pc' : LazylistPc}
    (sane : Sane n list path free history sound pc) (same : SameNodes list list')
    (carries : Carries pc pc') (facts : pc'.Facts n list path history.inserted)
    (held : ∀ i ∈ pc'.held (n + 1), Within list.next (n + 1) sound i)
    (locked : ∀ i ∈ pc'.locks, list'.lock i ≠ 0)
    (lockedFree : pc'.locksFree = true → list'.freeHeadLock ≠ 0) :
    Sane n list' path free history sound pc' where
  facts := same.undisturbed.facts (fun _ => id) facts
  locked := locked
  lockedFree := lockedFree
  held := by rw [same.next]; exact held
  owned i owns := sane.owned i (carries.owns owns)
  removed := by
    rw [same.marks, same.left, same.right, same.range, carries.removed]
    exact sane.removed
  pending range pending := sane.pending range (carries.pending range pending)
  carried range carried := sane.carried range (carries.carried range carried)

namespace LazylistInvariant

variable {Core : Type} [DecidableEq Core] {n : Nat} {state : LazylistState Core}
  {path free : List Nat} {core : Core} {pc pc' : LazylistPc} {list' : Lazylist}
  {history' : LazylistHistory} {call call' : LazylistCall}

theorem step_eq (here : state.1.thread core = pc) : (lazylistThreads Core).step state (core, call) =
    (⟨(pc.act state.1.shared call).2,
      Function.update state.1.thread core (pc.act state.1.shared call).1⟩,
      state.2.record pc state.1.shared call) := by
  subst here
  rfl

/-- A step is put together from what it does to the list, to the core and to the others. -/
theorem of_step {path' free' : List Nat} {sound : Nat → Prop}
    (shape : Shape n list' path' free')
    (account : Account list' path' history' (Merging (Function.update state.1.thread core pc')))
    (within : ∀ i, sound i → Sound n path' (Removed (Function.update state.1.thread core pc')) i)
    (own : Sane n list' path' free' history' sound pc')
    (others : ∀ other, other ≠ core →
      Sane n list' path' free' history' sound (state.1.thread other))
    (separate : ∀ other, other ≠ core → Separate pc' (state.1.thread other))
    (invariant : LazylistInvariant n state path free) :
    LazylistInvariant n (⟨list', Function.update state.1.thread core pc'⟩, history') path' free' where
  shape := shape
  account := account
  sane other := by
    have weaken : ∀ {pc}, Sane n list' path' free' history' sound pc →
        Sane n list' path' free' history'
          (Sound n path' (Removed (Function.update state.1.thread core pc'))) pc :=
      fun sane => { sane with held := fun i held => (sane.held i held).mono within }
    by_cases same : other = core
    · subst same
      show Sane n list' path' free' history' _ (Function.update state.1.thread other pc' other)
      rw [Function.update_self]
      exact weaken own
    · show Sane n list' path' free' history' _ (Function.update state.1.thread core pc' other)
      rw [Function.update_of_ne same]
      exact weaken (others other same)
  separate first second ne := by
    show Separate (Function.update state.1.thread core pc' first)
      (Function.update state.1.thread core pc' second)
    by_cases same : first = core
    · subst same
      rw [Function.update_self, Function.update_of_ne ne.symm]
      exact separate second ne.symm
    · by_cases same' : second = core
      · subst same'
        rw [Function.update_self, Function.update_of_ne same]
        exact (separate first same).symm
      · rw [Function.update_of_ne same, Function.update_of_ne same']
        exact invariant.separate first second ne

/-- A step that changes no node. -/
theorem quiet (invariant : LazylistInvariant n state path free)
    (same : SameNodes state.1.shared list')
    (locked : ∀ other, other ≠ core → ∀ i ∈ (state.1.thread other).locks, list'.lock i ≠ 0)
    (lockedFree : ∀ other, other ≠ core → (state.1.thread other).locksFree = true →
      list'.freeHeadLock ≠ 0)
    (continues : ∀ other, other ≠ core → Continues state.2 history' (state.1.thread other))
    (account : Account state.1.shared path history' (Merging state.1.thread))
    (removed : pc'.removed = (state.1.thread core).removed)
    (merges : pc'.merges = (state.1.thread core).merges)
    (own : Sane n list' path free history' (Sound n path (Removed state.1.thread)) pc')
    (separate : ∀ other, other ≠ core → Separate pc' (state.1.thread other)) :
    LazylistInvariant n (⟨list', Function.update state.1.thread core pc'⟩, history') path free := by
  refine invariant.of_step (same.shape invariant.shape) ?_ ?_ own (fun other ne => ?_) separate
  · rw [merging_update_of_eq merges]
    exact same.account account
  · rw [removed_update_of_eq removed]
    exact fun i sound => sound
  · have sane := invariant.sane other
    refine sane.frame same.undisturbed (continues other ne) (locked other ne) (lockedFree other ne)
      ?_ fun i owns => (sane.owned i owns).2
    rw [same.next]
    exact sane.held

/-- A step that moves the core and may change a lock. -/
theorem step_quiet (invariant : LazylistInvariant n state path free)
    (here : state.1.thread core = pc) (acts : pc.act state.1.shared call = (pc', list'))
    (records : state.2.record pc state.1.shared call = state.2)
    (same : SameNodes state.1.shared list') (carries : Carries pc pc')
    (facts : pc'.Facts n state.1.shared path state.2.inserted)
    (held : ∀ i ∈ pc'.held (n + 1),
      Within state.1.shared.next (n + 1) (Sound n path (Removed state.1.thread)) i)
    (locked : ∀ i ∈ pc'.locks, list'.lock i ≠ 0)
    (lockedFree : pc'.locksFree = true → list'.freeHeadLock ≠ 0)
    (others : ∀ other, other ≠ core → ∀ i ∈ (state.1.thread other).locks,
      list'.lock i ≠ 0 ∧ i ∉ pc'.locks)
    (othersFree : ∀ other, other ≠ core → (state.1.thread other).locksFree = true →
      list'.freeHeadLock ≠ 0 ∧ pc'.locksFree = false) :
    Coherent n ((lazylistThreads Core).step state (core, call)) := by
  rw [step_eq here, acts, records]
  subst here
  refine ⟨path, free, invariant.quiet same (fun other ne i isLocked => (others other ne i isLocked).1)
    (fun other ne isLocked => (othersFree other ne isLocked).1) (fun _ _ => .refl) invariant.account
    carries.removed carries.merges
    ((invariant.sane core).carry same carries facts held locked lockedFree) fun other ne => ?_⟩
  refine (invariant.separate core other ne.symm).carry carries ?_ ?_
  · exact fun i mine theirs => (others other ne i theirs).2 mine
  · intro mine
    by_contra theirs
    have notMine := (othersFree other ne (by simpa using theirs)).2
    simp [mine] at notMine

/-- A step that only moves the core. -/
theorem move (invariant : LazylistInvariant n state path free) (here : state.1.thread core = pc)
    (acts : pc.act state.1.shared call = (pc', state.1.shared))
    (records : state.2.record pc state.1.shared call = state.2) (keeps : Keeps pc pc')
    (facts : pc'.Facts n state.1.shared path state.2.inserted)
    (held : ∀ i ∈ pc'.held (n + 1),
      Within state.1.shared.next (n + 1) (Sound n path (Removed state.1.thread)) i) :
    Coherent n ((lazylistThreads Core).step state (core, call)) := by
  have sane := invariant.sane core
  rw [here] at sane
  refine invariant.step_quiet here acts records .refl keeps.toCarries facts held ?_ ?_ ?_ ?_
  · rw [keeps.locks]
    exact sane.locked
  · rw [keeps.locksFree]
    exact sane.lockedFree
  · intro other ne i locked
    have separate := invariant.separate other core ne
    rw [here] at separate
    exact ⟨(invariant.sane other).locked i locked, keeps.locks ▸ separate.locks i locked⟩
  · intro other ne locked
    have separate := invariant.separate other core ne
    rw [here] at separate
    exact ⟨(invariant.sane other).lockedFree locked, keeps.locksFree ▸ separate.locksFree locked⟩

/-! ## Looking for a place -/

section Steps

variable {range : LazylistRange} {pred curr front frontNext : Nat} {rangeLeft : Int}

theorem step_findRight (invariant : LazylistInvariant n state path free)
    (here : state.1.thread core = .findRight range pred curr) :
    Coherent n ((lazylistThreads Core).step state (core, call)) := by
  have held := fun i => invariant.within_held here (i := i)
  obtain ⟨insertable, -, -⟩ := invariant.pending_at here rfl
  by_cases below : state.1.shared.right curr < range.left
  · refine invariant.move here (Prod.ext (if_pos below) rfl) (record_eq rfl rfl rfl rfl)
      ⟨⟨rfl, rfl, rfl, fun _ => id, fun _ => id⟩, rfl, rfl⟩ ?_ ?_
    · -- the right sentinel is not below any range
      rintro rfl
      have ordered := insertable.ordered
      have bounded := insertable.below
      rw [right, invariant.shape.sentinelRight] at below
      exact absurd below (show ¬int32Max < range.left by omega)
    · exact fun i member => held i (List.mem_cons_of_mem _ member)
  · refine invariant.move here (Prod.ext (if_neg below) rfl) (record_eq rfl rfl rfl rfl)
      ⟨⟨rfl, rfl, rfl, fun _ => id, fun _ => id⟩, rfl, rfl⟩ ?_ held
    exact Int.not_lt.mp below

theorem step_findNext (invariant : LazylistInvariant n state path free)
    (here : state.1.thread core = .findNext range curr) :
    Coherent n ((lazylistThreads Core).step state (core, call)) := by
  have held := fun i => invariant.within_held here (i := i)
  have notLast := invariant.facts_at here
  refine invariant.move here rfl (record_eq rfl rfl rfl rfl)
    ⟨⟨rfl, rfl, rfl, fun _ => id, fun _ => id⟩, rfl, rfl⟩ trivial ?_
  have within := held curr List.mem_cons_self
  exact List.forall_mem_cons.mpr ⟨within, List.forall_mem_singleton.mpr (within.onward notLast)⟩

/-- Nothing that was put in meets a range that is still to be put in: no overlap is found. -/
theorem step_findLeft (invariant : LazylistInvariant n state path free)
    (here : state.1.thread core = .findLeft range pred curr) :
    Coherent n ((lazylistThreads Core).step state (core, call)) := by
  have held := fun i => invariant.within_held here (i := i)
  have beyond : range.left ≤ state.1.shared.right curr := invariant.facts_at here
  obtain ⟨insertable, -, apart⟩ := invariant.pending_at here rfl
  have fits : ¬state.1.shared.left curr ≤ range.right := by
    intro overlaps
    have ordered := insertable.ordered
    have above := insertable.above
    have below := insertable.below
    have sound := (held curr (by simp [LazylistPc.held])).here
    by_cases atHead : curr = n
    · rw [atHead, right, invariant.shape.sentinelLeft] at beyond
      exact absurd beyond (show ¬range.left ≤ int32Min by omega)
    by_cases atLast : curr = n + 1
    · rw [atLast, left, invariant.shape.sentinelRight] at overlaps
      exact absurd overlaps (show ¬int32Max ≤ range.right by omega)
    obtain ⟨nonempty, covered⟩ := invariant.sound_covered sound atHead atLast
    -- the later of the two starts is in both
    obtain ⟨other, member, inOther⟩ := covered (max range.left (state.1.shared.left curr))
      ⟨by unfold left; omega, by unfold right at *; omega⟩
    exact (apart other member).notMem ⟨by omega, by omega⟩ inOther
  exact invariant.move here (Prod.ext (if_neg fits) rfl) (record_eq rfl rfl rfl (if_neg fits))
    ⟨⟨rfl, rfl, rfl, fun _ => id, fun _ => id⟩, rfl, rfl⟩ trivial held

theorem step_popHead (invariant : LazylistInvariant n state path free)
    (here : state.1.thread core = .popHead rangeLeft) :
    Coherent n ((lazylistThreads Core).step state (core, call)) := by
  have head := invariant.shape.head
  refine invariant.move here rfl (record_eq rfl rfl rfl rfl)
    ⟨⟨rfl, rfl, rfl, fun _ => id, fun _ => id⟩, rfl, rfl⟩ ?_ ?_
  · show state.1.shared.next state.1.shared.headIdx ≠ n
    rw [head]
    exact invariant.shape.next_ne List.mem_cons_self
  · refine List.forall_mem_singleton.mpr ?_
    rw [head]
    exact (invariant.within_path List.mem_cons_self).onward (by omega)

theorem step_popNext (invariant : LazylistInvariant n state path free)
    (here : state.1.thread core = .popNext rangeLeft front) :
    Coherent n ((lazylistThreads Core).step state (core, call)) := by
  have within := invariant.within_held here (List.mem_singleton_self front)
  have notHead : front ≠ n := invariant.facts_at here
  refine invariant.move here rfl (record_eq rfl rfl rfl rfl)
    ⟨⟨rfl, rfl, rfl, fun _ => id, fun _ => id⟩, rfl, rfl⟩ notHead ?_
  rw [LazylistPc.held]
  split
  next => exact List.forall_mem_singleton.mpr within
  next notLast =>
    exact List.forall_mem_cons.mpr ⟨within, List.forall_mem_singleton.mpr (within.onward notLast)⟩

theorem step_popEmpty (invariant : LazylistInvariant n state path free)
    (here : state.1.thread core = .popEmpty rangeLeft front frontNext) :
    Coherent n ((lazylistThreads Core).step state (core, call)) := by
  have notHead : front ≠ n := invariant.facts_at here
  by_cases isEmpty : state.1.shared.left front = int32Max
  · exact invariant.move here (Prod.ext (if_pos isEmpty) rfl)
      (record_popped_none rfl rfl rfl (if_pos isEmpty))
      ⟨⟨rfl, rfl, rfl, fun _ => id, fun _ => id⟩, rfl, rfl⟩ trivial (by simp [LazylistPc.held])
  · have notLast : front ≠ n + 1 := by
      rintro rfl
      exact isEmpty (congrArg Interval.left invariant.shape.sentinelRight)
    have held : ∀ i ∈ [front, frontNext], Within state.1.shared.next (n + 1)
        (Sound n path (Removed state.1.thread)) i := by
      have held := fun i => invariant.within_held here (i := i)
      simpa only [LazylistPc.held, if_neg notLast] using held
    have returns : (LazylistPc.popEmpty rangeLeft front frontNext).returns state.1.shared = none :=
      if_neg isEmpty
    by_cases any : startAny rangeLeft = true
    · exact invariant.move here (Prod.ext ((if_neg isEmpty).trans (if_pos any)) rfl)
        (record_eq rfl rfl rfl returns) ⟨⟨rfl, rfl, rfl, fun _ => id, fun _ => id⟩, rfl, rfl⟩
        ⟨notHead, notLast⟩ held
    · exact invariant.move here (Prod.ext ((if_neg isEmpty).trans (if_neg any)) rfl)
        (record_eq rfl rfl rfl returns) ⟨⟨rfl, rfl, rfl, fun _ => id, fun _ => id⟩, rfl, rfl⟩
        ⟨notHead, notLast⟩ held

theorem step_popStart (invariant : LazylistInvariant n state path free)
    (here : state.1.thread core = .popStart rangeLeft front frontNext) :
    Coherent n ((lazylistThreads Core).step state (core, call)) := by
  have held := fun i => invariant.within_held here (i := i)
  have fronts : front ≠ n ∧ front ≠ n + 1 := invariant.facts_at here
  by_cases other : state.1.shared.left front ≠ rangeLeft
  · exact invariant.move here (Prod.ext (if_pos other) rfl)
      (record_popped_none rfl rfl rfl (if_pos other))
      ⟨⟨rfl, rfl, rfl, fun _ => id, fun _ => id⟩, rfl, rfl⟩ trivial (by simp [LazylistPc.held])
  · exact invariant.move here (Prod.ext (if_neg other) rfl) (record_eq rfl rfl rfl (if_neg other))
      ⟨⟨rfl, rfl, rfl, fun _ => id, fun _ => id⟩, rfl, rfl⟩ fronts held

/-! ## Validating -/

/-- A validation that fails gives the locks back and begins another turn. -/
theorem step_retry {stage : ValidateStage} (invariant : LazylistInvariant n state path free)
    (here : state.1.thread core = .validating call' pred curr stage)
    (fails : LazylistPc.actValidate call' pred curr state.1.shared stage =
      .unlockCurr call' pred curr .retry) :
    Coherent n ((lazylistThreads Core).step state (core, call)) := by
  have held := fun i => invariant.within_held here (i := i)
  have facts := invariant.facts_at here
  exact invariant.move here (Prod.ext fails rfl) (record_eq rfl rfl rfl rfl)
    ⟨⟨rfl, rfl, rfl, fun _ => id, fun _ => id⟩, rfl, rfl⟩ ⟨facts.2.1, trivial⟩ held

theorem step_validatePred (invariant : LazylistInvariant n state path free)
    (here : state.1.thread core = .validating call' pred curr .pred) :
    Coherent n ((lazylistThreads Core).step state (core, call)) := by
  have held := fun i => invariant.within_held here (i := i)
  obtain ⟨fronts, ne, -⟩ := invariant.facts_at here
  have idx : state.1.shared.idx pred = pred :=
    invariant.shape.idx pred (invariant.sound_lt (held pred (by simp [LazylistPc.held])).here)
  by_cases marked : state.1.shared.marks (state.1.shared.idx pred) = true
  · exact invariant.step_retry here (if_pos marked)
  · refine invariant.move here (Prod.ext (if_neg marked) rfl) (record_eq rfl rfl rfl rfl)
      ⟨⟨rfl, rfl, rfl, fun _ => id, fun _ => id⟩, rfl, rfl⟩ ⟨fronts, ne, fun _ => ?_⟩ held
    rw [idx] at marked
    simpa using marked

theorem step_validateCurr (invariant : LazylistInvariant n state path free)
    (here : state.1.thread core = .validating call' pred curr .curr) :
    Coherent n ((lazylistThreads Core).step state (core, call)) := by
  have held := fun i => invariant.within_held here (i := i)
  obtain ⟨fronts, ne, unmarked⟩ := invariant.facts_at here
  by_cases marked : state.1.shared.marks (state.1.shared.idx curr) = true
  · exact invariant.step_retry here (if_pos marked)
  · exact invariant.move here (Prod.ext (if_neg marked) rfl) (record_eq rfl rfl rfl rfl)
      ⟨⟨rfl, rfl, rfl, fun _ => id, fun _ => id⟩, rfl, rfl⟩
      ⟨fronts, ne, fun _ => unmarked (by simp)⟩ held

/-- A node that is not marked and is not the right sentinel is on the path: that is what the
    validation is for. -/
theorem step_validateNext (invariant : LazylistInvariant n state path free)
    (here : state.1.thread core = .validating call' pred curr .next) :
    Coherent n ((lazylistThreads Core).step state (core, call)) := by
  have held := fun i => invariant.within_held here (i := i)
  obtain ⟨fronts, ne, unmarked⟩ := invariant.facts_at here
  have currLt := invariant.sound_lt (held curr (by simp [LazylistPc.held])).here
  have idx := invariant.shape.idx curr currLt
  by_cases linked : state.1.shared.next pred = state.1.shared.idx curr
  · have next := linked.trans idx
    have onPath : pred ∈ n :: path := by
      obtain onPath | rfl | ⟨other, removed⟩ := (held pred (by simp [LazylistPc.held])).here
      · exact onPath
      · -- nothing follows the right sentinel
        have ended := invariant.shape.ended
        have small := invariant.shape.small
        omega
      · have marked := ((invariant.sane other).removed pred removed).1
        rw [unmarked (by simp)] at marked
        cases marked
    have neighbours : Neighbours n state.1.shared path pred curr :=
      ⟨onPath, next, ne, next ▸ invariant.shape.next_ne onPath⟩
    cases call' with
    | insert range =>
      exact invariant.move here (Prod.ext (if_pos linked) rfl) (record_eq rfl rfl rfl rfl)
        ⟨⟨rfl, rfl, rfl, fun _ => id, fun _ => id⟩, rfl, rfl⟩ ⟨neighbours, trivial⟩ held
    | popFront rangeLeft =>
      exact invariant.move here (Prod.ext (if_pos linked) rfl) (record_eq rfl rfl rfl rfl)
        ⟨⟨rfl, rfl, rfl, fun _ => id, fun _ => id⟩, rfl, rfl⟩ ⟨neighbours, fronts.1, trivial⟩ held
  · exact invariant.step_retry here (if_neg linked)

/-! ## Loads of locked nodes -/

theorem step_insertLoad {stage stage' : InsertStage} (invariant : LazylistInvariant n state path free)
    (here : state.1.thread core = .inserting range pred curr stage)
    (acts : LazylistPc.actInsert range pred curr state.1.shared stage =
      (.inserting range pred curr stage', state.1.shared))
    (inserts : (LazylistPc.inserting range pred curr stage).inserts = none)
    (getting : stage'.getting = stage.getting) (newNode : stage'.newNode = stage.newNode)
    (merging : stage'.merging = stage.merging)
    (facts : stage'.Facts n state.1.shared state.2.inserted range pred curr) :
    Coherent n ((lazylistThreads Core).step state (core, call)) := by
  have held := fun i => invariant.within_held here (i := i)
  have neighbours := (invariant.facts_at here).1
  refine invariant.move here acts (record_eq rfl inserts rfl rfl)
    ⟨⟨newNode, rfl, ?_, ?_, fun _ => id⟩, rfl, getting⟩ ⟨neighbours, facts⟩ held
  · simp only [LazylistPc.merges, merging]
  · simp only [LazylistPc.pending, merging]
    exact fun _ => id

theorem branch_kind (connectsLeft connectsRight : Bool) :
    (LazylistPc.branch connectsLeft connectsRight).getting = false ∧
      (LazylistPc.branch connectsLeft connectsRight).newNode = none ∧
      (LazylistPc.branch connectsLeft connectsRight).merging = false := by
  cases connectsLeft <;> cases connectsRight <;> exact ⟨rfl, rfl, rfl⟩

theorem branch_facts {list : Lazylist} {inserted : List LazylistRange}
    {connectsLeft connectsRight : Bool}
    (joinsLeft : connectsLeft = true → JoinsLeft n list range pred)
    (joinsRight : connectsRight = true → JoinsRight n list range curr) :
    (LazylistPc.branch connectsLeft connectsRight).Facts n list inserted range pred curr := by
  cases connectsLeft with
  | true =>
    cases connectsRight with
    | true => exact ⟨joinsLeft rfl, joinsRight rfl⟩
    | false => exact joinsLeft rfl
  | false =>
    cases connectsRight with
    | true => exact joinsRight rfl
    | false => trivial

theorem step_predRight (invariant : LazylistInvariant n state path free)
    (here : state.1.thread core = .inserting range pred curr .predRight) :
    Coherent n ((lazylistThreads Core).step state (core, call)) := by
  by_cases connected : state.1.shared.right pred + 1 = range.left
  · have acts : LazylistPc.actInsert range pred curr state.1.shared .predRight =
        (.inserting range pred curr .predLeft, state.1.shared) := by
      simp [LazylistPc.actInsert, connected]
    exact invariant.step_insertLoad here acts rfl rfl rfl rfl connected
  · have acts : LazylistPc.actInsert range pred curr state.1.shared .predRight =
        (.inserting range pred curr (.currLeft false), state.1.shared) := by
      simp [LazylistPc.actInsert, connected]
    exact invariant.step_insertLoad here acts rfl rfl rfl rfl fun connects => absurd connects (by simp)

theorem step_predLeft (invariant : LazylistInvariant n state path free)
    (here : state.1.thread core = .inserting range pred curr .predLeft) :
    Coherent n ((lazylistThreads Core).step state (core, call)) := by
  obtain ⟨-, connected⟩ := invariant.facts_at here
  refine invariant.step_insertLoad here rfl rfl rfl rfl rfl fun connects => ⟨?_, connected⟩
  -- the left sentinel is not extended
  rintro rfl
  have atHead := congrArg Interval.left invariant.shape.sentinelLeft
  simp [Lazylist.left, atHead] at connects

theorem step_currLeft {connectsLeft : Bool} (invariant : LazylistInvariant n state path free)
    (here : state.1.thread core = .inserting range pred curr (.currLeft connectsLeft)) :
    Coherent n ((lazylistThreads Core).step state (core, call)) := by
  obtain ⟨-, joinsLeft⟩ := invariant.facts_at here
  by_cases connected : range.right + 1 = state.1.shared.left curr
  · have acts : LazylistPc.actInsert range pred curr state.1.shared (.currLeft connectsLeft) =
        (.inserting range pred curr (.currMax connectsLeft), state.1.shared) := by
      simp [LazylistPc.actInsert, connected]
    exact invariant.step_insertLoad here acts rfl rfl rfl rfl ⟨joinsLeft, connected⟩
  · obtain ⟨getting, newNode, merging⟩ := branch_kind connectsLeft false
    have acts : LazylistPc.actInsert range pred curr state.1.shared (.currLeft connectsLeft) =
        (.inserting range pred curr (LazylistPc.branch connectsLeft false), state.1.shared) := by
      simp [LazylistPc.actInsert, connected]
    exact invariant.step_insertLoad here acts rfl getting newNode merging
      (branch_facts joinsLeft fun connects => absurd connects (by simp))

theorem step_currMax {connectsLeft : Bool} (invariant : LazylistInvariant n state path free)
    (here : state.1.thread core = .inserting range pred curr (.currMax connectsLeft)) :
    Coherent n ((lazylistThreads Core).step state (core, call)) := by
  obtain ⟨-, joinsLeft, connected⟩ := invariant.facts_at here
  obtain ⟨getting, newNode, merging⟩ := branch_kind connectsLeft
    (decide (state.1.shared.left curr < int32Max))
  refine invariant.step_insertLoad here rfl rfl getting newNode merging
    (branch_facts joinsLeft fun connects => ⟨?_, connected⟩)
  -- the right sentinel is not extended
  rintro rfl
  have atLast := congrArg Interval.left invariant.shape.sentinelRight
  simp [Lazylist.left, atLast] at connects

theorem step_mergeRight (invariant : LazylistInvariant n state path free)
    (here : state.1.thread core = .inserting range pred curr .mergeRight) :
    Coherent n ((lazylistThreads Core).step state (core, call)) := by
  obtain ⟨-, joinsLeft, joinsRight⟩ := invariant.facts_at here
  exact invariant.step_insertLoad here rfl rfl rfl rfl rfl ⟨joinsLeft, joinsRight, rfl⟩

theorem step_mergeNext (invariant : LazylistInvariant n state path free)
    (here : state.1.thread core = .inserting range pred curr .mergeNext) :
    Coherent n ((lazylistThreads Core).step state (core, call)) := by
  obtain ⟨-, absorbs, marked⟩ := invariant.facts_at here
  exact invariant.step_insertLoad here rfl rfl rfl rfl rfl ⟨absorbs, marked, rfl⟩

theorem step_getCheck (invariant : LazylistInvariant n state path free)
    (here : state.1.thread core = .inserting range pred curr .getCheck) :
    Coherent n ((lazylistThreads Core).step state (core, call)) := by
  by_cases notEnd : state.1.shared.freeHeadLock ≠ BitVec.ofNat 32 eol
  · have acts : LazylistPc.actInsert range pred curr state.1.shared .getCheck =
        (.inserting range pred curr .getHead, state.1.shared) := by
      rw [LazylistPc.actInsert, if_pos notEnd]
    exact invariant.step_insertLoad here acts rfl rfl rfl rfl trivial
  · have acts : LazylistPc.actInsert range pred curr state.1.shared .getCheck =
        (.inserting range pred curr (.getUnlock none), state.1.shared) := by
      rw [LazylistPc.actInsert, if_neg notEnd]
    exact invariant.step_insertLoad here acts rfl rfl rfl rfl trivial

/-- There is a free node to take. -/
theorem step_getHead (invariant : LazylistInvariant n state path free)
    (here : state.1.thread core = .inserting range pred curr .getHead)
    (room : state.1.shared.freeHeadIdx ≠ eol) :
    Coherent n ((lazylistThreads Core).step state (core, call)) :=
  invariant.step_insertLoad here rfl rfl rfl rfl rfl ⟨rfl, room⟩

theorem step_getNext {freeNode : Nat} (invariant : LazylistInvariant n state path free)
    (here : state.1.thread core = .inserting range pred curr (.getNext freeNode)) :
    Coherent n ((lazylistThreads Core).step state (core, call)) := by
  obtain ⟨-, isHead⟩ := invariant.facts_at here
  exact invariant.step_insertLoad here rfl rfl rfl rfl rfl ⟨isHead, rfl⟩

theorem step_popLoad {stage stage' : PopStage} (invariant : LazylistInvariant n state path free)
    (here : state.1.thread core = .popping rangeLeft front frontNext stage)
    (acts : LazylistPc.actPop rangeLeft front frontNext state.1.shared stage =
      (.popping rangeLeft front frontNext stage', state.1.shared))
    (takes : (LazylistPc.popping rangeLeft front frontNext stage).takes = none)
    (facts : stage'.Facts state.1.shared front) :
    Coherent n ((lazylistThreads Core).step state (core, call)) := by
  have held := fun i => invariant.within_held here (i := i)
  obtain ⟨neighbours, notHead, -⟩ := invariant.facts_at here
  exact invariant.move here acts (record_eq rfl rfl takes rfl)
    ⟨⟨rfl, rfl, rfl, fun _ => id, fun _ => id⟩, rfl, rfl⟩ ⟨neighbours, notHead, facts⟩ held

theorem step_popCheck (invariant : LazylistInvariant n state path free)
    (here : state.1.thread core = .popping rangeLeft front frontNext .check) :
    Coherent n ((lazylistThreads Core).step state (core, call)) := by
  by_cases accepts : state.1.shared.left front = rangeLeft ∨ startAny rangeLeft = true
  · have acts : LazylistPc.actPop rangeLeft front frontNext state.1.shared .check =
        (.popping rangeLeft front frontNext .left, state.1.shared) := by
      rw [LazylistPc.actPop, if_pos accepts]
    exact invariant.step_popLoad here acts rfl trivial
  · have held := fun i => invariant.within_held here (i := i)
    obtain ⟨neighbours, -, -⟩ := invariant.facts_at here
    exact invariant.move here (Prod.ext (if_neg accepts) rfl) (record_eq rfl rfl rfl rfl)
      ⟨⟨rfl, rfl, rfl, fun _ => id, fun _ => id⟩, rfl, rfl⟩ ⟨neighbours.ne, trivial⟩ held

theorem step_popLeft (invariant : LazylistInvariant n state path free)
    (here : state.1.thread core = .popping rangeLeft front frontNext .left) :
    Coherent n ((lazylistThreads Core).step state (core, call)) :=
  invariant.step_popLoad here rfl rfl rfl

theorem step_popRight {start : Int} (invariant : LazylistInvariant n state path free)
    (here : state.1.thread core = .popping rangeLeft front frontNext (.right start)) :
    Coherent n ((lazylistThreads Core).step state (core, call)) := by
  obtain ⟨-, -, same⟩ := invariant.facts_at here
  refine invariant.step_popLoad here rfl rfl ?_
  show (⟨start, state.1.shared.right front⟩ : LazylistRange) = state.1.shared.range front
  rw [show start = state.1.shared.left front from same]
  rfl

theorem step_putHead {result : LazylistResult} {freedNode : Nat}
    (invariant : LazylistInvariant n state path free)
    (here : state.1.thread core = .putting call' result freedNode .head) :
    Coherent n ((lazylistThreads Core).step state (core, call)) := by
  obtain ⟨-, done⟩ := invariant.facts_at here
  exact invariant.move here rfl (record_eq rfl rfl rfl rfl)
    ⟨⟨rfl, rfl, rfl, fun _ => id, fun _ => id⟩, rfl, rfl⟩ ⟨rfl, done⟩ (by simp [LazylistPc.held])

end Steps

end LazylistInvariant

end Pspin
