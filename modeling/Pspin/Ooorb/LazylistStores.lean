import Pspin.Ooorb.LazylistAccount
import Pspin.Ooorb.LazylistLocks

/-! # Steps that change a node

Stores to ranges and marks change no link.  Stores to links put a node on the path, take
one off it, or move a node that is on no path.
-/

namespace Pspin

open Clocked Lazylist

namespace LazylistInvariant

variable {Core : Type} {n : Nat} {state : LazylistState Core}
  {path free : List Nat} {core other : Core} {pc pc' : LazylistPc} {call call' : LazylistCall}
  {range : LazylistRange} {rangeLeft right : Int} {pred curr front frontNext newNode i : Nat}
  {list' : Lazylist} {history' : LazylistHistory}

/-! ## Whose nodes they are -/

theorem foreign_of_path (invariant : LazylistInvariant n state path free)
    (locked : i ∈ (state.1.thread core).locks) (onPath : i ∈ n :: path) (ne : other ≠ core) :
    Foreign (state.1.thread other) i := by
  refine ⟨fun theirs => (invariant.separate other core ne).locks i theirs locked, fun theirs => ?_⟩
  obtain ⟨below, notPath, -⟩ := (invariant.sane other).owned i theirs
  obtain rfl | onPath := List.mem_cons.mp onPath
  · exact lt_irrefl _ below
  · exact notPath onPath

theorem foreign_of_fresh (invariant : LazylistInvariant n state path free)
    (fresh : (state.1.thread core).fresh = some i) (ne : other ≠ core) :
    Foreign (state.1.thread other) i ∧ i ∉ (state.1.thread other).held (n + 1) := by
  have notHeld : i ∉ (state.1.thread other).held (n + 1) := fun held =>
    invariant.not_sound fresh (invariant.sound_of_held held)
  exact ⟨⟨fun theirs => notHeld (LazylistPc.held_of_locks theirs), fun theirs =>
    (invariant.separate other core ne).owned i theirs (.inl fresh)⟩, notHeld⟩

/-- What one core puts in does not concern what the others have still to put in. -/
theorem continues_insert (invariant : LazylistInvariant n state path free)
    (pending : (state.1.thread core).pending = some range) (ne : other ≠ core) :
    Continues state.2 { state.2 with inserted := state.2.inserted ++ [range] }
      (state.1.thread other) := by
  refine ⟨fun _ => id, fun _ => List.mem_append_left _, fun _ => id, ?_, fun _ _ => id⟩
  intro mine isMine another member
  obtain before | now := List.mem_append.mp member
  · exact .inl before
  · obtain rfl := List.mem_singleton.mp now
    exact .inr ((invariant.separate other core ne).pending mine _ isMine pending)

/-! ## Ranges and marks -/

variable [DecidableEq Core]

/-- A store that changes no link. -/
theorem step_content (invariant : LazylistInvariant n state path free)
    (here : state.1.thread core = pc) (acts : pc.act state.1.shared call = (pc', list'))
    (records : state.2.record pc state.1.shared call = history')
    (shape : Shape n list' path free) (next : list'.next = state.1.shared.next)
    (lock : list'.lock = state.1.shared.lock)
    (lockFree : list'.freeHeadLock = state.1.shared.freeHeadLock)
    (account : Account list' path history' (Merging (Function.update state.1.thread core pc')))
    (others : ∀ other, other ≠ core →
      Undisturbed n state.1.shared list' path path (state.1.thread other))
    (continues : ∀ other, other ≠ core → Continues state.2 history' (state.1.thread other))
    (locks : pc'.locks = pc.locks) (locksFree : pc'.locksFree = pc.locksFree)
    (fresh : pc'.fresh = pc.fresh) (removed : pc.removed = none) (removed' : pc'.removed = none)
    (pending : pc'.pending = none ∨ (history' = state.2 ∧ pc'.pending = pc.pending))
    (carried : pc'.carried = none) (held : pc'.held (n + 1) = pc.held (n + 1))
    (facts : pc'.Facts n list' path history'.inserted) :
    Coherent n ((lazylistThreads Core).step state (core, call)) := by
  rw [step_eq here, acts, records]
  subst here
  have sane := invariant.sane core
  have owns : ∀ i, pc'.Owns i → (state.1.thread core).Owns i := by
    rintro i (isFresh | isRemoved)
    · exact .inl (fresh ▸ isFresh)
    · rw [removed'] at isRemoved
      cases isRemoved
  have within : ∀ i, Sound n path (Removed state.1.thread) i →
      Sound n path (Removed (Function.update state.1.thread core pc')) i := by
    rw [removed_update_of_eq (removed'.trans removed.symm)]
    exact fun _ => id
  refine ⟨path, free, invariant.of_step shape account within ?_ (fun other ne => ?_)
    fun other ne => ?_⟩
  -- the core that stores
  · refine ⟨facts, ?_, ?_, ?_, fun i mine => sane.owned i (owns i mine), ?_, fun range isPending => ?_,
      fun range isCarried => ?_⟩
    · rw [locks, lock]
      exact sane.locked
    · rw [locksFree, lockFree]
      exact sane.lockedFree
    · rw [held, next]
      exact sane.held
    · rw [removed']
      intro i isRemoved
      cases isRemoved
    · obtain none | ⟨rfl, same⟩ := pending
      · rw [none] at isPending
        cases isPending
      · exact sane.pending range (same ▸ isPending)
    · rw [carried] at isCarried
      cases isCarried
  -- the other cores: no link changes, so that they hold what they held
  · have saneOther := invariant.sane other
    refine saneOther.frame (others other ne) (continues other ne) ?_ ?_ ?_
      fun i owned => (saneOther.owned i owned).2
    · rw [lock]
      exact saneOther.locked
    · rw [lockFree]
      exact saneOther.lockedFree
    · rw [next]
      exact saneOther.held
  -- the core and another one
  · have separate := invariant.separate core other ne.symm
    refine ⟨locks ▸ separate.locks, locksFree ▸ separate.locksFree,
      fun i mine => separate.owned i (owns i mine), fun range range' isPending isPending' => ?_,
      fun range range' isCarried => ?_⟩
    · obtain none | ⟨-, same⟩ := pending
      · rw [none] at isPending
        cases isPending
      · exact separate.pending range range' (same ▸ isPending) isPending'
    · rw [carried] at isCarried
      cases isCarried

theorem record_inserts {history : LazylistHistory} {list : Lazylist}
    (requests : pc.requests call = none) (inserts : pc.inserts = some range)
    (takes : pc.takes = none) (returns : pc.returns list = none) :
    history.record pc list call = { history with inserted := history.inserted ++ [range] } := by
  rw [LazylistHistory.record, requests, inserts, takes, returns]
  simp [LazylistHistory.recordReturn]

theorem holds_inserted {inserted : List LazylistRange} {error : Word} {toDelete : Option Nat}
    (member : range ∈ inserted) :
    (LazylistOutcome.finish (.inserted error) toDelete).Holds inserted (.insert range) := by
  intro other isInsert _
  obtain rfl := LazylistCall.insert.inj isInsert
  exact member

/-- The range of a neighbour grows by the one that is put in. -/
theorem step_extend {stage : InsertStage} {values : LazylistRange}
    (invariant : LazylistInvariant n state path free)
    (here : state.1.thread core = .inserting range pred curr stage)
    (acts : LazylistPc.actInsert range pred curr state.1.shared stage =
      (LazylistPc.inserted range pred curr 0 none, state.1.shared.setRange i values))
    (inserts : (LazylistPc.inserting range pred curr stage).inserts = some range)
    (merging : stage.merging = false) (getting : stage.getting = false)
    (newNode : stage.newNode = none) (neighbour : i ∈ [pred, curr]) (onPath : i ∈ path)
    (insertable : Insertable values)
    (joined : values.toSet = (state.1.shared.range i).toSet ∪ range.toSet) :
    Coherent n ((lazylistThreads Core).step state (core, call)) := by
  have old : ∀ x ∈ (state.1.shared.range i).toSet, x ∈ values.toSet := fun x member =>
    joined ▸ Set.mem_union_left _ member
  have new : ∀ x ∈ range.toSet, x ∈ values.toSet := fun x member =>
    joined ▸ Set.mem_union_right _ member
  have grown : ∀ x ∈ values.toSet, x ∈ (state.1.shared.range i).toSet ∨ x ∈ range.toSet :=
    fun x member => (Set.mem_union _ _ _).mp (joined ▸ member)
  have neighbours := (invariant.facts_at here).1
  have pending : (LazylistPc.inserting range pred curr stage).pending = some range := by
    simp [LazylistPc.pending, merging]
  have merges : (LazylistPc.inserting range pred curr stage).merges = none := by
    simp [LazylistPc.merges, merging]
  obtain ⟨-, requested, apart⟩ := invariant.pending_at here pending
  have locked : i ∈ (state.1.thread core).locks := by rwa [here]
  have alone := invariant.not_merging locked (by rw [here, merges])
  have below := invariant.shape.lt_of_path onPath
  -- the right bound that others may have read only moves up
  have grows : state.1.shared.right i ≤ values.right :=
    (old _ ⟨(invariant.account.insertable i onPath).ordered, le_rfl⟩).2
  refine invariant.step_content here acts (record_inserts rfl inserts rfl rfl)
    (invariant.shape.setRange (by omega) (by omega)) next_setRange lock_setRange rfl ?_
    (fun other ne => (invariant.foreign_of_path locked (List.mem_cons_of_mem n onPath) ne).setRange
      fun _ => grows)
    (fun other ne => invariant.continues_insert (by rw [here, pending]) ne) rfl getting.symm
    newNode.symm rfl rfl (.inl rfl) rfl rfl
    ⟨neighbours.ne, holds_inserted (List.mem_append_right _ List.mem_cons_self)⟩
  rw [merging_update_of_eq (by rw [here, merges]; rfl)]
  refine invariant.account.grow onPath range_setRange insertable requested apart old new
    (fun x member => (grown x member).imp_right .inl) (fun _ _ => id) alone fun j merges => ?_
  exact absurd merges (alone j).1

theorem step_extendPred (invariant : LazylistInvariant n state path free)
    (here : state.1.thread core = .inserting range pred curr .extendPred) :
    Coherent n ((lazylistThreads Core).step state (core, call)) := by
  obtain ⟨neighbours, notHead, next⟩ := invariant.facts_at here
  obtain ⟨insertable, -, -⟩ := invariant.pending_at here rfl
  have onPath := (List.mem_cons.mp neighbours.member).resolve_left notHead
  have old := invariant.account.insertable pred onPath
  have ordered := insertable.ordered
  have ordered' := old.ordered
  refine invariant.step_extend here rfl rfl rfl rfl rfl (by simp) onPath
    ⟨old.above, ?_, insertable.below⟩ (Interval.toSet_join ordered' ordered next)
  show (state.1.shared.range pred).left ≤ range.right
  unfold Lazylist.right at next
  omega

theorem step_extendCurr (invariant : LazylistInvariant n state path free)
    (here : state.1.thread core = .inserting range pred curr .extendCurr) :
    Coherent n ((lazylistThreads Core).step state (core, call)) := by
  obtain ⟨neighbours, notLast, next⟩ := invariant.facts_at here
  obtain ⟨insertable, -, -⟩ := invariant.pending_at here rfl
  have onPath := neighbours.curr_mem invariant.shape notLast
  have old := invariant.account.insertable curr onPath
  have ordered := insertable.ordered
  have ordered' := old.ordered
  refine invariant.step_extend here rfl rfl rfl rfl rfl (by simp) onPath
    ⟨insertable.above, ?_, old.below⟩ ?_
  · show range.left ≤ (state.1.shared.range curr).right
    unfold Lazylist.left at next
    omega
  · rw [Set.union_comm]
    exact Interval.toSet_join ordered ordered' next

/-- The first of the two nodes gets the range of all three, and from then on the second one is
    being merged. -/
theorem step_mergeStore (invariant : LazylistInvariant n state path free)
    (here : state.1.thread core = .inserting range pred curr (.mergeStore right)) :
    Coherent n ((lazylistThreads Core).step state (core, call)) := by
  obtain ⟨neighbours, ⟨notHead, next⟩, ⟨notLast, next'⟩, rfl⟩ := invariant.facts_at here
  obtain ⟨insertable, requested, apart⟩ := invariant.pending_at here rfl
  have onPath := (List.mem_cons.mp neighbours.member).resolve_left notHead
  have onPath' := neighbours.curr_mem invariant.shape notLast
  have old := invariant.account.insertable pred onPath
  have old' := invariant.account.insertable curr onPath'
  have ordered := insertable.ordered
  have ordered' := old.ordered
  have ordered'' := old'.ordered
  -- the range that is put in closes the gap between the two
  have bridged : ∀ x,
      x ∈ (⟨state.1.shared.left pred, state.1.shared.right curr⟩ : LazylistRange).toSet ↔
        (x ∈ (state.1.shared.range pred).toSet ∨ x ∈ range.toSet) ∨
          x ∈ (state.1.shared.range curr).toSet :=
    Set.ext_iff.mp (Interval.toSet_bridge ordered' ordered ordered'' next next')
  have locked : pred ∈ (state.1.thread core).locks ∧ curr ∈ (state.1.thread core).locks := by
    simp [here, LazylistPc.locks]
  -- a node that this core has locked is in nobody else's merge
  have alone := invariant.not_merging locked.1 (by rw [here]; rfl)
  have alone' := invariant.not_merging locked.2 (by rw [here]; rfl)
  have below := invariant.shape.lt_of_path onPath
  unfold Lazylist.right at next
  unfold Lazylist.left at next'
  -- from here on the elements of the second node are counted for the first one
  have merging : ∀ j k, Merging (Function.update state.1.thread core
      (.inserting range pred curr .mergeMark)) j k ↔
        (j = pred ∧ k = curr) ∨ Merging state.1.thread j k := by
    intro j k
    rw [merging_update_of_none (by rw [here]; rfl)]
    refine or_congr_left ?_
    show some (pred, curr) = some (j, k) ↔ j = pred ∧ k = curr
    rw [Option.some_inj, Prod.mk.injEq]
    exact and_congr eq_comm eq_comm
  refine invariant.step_content here rfl (record_inserts rfl rfl rfl rfl)
    (invariant.shape.setRange (by omega) (by omega)) next_setRange lock_setRange rfl ?_
    (fun other ne => (invariant.foreign_of_path locked.1 neighbours.member ne).setRange fun _ => ?_)
    (fun other ne => invariant.continues_insert (by rw [here]; rfl) ne) rfl rfl rfl rfl rfl (.inl rfl)
    rfl rfl ⟨?_, ?_⟩
  · refine invariant.account.grow onPath range_setRange ⟨old.above, ?_, old'.below⟩ requested apart
      ?_ ?_ ?_ (fun j k merges => (merging j k).mpr (.inr merges)) alone ?_
    · show (state.1.shared.range pred).left ≤ (state.1.shared.range curr).right
      omega
    · exact fun x member => (bridged x).mpr (.inl (.inl member))
    · exact fun x member => (bridged x).mpr (.inl (.inr member))
    · intro x member
      obtain (inPred | inRange) | inCurr := (bridged x).mp member
      · exact .inl inPred
      · exact .inr (.inl inRange)
      · exact .inr (.inr ⟨curr, onPath', (merging pred curr).mpr (.inl ⟨rfl, rfl⟩), inCurr⟩)
    · intro j merges
      obtain ⟨-, rfl⟩ | merges := (merging pred j).mp merges
      · exact alone'
      · exact absurd merges (alone j).1
  · show (state.1.shared.range pred).right ≤ (state.1.shared.range curr).right
    omega
  · exact ⟨neighbours.member, by rw [next_setRange]; exact neighbours.next, neighbours.ne,
      neighbours.inside⟩
  · refine ⟨notHead, notLast, ?_, ?_, List.mem_append_right _ List.mem_cons_self⟩
    · simp only [Lazylist.left, range_setRange, Function.update_self,
        Function.update_of_ne neighbours.ne.symm]
      omega
    · simp only [Lazylist.right, range_setRange, Function.update_self,
        Function.update_of_ne neighbours.ne.symm]

/-- A store to a mark, of a node on the path that is locked. -/
theorem step_mark (invariant : LazylistInvariant n state path free)
    (here : state.1.thread core = pc) (acts : pc.act state.1.shared call =
      (pc', state.1.shared.setMark i true))
    (records : state.2.record pc state.1.shared call = state.2) (locked : i ∈ pc.locks)
    (onPath : i ∈ n :: path) (locks : pc'.locks = pc.locks) (locksFree : pc'.locksFree = pc.locksFree)
    (fresh : pc'.fresh = pc.fresh) (removed : pc.removed = none) (removed' : pc'.removed = none)
    (merges : pc'.merges = pc.merges) (pending : pc'.pending = none) (carried : pc'.carried = none)
    (held : pc'.held (n + 1) = pc.held (n + 1))
    (facts : pc'.Facts n (state.1.shared.setMark i true) path state.2.inserted) :
    Coherent n ((lazylistThreads Core).step state (core, call)) := by
  refine invariant.step_content here acts records invariant.shape.setMark rfl rfl rfl ?_
    (fun other ne => (invariant.foreign_of_path (by rwa [here]) onPath ne).setMark)
    (fun _ _ => .refl) locks locksFree fresh removed removed' (.inl pending) carried held facts
  rw [merging_update_of_eq (by rw [here, merges])]
  exact { invariant.account with }

theorem step_mergeMark (invariant : LazylistInvariant n state path free)
    (here : state.1.thread core = .inserting range pred curr .mergeMark) :
    Coherent n ((lazylistThreads Core).step state (core, call)) := by
  obtain ⟨neighbours, absorbs⟩ := invariant.facts_at here
  have onPath := neighbours.curr_mem invariant.shape absorbs.notLast
  have below := invariant.shape.lt_of_path onPath
  have acts : (LazylistPc.inserting range pred curr .mergeMark).act state.1.shared call =
      (.inserting range pred curr .mergeNext, state.1.shared.setMark curr true) := by
    rw [LazylistPc.act, LazylistPc.actInsert, invariant.shape.idx curr (by omega)]
  refine invariant.step_mark here acts (record_eq rfl rfl rfl rfl)
    (show curr ∈ [pred, curr] by simp) (List.mem_cons_of_mem n onPath) rfl rfl rfl rfl rfl rfl rfl rfl
    rfl ⟨{ neighbours with }, { absorbs with }, ?_⟩
  rw [marks_setMark, Function.update_self]

theorem step_popMark (invariant : LazylistInvariant n state path free)
    (here : state.1.thread core = .popping rangeLeft front frontNext (.mark range)) :
    Coherent n ((lazylistThreads Core).step state (core, call)) := by
  obtain ⟨neighbours, notHead, same⟩ := invariant.facts_at here
  have onPath := (List.mem_cons.mp neighbours.member).resolve_left notHead
  have below := invariant.shape.lt_of_path onPath
  have acts : (LazylistPc.popping rangeLeft front frontNext (.mark range)).act state.1.shared call =
      (.popping rangeLeft front frontNext (.store range), state.1.shared.setMark front true) := by
    rw [LazylistPc.act, LazylistPc.actPop, invariant.shape.idx front (by omega)]
  refine invariant.step_mark here acts (record_eq rfl rfl rfl rfl)
    (show front ∈ [front, frontNext] by simp) neighbours.member rfl rfl rfl rfl rfl rfl rfl rfl rfl
    ⟨{ neighbours with }, notHead, same, ?_⟩
  rw [marks_setMark, Function.update_self]

/-! ## A new node -/

/-- A store to a new node, which is not on the path. -/
theorem step_new {stage stage' : InsertStage} (invariant : LazylistInvariant n state path free)
    (here : state.1.thread core = .inserting range pred curr stage)
    (acts : LazylistPc.actInsert range pred curr state.1.shared stage =
      (.inserting range pred curr stage', list'))
    (inserts : (LazylistPc.inserting range pred curr stage).inserts = none)
    (newNode : stage'.newNode = stage.newNode) (getting : stage'.getting = stage.getting)
    (merging : stage'.merging = stage.merging) (shape : Shape n list' path free)
    (next : list'.next = state.1.shared.next) (lock : list'.lock = state.1.shared.lock)
    (lockFree : list'.freeHeadLock = state.1.shared.freeHeadLock)
    (ranges : ∀ i ∈ path, list'.range i = state.1.shared.range i)
    (others : ∀ other, other ≠ core →
      Undisturbed n state.1.shared list' path path (state.1.thread other))
    (facts : stage'.Facts n list' state.2.inserted range pred curr) :
    Coherent n ((lazylistThreads Core).step state (core, call)) := by
  have neighbours := (invariant.facts_at here).1
  have merges : (LazylistPc.inserting range pred curr stage').merges =
      (LazylistPc.inserting range pred curr stage).merges := by
    simp only [LazylistPc.merges, merging]
  have pending : (LazylistPc.inserting range pred curr stage').pending =
      (LazylistPc.inserting range pred curr stage).pending := by
    simp only [LazylistPc.pending, merging]
  refine invariant.step_content here acts (record_eq rfl inserts rfl rfl) shape next lock lockFree ?_
    others (fun _ _ => .refl) rfl getting newNode rfl rfl (.inr ⟨rfl, pending⟩) rfl rfl ⟨?_, facts⟩
  · rw [merging_update_of_eq (by rw [here, merges])]
    exact invariant.account.congr ranges
  · exact ⟨neighbours.member, by rw [next]; exact neighbours.next, neighbours.ne, neighbours.inside⟩

theorem step_newRange {stage stage' : InsertStage} {values : LazylistRange}
    (invariant : LazylistInvariant n state path free)
    (here : state.1.thread core = .inserting range pred curr stage)
    (acts : LazylistPc.actInsert range pred curr state.1.shared stage =
      (.inserting range pred curr stage', state.1.shared.setRange newNode values))
    (inserts : (LazylistPc.inserting range pred curr stage).inserts = none)
    (isNew : stage.newNode = some newNode) (isNew' : stage'.newNode = some newNode)
    (getting : stage'.getting = stage.getting) (merging : stage'.merging = stage.merging)
    (facts : stage'.Facts n (state.1.shared.setRange newNode values) state.2.inserted range pred
      curr) :
    Coherent n ((lazylistThreads Core).step state (core, call)) := by
  have fresh : (state.1.thread core).fresh = some newNode := by rwa [here]
  obtain ⟨below, notPath, -⟩ := (invariant.sane core).owned newNode (.inl fresh)
  refine invariant.step_new here acts inserts (isNew'.trans isNew.symm) getting merging
    (invariant.shape.setRange (by omega) (by omega)) next_setRange lock_setRange rfl
    (fun i onPath => ?_) (fun other ne => ?_) facts
  · rw [range_setRange, Function.update_of_ne (ne_of_mem_of_not_mem onPath notPath)]
  · obtain ⟨foreign, notHeld⟩ := invariant.foreign_of_fresh fresh ne
    exact foreign.setRange fun held => absurd held notHeld

theorem step_newLeft (invariant : LazylistInvariant n state path free)
    (here : state.1.thread core = .inserting range pred curr (.newLeft newNode)) :
    Coherent n ((lazylistThreads Core).step state (core, call)) := by
  refine invariant.step_newRange here rfl rfl rfl rfl rfl rfl ?_
  rw [InsertStage.Facts, Lazylist.left, range_setRange, Function.update_self]

theorem step_newRight (invariant : LazylistInvariant n state path free)
    (here : state.1.thread core = .inserting range pred curr (.newRight newNode)) :
    Coherent n ((lazylistThreads Core).step state (core, call)) := by
  obtain ⟨-, same⟩ := invariant.facts_at here
  refine invariant.step_newRange here rfl rfl rfl rfl rfl rfl ?_
  rw [InsertStage.Facts, range_setRange, Function.update_self,
    show state.1.shared.left newNode = range.left from same]

theorem step_newMark (invariant : LazylistInvariant n state path free)
    (here : state.1.thread core = .inserting range pred curr (.newMark newNode)) :
    Coherent n ((lazylistThreads Core).step state (core, call)) := by
  obtain ⟨-, same⟩ := invariant.facts_at here
  have fresh : (state.1.thread core).fresh = some newNode := by rw [here]; rfl
  obtain ⟨below, -⟩ := (invariant.sane core).owned newNode (.inl fresh)
  have acts : LazylistPc.actInsert range pred curr state.1.shared (.newMark newNode) =
      (.inserting range pred curr (.newLock newNode), state.1.shared.setMark newNode false) := by
    rw [LazylistPc.actInsert, invariant.shape.idx newNode (by omega)]
  exact invariant.step_new here acts rfl rfl rfl rfl invariant.shape.setMark rfl rfl rfl
    (fun _ _ => rfl) (fun other ne => (invariant.foreign_of_fresh fresh ne).1.setMark) same

/-- Nobody else has the lock of a new node, so that storing 0 to it gives no lock away. -/
theorem step_newLock (invariant : LazylistInvariant n state path free)
    (here : state.1.thread core = .inserting range pred curr (.newLock newNode)) :
    Coherent n ((lazylistThreads Core).step state (core, call)) := by
  have facts := invariant.facts_at here
  have held := fun i => invariant.within_held here (i := i)
  have fresh : (state.1.thread core).fresh = some newNode := by rw [here]; rfl
  have notSound := invariant.not_sound fresh
  refine invariant.step_clearLock here rfl (record_eq rfl rfl rfl rfl)
    ⟨rfl, rfl, rfl, fun _ => id, fun _ => id⟩ (.inr rfl) (fun j mine => ⟨?_, mine⟩) rfl facts held
  rintro rfl
  exact notSound (held j mine).here

end LazylistInvariant

end Pspin
