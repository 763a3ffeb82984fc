import Pspin.Ooorb.LazylistStores

/-! # Steps that change a link

A node gets its place on the path, or loses it to the core that took it off.  Between the
two it is free, or belongs to one core.
-/

namespace Pspin

open Clocked Lazylist

/-! ## The path and the free nodes -/

namespace Shape

variable {n : Nat} {list : Lazylist} {path free : List Nat} {pred node nextIdx : Nat}

/-- The path and the free nodes after a store to a link. -/
theorem relink {path' : List Nat} (shape : Shape n list path free) (notLast : pred ≠ n + 1)
    (notFree : pred ∉ free)
    (linked : Clocked.Path (Function.update list.next pred nextIdx) n (n :: path') (n + 1))
    (nodup : path'.Nodup) (apart : ∀ i ∈ path', i < n ∧ i ∉ free) :
    Shape n (list.setNext pred nextIdx) path' free where
  small := shape.small
  head := shape.head
  idx := by rw [idx_setNext]; exact shape.idx
  sentinelLeft := by rw [range_setNext]; exact shape.sentinelLeft
  sentinelRight := by rw [range_setNext]; exact shape.sentinelRight
  ended := by rw [next_setNext, Function.update_of_ne notLast.symm]; exact shape.ended
  linked := by rw [next_setNext]; exact linked
  linkedFree := by rw [next_setNext]; exact shape.linkedFree.update_of_notMem notFree
  nodup := by
    have nodupAll := (List.nodup_cons.mp shape.nodup)
    have nodupFree := (List.nodup_append.mp nodupAll.2).2.1
    refine List.nodup_cons.mpr ⟨?_, List.nodup_append'.mpr ⟨nodup, nodupFree, ?_⟩⟩
    · intro member
      obtain onPath | isFree := List.mem_append.mp member
      · exact lt_irrefl n (apart n onPath).1
      · exact nodupAll.1 (List.mem_append_right path isFree)
    · exact fun i onPath => (apart i onPath).2
  below i member := by
    obtain onPath | isFree := List.mem_append.mp member
    · exact (apart i onPath).1
    · exact shape.below i (List.mem_append_right path isFree)

/-- A store to the link of a node that is nowhere. -/
theorem setNext (shape : Shape n list path free) (below : node < n) (notPath : node ∉ path)
    (notFree : node ∉ free) : Shape n (list.setNext node nextIdx) path free := by
  have nodup := (List.nodup_append.mp (List.nodup_cons.mp shape.nodup).2).1
  refine shape.relink (by omega) notFree (shape.linked.update_of_notMem ?_) nodup fun i onPath =>
    ⟨shape.lt_of_path onPath, shape.notMem_free (List.mem_cons_of_mem n onPath)⟩
  exact fun member => (List.mem_cons.mp member).elim (by omega) notPath

/-- What a path from the left sentinel has after it. -/
theorem tail_of_path {next : Nat → Nat} {cells : List Nat} {keeps : Nat → Prop}
    (linked : Clocked.Path next n cells (n + 1)) (nodup : cells.Nodup) (members : ∀ i, i ∈ cells ↔ keeps i)
    (head : keeps n) : ∃ path', cells = n :: path' ∧ path'.Nodup ∧
      ∀ i, i ∈ path' ↔ i ≠ n ∧ keeps i := by
  cases cells with
  | nil => exact absurd ((members n).mpr head) List.not_mem_nil
  | cons first path' =>
    obtain ⟨rfl, -⟩ := linked
    obtain ⟨absent, nodup⟩ := List.nodup_cons.mp nodup
    refine ⟨path', rfl, nodup, fun i => ?_⟩
    rw [← members i, List.mem_cons]
    constructor
    · intro member
      exact ⟨fun same => absent (same ▸ member), .inr member⟩
    · exact fun ⟨ne, member⟩ => member.resolve_left ne

/-- A node that is nowhere gets its place after one on the path. -/
theorem link (shape : Shape n list path free) (member : pred ∈ n :: path) (below : node < n)
    (notPath : node ∉ path) (notFree : node ∉ free) (same : list.next node = list.next pred) :
    ∃ path', Shape n (list.setNext pred node) path' free ∧
      ∀ i, i ∈ path' ↔ i = node ∨ i ∈ path := by
  have le := shape.le_of_path member
  have nodupAll := shape.nodup
  rw [← List.cons_append] at nodupAll
  have absent : node ∉ n :: path := fun inside => (List.mem_cons.mp inside).elim (by omega) notPath
  obtain ⟨cells, linked, nodup, members⟩ :=
    shape.linked.insert (List.nodup_append.mp nodupAll).1 member absent same
  obtain ⟨path', rfl, nodup, members⟩ := tail_of_path linked nodup members (.inr List.mem_cons_self)
  have members : ∀ i, i ∈ path' ↔ i = node ∨ i ∈ path := by
    have notHead := shape.notMem_path
    intro i
    rw [members, List.mem_cons]
    grind
  refine ⟨path', shape.relink (by omega) (shape.notMem_free member) linked nodup ?_, members⟩
  intro i onPath
  obtain rfl | onPath := (members i).mp onPath
  · exact ⟨below, notFree⟩
  · exact ⟨shape.lt_of_path onPath, shape.notMem_free (List.mem_cons_of_mem n onPath)⟩

/-- A node that follows one on the path loses its place. -/
theorem unlink (shape : Shape n list path free) (member : pred ∈ n :: path)
    (onward : list.next pred = node) (onPath : node ∈ path) :
    ∃ path', Shape n (list.setNext pred (list.next node)) path' free ∧
      ∀ i, i ∈ path' ↔ i ≠ node ∧ i ∈ path := by
  subst onward
  have le := shape.le_of_path member
  have nodupAll := shape.nodup
  rw [← List.cons_append] at nodupAll
  have absent : n + 1 ∉ n :: path := fun inside => absurd (shape.le_of_path inside) (by omega)
  obtain ⟨cells, linked, nodup, members⟩ := shape.linked.remove (List.nodup_append.mp nodupAll).1
    absent member (List.mem_cons_of_mem n onPath)
  obtain ⟨path', rfl, nodup, members⟩ := tail_of_path linked nodup members
    ⟨(shape.next_ne member).symm, List.mem_cons_self⟩
  have members : ∀ i, i ∈ path' ↔ i ≠ list.next pred ∧ i ∈ path := by
    have notHead := shape.notMem_path
    intro i
    rw [members, List.mem_cons]
    grind
  refine ⟨path', shape.relink (by omega) (shape.notMem_free member) linked nodup ?_, members⟩
  intro i onPath
  have onPath := ((members i).mp onPath).2
  exact ⟨shape.lt_of_path onPath, shape.notMem_free (List.mem_cons_of_mem n onPath)⟩

/-- The first free node is taken. -/
theorem getFree (shape : Shape n list path (node :: free)) :
    Shape n (list.setFreeHead (list.next node)) path free where
  small := shape.small
  head := shape.head
  idx := shape.idx
  sentinelLeft := shape.sentinelLeft
  sentinelRight := shape.sentinelRight
  ended := shape.ended
  linked := shape.linked
  linkedFree := by
    obtain ⟨-, linked⟩ := shape.linkedFree
    exact linked
  nodup := shape.nodup.sublist (((List.sublist_cons_self node free).append_left path).cons_cons n)
  below i member := shape.below i
    ((List.mem_append.mp member).elim (List.mem_append_left _)
      fun isFree => List.mem_append_right _ (List.mem_cons_of_mem node isFree))

/-- A node that is nowhere becomes the first free one. -/
theorem putFree (shape : Shape n list path free) (below : node < n) (notPath : node ∉ path)
    (notFree : node ∉ free) (link : list.next node = list.freeHeadIdx) :
    Shape n (list.setFreeHead node) path (node :: free) where
  small := shape.small
  head := shape.head
  idx := shape.idx
  sentinelLeft := shape.sentinelLeft
  sentinelRight := shape.sentinelRight
  ended := shape.ended
  linked := shape.linked
  linkedFree := ⟨rfl, by rw [next_setFreeHead, link]; exact shape.linkedFree⟩
  nodup := by
    have nodup := shape.nodup
    have perm : (n :: (path ++ node :: free)).Perm (node :: n :: (path ++ free)) :=
      (List.perm_middle.cons n).trans (.swap node n _)
    rw [perm.nodup_iff, List.nodup_cons]
    refine ⟨fun inside => ?_, nodup⟩
    obtain rfl | inside := List.mem_cons.mp inside
    · exact lt_irrefl _ below
    · exact (List.mem_append.mp inside).elim notPath notFree
  below i member := by
    obtain onPath | isFree := List.mem_append.mp member
    · exact shape.lt_of_path onPath
    · obtain rfl | isFree := List.mem_cons.mp isFree
      · exact below
      · exact shape.below i (List.mem_append_right path isFree)

end Shape

namespace LazylistInvariant

variable {Core : Type} {n : Nat} {state : LazylistState Core}
  {path path' free free' : List Nat} {core : Core} {pc pc' : LazylistPc}
  {call call' : LazylistCall} {range : LazylistRange} {rangeLeft : Int}
  {pred curr front frontNext newNode freedNode i : Nat} {result : LazylistResult}
  {list' : Lazylist} {history' : LazylistHistory}

/-- A locked node is not one that a core removes, as long as the core has it locked too. -/
theorem member_of_ne (invariant : LazylistInvariant n state path free) {other : Core}
    (ne : other ≠ core) (locked : i ∈ (state.1.thread core).locks)
    (members : ∀ j, j ∈ path' ↔ j ≠ i ∧ j ∈ path) :
    ∀ j ∈ (state.1.thread other).locks, j ∈ n :: path → j ∈ n :: path' := by
  intro j theirs onPath
  refine List.mem_cons.mpr ((List.mem_cons.mp onPath).imp_right fun onPath => ?_)
  refine (members j).mpr ⟨?_, onPath⟩
  rintro rfl
  exact (invariant.separate other core ne).locks j theirs locked

variable [DecidableEq Core]

/-- A step that changes no lock, put together from what it does to the others. -/
theorem step_relink {sound : Nat → Prop} (invariant : LazylistInvariant n state path free)
    (here : state.1.thread core = pc) (acts : pc.act state.1.shared call = (pc', list'))
    (records : state.2.record pc state.1.shared call = history') (shape : Shape n list' path' free')
    (lock : list'.lock = state.1.shared.lock)
    (lockFree : list'.freeHeadLock = state.1.shared.freeHeadLock)
    (account : Account list' path' history' (Merging (Function.update state.1.thread core pc')))
    (within : ∀ i, sound i → Sound n path' (Removed (Function.update state.1.thread core pc')) i)
    (own : Sane n list' path' free' history' sound pc')
    (undisturbed : ∀ other, other ≠ core →
      Undisturbed n state.1.shared list' path path' (state.1.thread other))
    (continues : ∀ other, other ≠ core → Continues state.2 history' (state.1.thread other))
    (held : ∀ other, other ≠ core → ∀ i ∈ (state.1.thread other).held (n + 1),
      Within list'.next (n + 1) sound i)
    (owned : ∀ other, other ≠ core → ∀ i, (state.1.thread other).Owns i → i ∉ path' ∧ i ∉ free')
    (separate : ∀ other, other ≠ core → Separate pc' (state.1.thread other)) :
    Coherent n ((lazylistThreads Core).step state (core, call)) := by
  rw [step_eq here, acts, records]
  refine ⟨path', free', invariant.of_step shape account within own (fun other ne => ?_) separate⟩
  refine (invariant.sane other).frame (undisturbed other ne) (continues other ne) ?_ ?_
    (held other ne) (owned other ne)
  · rw [lock]
    exact (invariant.sane other).locked
  · rw [lockFree]
    exact (invariant.sane other).lockedFree

/-! ## Putting a node on the path -/

/-- The link of a new node, which nobody else follows. -/
theorem step_newNext (invariant : LazylistInvariant n state path free)
    (here : state.1.thread core = .inserting range pred curr (.newNext newNode)) :
    Coherent n ((lazylistThreads Core).step state (core, call)) := by
  have sane := invariant.sane core
  have fresh : (state.1.thread core).fresh = some newNode := by rw [here]; rfl
  have notSound := invariant.not_sound fresh
  obtain ⟨below, notPath, notFree⟩ := sane.owned newNode (.inl fresh)
  rw [here] at sane
  obtain ⟨neighbours, same⟩ := sane.facts
  have held := fun i => invariant.within_held here (i := i)
  have currLt := invariant.sound_lt (held curr (by simp [LazylistPc.held])).here
  -- a node that is not on the path is none of the two neighbours
  have predNe : pred ≠ newNode := by
    rintro rfl
    exact notSound (held pred List.mem_cons_self).here
  have acts : (LazylistPc.inserting range pred curr (.newNext newNode)).act state.1.shared call =
      (.inserting range pred curr (.newLink newNode), state.1.shared.setNext newNode curr) := by
    rw [LazylistPc.act, LazylistPc.actInsert, invariant.shape.idx curr currLt]
  have apart : ∀ i, Within state.1.shared.next (n + 1) (Sound n path (Removed state.1.thread)) i →
      Within (state.1.shared.setNext newNode curr).next (n + 1)
        (Sound n path (Removed state.1.thread)) i := by
    intro i within
    rw [next_setNext]
    exact (within.update_of_not_reaches fun reached => notSound (within newNode reached)).mono
      fun _ => And.left
  refine invariant.step_relink here acts (record_eq rfl rfl rfl rfl)
    (invariant.shape.setNext below notPath notFree) lock_setNext rfl ?_ ?_ ?_ (fun other ne => ?_)
    (fun _ _ => .refl) (fun other _ i theirs => apart i ((invariant.sane other).held i theirs))
    (fun other _ i owns => ((invariant.sane other).owned i owns).2) fun other ne => ?_
  · rw [merging_update_of_eq (by rw [here]; rfl)]
    exact invariant.account.congr fun i _ => congrFun range_setNext i
  · rw [removed_update_of_eq (by rw [here]; rfl)]
    exact fun _ => id
  · refine ⟨⟨⟨neighbours.member, ?_, neighbours.ne, neighbours.inside⟩, ?_, ?_⟩, ?_,
      sane.lockedFree, fun i mine => apart i (held i mine), sane.owned, fun _ removed => (by cases removed),
      sane.pending, sane.carried⟩
    · rw [next_setNext, Function.update_of_ne predNe]
      exact neighbours.next
    · rw [range_setNext]
      exact same
    · rw [next_setNext, Function.update_self]
    · rw [lock_setNext]
      exact sane.locked
  · obtain ⟨⟨notLocked, notOwned⟩, -⟩ := invariant.foreign_of_fresh fresh ne
    exact .setNext notOwned (fun locked => absurd locked notLocked)
      (invariant.shape.freeHead_ne below.le notFree) fun _ _ => id
  · have separate := invariant.separate core other ne.symm
    rw [here] at separate
    exact ⟨separate.locks, separate.locksFree, separate.owned, separate.pending, separate.carried⟩

/-- The range is put in: its node gets its place between the two neighbours. -/
theorem step_newLink (invariant : LazylistInvariant n state path free)
    (here : state.1.thread core = .inserting range pred curr (.newLink newNode)) :
    Coherent n ((lazylistThreads Core).step state (core, call)) := by
  have sane := invariant.sane core
  have separate := fun other ne => invariant.separate core other ne
  have fresh : (state.1.thread core).fresh = some newNode := by rw [here]; rfl
  obtain ⟨below, notPath, notFree⟩ := sane.owned newNode (.inl fresh)
  have continues : ∀ other, other ≠ core → Continues state.2
      { state.2 with inserted := state.2.inserted ++ [range] } (state.1.thread other) :=
    fun other ne => invariant.continues_insert (by rw [here]; rfl) ne
  have locked : pred ∈ (state.1.thread core).locks := by
    rw [here]
    exact List.mem_cons_self
  rw [here] at sane
  simp only [here] at separate
  obtain ⟨neighbours, same, onward⟩ := sane.facts
  obtain ⟨insertable, requested, apart⟩ := sane.pending range rfl
  obtain ⟨path', shape, members⟩ := invariant.shape.link neighbours.member below notPath notFree
    (onward.trans neighbours.next.symm)
  have acts : (LazylistPc.inserting range pred curr (.newLink newNode)).act state.1.shared call =
      (LazylistPc.inserted range pred curr 0 none, state.1.shared.setNext pred newNode) := by
    rw [LazylistPc.act, LazylistPc.actInsert, invariant.shape.idx newNode (by omega)]
  have grows : ∀ i, Sound n path (Removed state.1.thread) i →
      Sound n path' (Removed state.1.thread) i := fun i sound =>
    sound.imp_left fun onPath => List.mem_cons.mpr
      ((List.mem_cons.mp onPath).imp_right fun onPath => (members i).mpr (.inr onPath))
  -- one comes from the new node to where its neighbour leads
  have inside : Within state.1.shared.next (n + 1) (Sound n path' (Removed state.1.thread)) newNode := by
    refine .of_onward (.inl (List.mem_cons_of_mem n ((members newNode).mpr (.inl rfl)))) ?_
    rw [onward]
    exact (invariant.within_held here (show curr ∈ [pred, curr] by simp)).mono grows
  have within : ∀ i, Within state.1.shared.next (n + 1) (Sound n path (Removed state.1.thread)) i →
      Within (state.1.shared.setNext pred newNode).next (n + 1)
        (Sound n path' (Removed state.1.thread)) i := by
    intro i within
    rw [next_setNext]
    exact (within.mono grows).update inside
  refine invariant.step_relink here acts (record_inserts rfl rfl rfl rfl) shape lock_setNext rfl ?_ ?_
    ?_ (fun other ne => ?_) continues
    (fun other _ i theirs => within i ((invariant.sane other).held i theirs))
    (fun other ne i owns => ?_) fun other ne => ?_
  -- the range counts from here on
  · rw [merging_update_of_eq (by rw [here]; rfl)]
    exact invariant.account.link range_setNext notPath members same insertable requested apart
  · rw [removed_update_of_eq (by rw [here]; rfl)]
    exact fun _ => id
  · refine ⟨⟨neighbours.ne, holds_inserted (List.mem_append_right _ List.mem_cons_self)⟩, ?_,
      (fun mine => by cases mine), fun i mine => within i (sane.held i mine), ?_,
      (fun _ removed => by cases removed), (fun _ pending => by cases pending),
      fun _ carried => by cases carried⟩
    · rw [lock_setNext]
      exact sane.locked
    · rintro i (isFresh | isRemoved)
      · cases isFresh
      · cases isRemoved
  -- the predecessor is locked, so that its link is this core's to write
  · obtain ⟨notLocked, notOwned⟩ := invariant.foreign_of_path locked neighbours.member ne
    refine .setNext notOwned (fun locked => absurd locked notLocked)
      (invariant.shape.freeHead_ne (invariant.shape.le_of_path neighbours.member)
        (invariant.shape.notMem_free neighbours.member)) fun j _ onPath => ?_
    exact List.mem_cons.mpr ((List.mem_cons.mp onPath).imp_right fun onPath =>
      (members j).mpr (.inr onPath))
  -- the node that joins the path is one that nobody else owns
  · obtain ⟨-, notPath, notFree⟩ := (invariant.sane other).owned i owns
    refine ⟨fun onPath => ?_, notFree⟩
    obtain rfl | onPath := (members i).mp onPath
    · exact (separate other ne.symm).owned i (.inl rfl) owns
    · exact notPath onPath
  · refine ⟨(separate other ne.symm).locks, (fun mine => by cases mine), ?_,
      (fun _ _ pending => by cases pending), fun _ _ carried => by cases carried⟩
    rintro i (isFresh | isRemoved)
    · cases isFresh
    · cases isRemoved

/-! ## Taking a node off the path -/

/-- A core that has removed a node owns no other one. -/
theorem owns_removed {j : Nat} (fresh : pc.fresh = none) (removed : pc.removed = some freedNode)
    (owns : pc.Owns j) : j = freedNode := by
  rcases owns with isFresh | isRemoved
  · rw [fresh] at isFresh
    cases isFresh
  · exact (Option.some.inj (removed.symm.trans isRemoved)).symm

/-- What is reached past sound nodes still is when a node leaves the path to the core that removes
    it. -/
theorem within_unlink (invariant : LazylistInvariant n state path free)
    (here : state.1.thread core = pc) (onPath : freedNode ∈ path) (notRemoved : pc.removed = none)
    (removed : pc'.removed = some freedNode)
    (members : ∀ j, j ∈ path' ↔ j ≠ freedNode ∧ j ∈ path) {j : Nat}
    (within : Within state.1.shared.next (n + 1) (Sound n path (Removed state.1.thread)) j) :
    Within (state.1.shared.setNext i (state.1.shared.next freedNode)).next (n + 1)
      (Sound n path' (Removed (Function.update state.1.thread core pc'))) j := by
  have below := invariant.shape.lt_of_path onPath
  have inPath := List.mem_cons_of_mem n onPath
  have grows : ∀ j, Sound n path (Removed state.1.thread) j →
      Sound n path' (Removed (Function.update state.1.thread core pc')) j := by
    have none_ : (state.1.thread core).removed = none := by rw [here, notRemoved]
    rintro j (isPath | isLast | theirs)
    · by_cases same : j = freedNode
      · exact .inr (.inr ((removed_update_of_none none_).mpr (.inl (by rw [same, removed]))))
      · exact .inl (List.mem_cons.mpr ((List.mem_cons.mp isPath).imp_right fun isPath =>
          (members j).mpr ⟨same, isPath⟩))
    · exact .inr (.inl isLast)
    · exact .inr (.inr ((removed_update_of_none none_).mpr (.inr theirs)))
  have beyond := (invariant.within_path inPath).onward (by omega)
  rw [next_setNext]
  exact (within.mono grows).update (beyond.mono grows)

/-- A node that a core takes off the path, of which the ranges are accounted for, is the core's
    until it is put among the free ones. -/
theorem step_unlink (invariant : LazylistInvariant n state path free)
    (here : state.1.thread core = pc)
    (acts : pc.act state.1.shared call = (pc', state.1.shared.setNext i (state.1.shared.next freedNode)))
    (records : state.2.record pc state.1.shared call = history')
    (member : i ∈ n :: path) (onward : state.1.shared.next i = freedNode) (onPath : freedNode ∈ path)
    (apart : ∀ other, other ≠ core → i ∈ (state.1.thread other).locks → i = n)
    (locked : freedNode ∈ pc.locks) (notRemoved : pc.removed = none)
    (marked : state.1.shared.marks freedNode = true)
    (account : ∀ path' list', list'.range = state.1.shared.range →
      (∀ j, j ∈ path' ↔ j ≠ freedNode ∧ j ∈ path) →
      Account list' path' history' (Merging (Function.update state.1.thread core pc')))
    (continues : ∀ other, other ≠ core → Continues state.2 history' (state.1.thread other))
    (locks : pc'.locks = pc.locks) (locksFree : pc'.locksFree = false) (fresh : pc'.fresh = none)
    (removed : pc'.removed = some freedNode) (pending : pc'.pending = none)
    (held : pc'.held (n + 1) = pc.held (n + 1))
    (facts : ∀ list' path', pc'.Facts n list' path' history'.inserted)
    (inserted : history'.inserted = state.2.inserted)
    (carried : ∀ range, pc'.carried = some range → range ∈ history'.taken ∧ range ∉ history'.returned)
    (carriedApart : ∀ other, other ≠ core → ∀ range range', pc'.carried = some range →
      (state.1.thread other).carried = some range' → range.Apart range') :
    Coherent n ((lazylistThreads Core).step state (core, call)) := by
  have sane := invariant.sane core
  have separate := fun other ne => invariant.separate core other ne
  have mine : freedNode ∈ (state.1.thread core).locks := by rwa [here]
  rw [here] at sane
  simp only [here] at separate
  obtain ⟨path', shape, members⟩ := invariant.shape.unlink member onward onPath
  have below := invariant.shape.lt_of_path onPath
  have inPath := List.mem_cons_of_mem n onPath
  have owns : ∀ j, pc'.Owns j → j = freedNode := fun j => owns_removed fresh removed
  have within : ∀ j, Within state.1.shared.next (n + 1) (Sound n path (Removed state.1.thread)) j →
      Within (state.1.shared.setNext i (state.1.shared.next freedNode)).next (n + 1)
        (Sound n path' (Removed (Function.update state.1.thread core pc'))) j := fun j =>
    invariant.within_unlink here onPath notRemoved removed members
  refine invariant.step_relink here acts records shape lock_setNext rfl
    (account path' _ range_setNext members) (fun _ => id) ?_ (fun other ne => ?_) continues
    (fun other _ j theirs => within j ((invariant.sane other).held j theirs))
    (fun other ne j owned => ?_) fun other ne => ?_
  -- what the core itself knows and holds
  · refine ⟨facts _ _, ?_, ?_, ?_, ?_, ?_, ?_, carried⟩
    · rw [locks, lock_setNext]
      exact sane.locked
    · rw [locksFree]
      exact fun mine => by cases mine
    · rw [held]
      exact fun j mine => within j (sane.held j mine)
    · intro j mine
      obtain rfl := owns j mine
      exact ⟨below, fun isPath => ((members j).mp isPath).1 rfl, invariant.shape.notMem_free inPath⟩
    · intro j isRemoved
      obtain rfl := owns j (.inr isRemoved)
      rw [marks_setNext, Lazylist.left, Lazylist.right, range_setNext, inserted]
      exact ⟨marked, (invariant.account.insertable j onPath).ordered, fun x inNode =>
        (invariant.account.conserved x).mpr (.inl ⟨j, onPath, inNode⟩)⟩
    · rw [pending]
      exact fun _ isPending => by cases isPending
  -- the link that changes is one that no other core works on
  · refine .setNext (fun owned => ?_) (fun theirs => ?_)
      (invariant.shape.freeHead_ne (invariant.shape.le_of_path member)
        (invariant.shape.notMem_free member)) (invariant.member_of_ne ne mine members)
    · obtain ⟨below, notPath, -⟩ := (invariant.sane other).owned i owned
      obtain rfl | isPath := List.mem_cons.mp member
      · exact lt_irrefl _ below
      · exact notPath isPath
    · have atHead := apart other ne theirs
      refine ⟨atHead, fun theirs' => (separate other ne.symm).locks freedNode locked ?_⟩
      rwa [← onward, atHead]
  -- what others own was not on the path and is not now
  · obtain ⟨-, notPath, notFree⟩ := (invariant.sane other).owned j owned
    exact ⟨fun isPath => notPath ((members j).mp isPath).2, notFree⟩
  · refine ⟨locks ▸ (separate other ne.symm).locks, ?_, fun j mine theirs => ?_, ?_,
      carriedApart other ne⟩
    · rw [locksFree]
      exact fun mine => by cases mine
    · obtain rfl := owns j mine
      exact ((invariant.sane other).owned j theirs).2.1 onPath
    · rw [pending]
      exact fun _ _ isPending => by cases isPending

/-- The second of two nodes that were merged leaves the path. -/
theorem step_mergeLink {nextIdx : Nat} (invariant : LazylistInvariant n state path free)
    (here : state.1.thread core = .inserting range pred curr (.mergeLink nextIdx)) :
    Coherent n ((lazylistThreads Core).step state (core, call)) := by
  obtain ⟨neighbours, absorbs, marked, rfl⟩ := invariant.facts_at here
  have onPath := neighbours.curr_mem invariant.shape absorbs.notLast
  have onPath' := (List.mem_cons.mp neighbours.member).resolve_left absorbs.notHead
  refine invariant.step_unlink here rfl (record_eq rfl rfl rfl rfl) neighbours.member neighbours.next
    onPath (fun other ne theirs => ?_) (show curr ∈ [pred, curr] by simp) rfl marked
    (fun path' list' ranges members => ?_) (fun _ _ => .refl) rfl rfl rfl rfl rfl rfl
    (fun _ _ => ⟨neighbours.ne, holds_inserted absorbs.put⟩) rfl (fun _ carried => by cases carried)
    fun _ _ _ _ carried => by cases carried
  · have mine : pred ∈ (state.1.thread core).locks := by rw [here]; exact List.mem_cons_self
    exact absurd mine ((invariant.separate other core ne).locks pred theirs)
  · refine invariant.account.absorb ranges members ((members pred).mpr ⟨neighbours.ne, onPath'⟩)
      (fun x inCurr => ?_) fun j k _ ne merges => ?_
    · obtain ⟨above, below⟩ := inCurr
      have left : (state.1.shared.range pred).left ≤ (state.1.shared.range curr).left := absorbs.left
      have right : (state.1.shared.range pred).right = (state.1.shared.range curr).right :=
        absorbs.right
      exact ⟨by omega, by omega⟩
    · obtain ⟨other, theirs⟩ := merges
      refine merging_update.mpr (.inr ⟨other, ?_, theirs⟩)
      rintro rfl
      rw [here] at theirs
      obtain ⟨-, rfl⟩ := Prod.mk.inj (Option.some.inj theirs)
      exact ne rfl

/-- A range is taken: the first node leaves the path, if it still is the first one. -/
theorem step_popStore (invariant : LazylistInvariant n state path free)
    (here : state.1.thread core = .popping rangeLeft front frontNext (.store range))
    (isFront : state.1.shared.next state.1.shared.headIdx = front) :
    Coherent n ((lazylistThreads Core).step state (core, call)) := by
  obtain ⟨neighbours, notHead, rfl, marked⟩ := invariant.facts_at here
  have onPath := (List.mem_cons.mp neighbours.member).resolve_left notHead
  have below := invariant.shape.lt_of_path onPath
  have nextLt := invariant.sound_lt
    (invariant.within_held here (show frontNext ∈ [front, frontNext] by simp)).here
  have ordered := (invariant.account.insertable front onPath).ordered
  have locked : front ∈ (state.1.thread core).locks := by
    rw [here]
    exact List.mem_cons_self
  have notTaken : ∀ other ∈ state.2.taken, (state.1.shared.range front).Apart other :=
    invariant.account.takenApart front onPath
  rw [invariant.shape.head] at isFront
  have acts : (LazylistPc.popping rangeLeft front frontNext
      (.store (state.1.shared.range front))).act state.1.shared call =
        (.unlockCurr (.popFront rangeLeft) front frontNext
          (.finish (.popped (some (state.1.shared.range front))) (some front)),
          state.1.shared.setNext n (state.1.shared.next front)) := by
    rw [LazylistPc.act, LazylistPc.actPop, invariant.shape.idx front (by omega),
      invariant.shape.idx frontNext nextLt, invariant.shape.head, neighbours.next]
  have records : state.2.record (.popping rangeLeft front frontNext
      (.store (state.1.shared.range front))) state.1.shared call =
        { state.2 with taken := state.2.taken ++ [state.1.shared.range front] } := by
    simp [LazylistHistory.record, LazylistPc.requests, LazylistPc.inserts, LazylistPc.takes,
      LazylistPc.returns, LazylistHistory.recordReturn]
  refine invariant.step_unlink here acts records List.mem_cons_self isFront onPath
    (fun _ _ _ => rfl) (show front ∈ [front, frontNext] by simp) rfl marked
    (fun path' list' ranges members => ?_) (fun other ne => ?_) rfl rfl rfl rfl rfl rfl
    (fun _ _ => ⟨neighbours.ne, fun _ isInsert => by cases isInsert⟩) rfl
    (fun taken carried => ?_) fun other ne taken taken' carried carried' => ?_
  · rw [merging_update_of_eq (by rw [here]; rfl)]
    exact invariant.account.take ranges onPath members
      (invariant.not_merging locked (by rw [here]; rfl))
  · exact ⟨fun _ => id, fun _ => id, fun _ => List.mem_append_left _, fun _ _ _ => .inl, fun _ _ => id⟩
  · obtain rfl := Option.some.inj carried
    refine ⟨List.mem_append_right _ List.mem_cons_self, fun returned => ?_⟩
    -- it has nothing in common with what was taken before
    have apart := notTaken _ (invariant.account.returned _ returned)
    exact apart.notMem ⟨le_rfl, ordered⟩ ⟨le_rfl, ordered⟩
  · obtain rfl := Option.some.inj carried
    exact notTaken taken' ((invariant.sane other).carried taken' carried').1

/-! ## Free nodes -/

/-- A node leaves the free ones, and only the core that took it knows it. -/
theorem step_getStore {nextIdx : Nat} (invariant : LazylistInvariant n state path free)
    (here : state.1.thread core = .inserting range pred curr (.getStore newNode nextIdx)) :
    Coherent n ((lazylistThreads Core).step state (core, call)) := by
  have sane := invariant.sane core
  have separate := fun other ne => invariant.separate core other ne
  rw [here] at sane
  simp only [here] at separate
  obtain ⟨neighbours, ⟨rfl, notEnd⟩, rfl⟩ := sane.facts
  cases free with
  | nil =>
    have atEnd : state.1.shared.freeHeadIdx = eol := invariant.shape.linkedFree
    exact absurd atEnd notEnd
  | cons node free =>
    obtain ⟨rfl, -⟩ := invariant.shape.linkedFree
    have isFree : state.1.shared.freeHeadIdx ∈ state.1.shared.freeHeadIdx :: free := List.mem_cons_self
    -- nobody else owns a node that is free or on the path
    have fewer : ∀ other i, (state.1.thread other).Owns i → i ∉ path ∧ i ∉ free :=
      fun other i owns => by
        obtain ⟨-, notPath, notFree⟩ := (invariant.sane other).owned i owns
        exact ⟨notPath, List.not_mem_of_not_mem_cons notFree⟩
    have nodup := (List.nodup_cons.mp invariant.shape.nodup).2
    have below := invariant.shape.below _ (List.mem_append_right path isFree)
    have notPath := fun onPath => List.disjoint_of_nodup_append nodup onPath isFree
    have notFree := (List.nodup_cons.mp (List.nodup_append.mp nodup).2.1).1
    refine invariant.step_relink here rfl (record_eq rfl rfl rfl rfl) invariant.shape.getFree rfl rfl
      ?_ ?_ ?_ (fun other ne => ?_) (fun _ _ => .refl)
      (fun other _ => (invariant.sane other).held) (fun other _ => fewer other) fun other ne => ?_
    · rw [merging_update_of_eq (by rw [here]; rfl)]
      exact invariant.account.congr fun _ _ => rfl
    · rw [removed_update_of_eq (by rw [here]; rfl)]
      exact fun _ => id
    · refine ⟨⟨{ neighbours with }, trivial⟩, sane.locked, sane.lockedFree, sane.held, ?_,
        (fun _ removed => by cases removed), sane.pending, sane.carried⟩
      rintro i (isFresh | isRemoved)
      · obtain rfl := Option.some.inj isFresh
        exact ⟨below, notPath, notFree⟩
      · cases isRemoved
    · exact .setFreeHead ((separate other ne.symm).locksFree rfl)
    · refine ⟨(separate other ne.symm).locks, (separate other ne.symm).locksFree, ?_,
        (separate other ne.symm).pending, (separate other ne.symm).carried⟩
      rintro i (isFresh | isRemoved) theirs
      · obtain rfl := Option.some.inj isFresh
        exact ((invariant.sane other).owned _ theirs).2.2 isFree
      · cases isRemoved

/-- The link of a node that was taken off the path leads to the free ones, if nobody else can
    still come across it. -/
theorem step_putNext {nextIdx : Nat} (invariant : LazylistInvariant n state path free)
    (here : state.1.thread core = .putting call' result freedNode (.next nextIdx))
    (alone : ∀ other, other ≠ core → ∀ i ∈ (state.1.thread other).held (n + 1),
      ¬Reaches state.1.shared.next (n + 1) i freedNode) :
    Coherent n ((lazylistThreads Core).step state (core, call)) := by
  have sane := invariant.sane core
  have separate := fun other ne => invariant.separate core other ne
  rw [here] at sane
  simp only [here] at separate
  obtain ⟨isHead, holds⟩ := sane.facts
  obtain ⟨below, notPath, notFree⟩ := sane.owned freedNode (.inr rfl)
  have owns : ∀ i, (LazylistPc.putting call' result freedNode .store).Owns i →
      (LazylistPc.putting call' result freedNode (.next nextIdx)).Owns i := by
    rintro i (isFresh | isRemoved)
    · exact .inr isFresh
    · cases isRemoved
  have apart : ∀ other, other ≠ core → ∀ i ∈ (state.1.thread other).held (n + 1), i ≠ freedNode := by
    rintro other ne i held rfl
    exact alone other ne i held (.here i)
  -- the node is the only one that is no longer somebody's removed one
  have remains : ∀ i, Sound n path (Removed state.1.thread) i ∧ i ≠ freedNode →
      Sound n path (Removed (Function.update state.1.thread core
        (.putting call' result freedNode .store))) i := by
    rintro i ⟨onPath | isLast | ⟨other, theirs⟩, notFreed⟩
    · exact .inl onPath
    · exact .inr (.inl isLast)
    · refine .inr (.inr (removed_update.mpr (.inr ⟨other, ?_, theirs⟩)))
      rintro rfl
      rw [here] at theirs
      exact notFreed (Option.some.inj theirs).symm
  refine invariant.step_relink here rfl (record_eq rfl rfl rfl rfl)
    (invariant.shape.setNext below notPath notFree) lock_setNext rfl ?_ remains ?_
    (fun other ne => ?_) (fun _ _ => .refl) (fun other ne i held => ?_)
    (fun other _ i theirs => ((invariant.sane other).owned i theirs).2) fun other ne => ?_
  · rw [merging_update_of_eq (by rw [here]; rfl)]
    exact invariant.account.congr fun i _ => congrFun range_setNext i
  · refine ⟨⟨?_, holds⟩, (fun _ mine => by cases mine), sane.lockedFree,
      (fun _ mine => by cases mine), fun i mine => sane.owned i (owns i mine),
      (fun _ removed => by cases removed), (fun _ pending => by cases pending), sane.carried⟩
    show (state.1.shared.setNext freedNode nextIdx).next freedNode = state.1.shared.freeHeadIdx
    rw [next_setNext, Function.update_self]
    exact isHead
  · refine .setNext (fun theirs => (separate other ne.symm).owned freedNode (.inr rfl) theirs)
      (fun locked => absurd rfl (apart other ne freedNode (LazylistPc.held_of_locks locked)))
      (invariant.shape.freeHead_ne below.le notFree) fun _ _ => id
  · rw [next_setNext]
    exact ((invariant.sane other).held i held).update_of_not_reaches (alone other ne i held)
  · exact ⟨(separate other ne.symm).locks, (separate other ne.symm).locksFree,
      fun i mine => (separate other ne.symm).owned i (owns i mine),
      (fun _ _ pending => by cases pending), (separate other ne.symm).carried⟩

/-- The node is the first of the free ones. -/
theorem step_putStore (invariant : LazylistInvariant n state path free)
    (here : state.1.thread core = .putting call' result freedNode .store) :
    Coherent n ((lazylistThreads Core).step state (core, call)) := by
  have sane := invariant.sane core
  have separate := fun other ne => invariant.separate core other ne
  rw [here] at sane
  simp only [here] at separate
  obtain ⟨link, holds⟩ := sane.facts
  obtain ⟨below, notPath, notFree⟩ := sane.owned freedNode (.inl rfl)
  have acts : (LazylistPc.putting call' result freedNode .store).act state.1.shared call =
      (.putting call' result freedNode .unlock, state.1.shared.setFreeHead freedNode) := by
    rw [LazylistPc.act, LazylistPc.actPut, invariant.shape.idx freedNode (by omega)]
  -- the node is the list's from here on
  have owns : ∀ i, ¬(LazylistPc.putting call' result freedNode .unlock).Owns i := by
    rintro i (isFresh | isRemoved)
    · cases isFresh
    · cases isRemoved
  refine invariant.step_relink here acts (record_eq rfl rfl rfl rfl)
    (invariant.shape.putFree below notPath notFree link) rfl rfl ?_ ?_ ?_ (fun other ne => ?_)
    (fun _ _ => .refl) (fun other _ => (invariant.sane other).held) (fun other ne i theirs => ?_)
    fun other ne => ?_
  · rw [merging_update_of_eq (by rw [here]; rfl)]
    exact invariant.account.congr fun _ _ => rfl
  · rw [removed_update_of_eq (by rw [here]; rfl)]
    exact fun _ => id
  · exact ⟨⟨trivial, holds⟩, (fun _ mine => by cases mine), sane.lockedFree,
      (fun _ mine => by cases mine), fun i mine => absurd mine (owns i),
      (fun _ removed => by cases removed), (fun _ pending => by cases pending), sane.carried⟩
  · exact .setFreeHead ((separate other ne.symm).locksFree rfl)
  · obtain ⟨-, notPath', notFree'⟩ := (invariant.sane other).owned i theirs
    refine ⟨notPath', fun isFree => ?_⟩
    obtain rfl | isFree := List.mem_cons.mp isFree
    · exact (separate other ne.symm).owned i (.inl rfl) theirs
    · exact notFree' isFree
  · exact ⟨(separate other ne.symm).locks, (separate other ne.symm).locksFree,
      fun i mine => absurd mine (owns i), (fun _ _ pending => by cases pending),
      (separate other ne.symm).carried⟩

end LazylistInvariant

end Pspin
