import Mathlib.Data.List.Perm.Basic
import Pspin.Clocked.Path
import Pspin.Ooorb.Lazylist

/-! # What represents a list of ranges

The nodes of the pool are the ones on the path between the sentinels and the ones
on the free path.  The ranges on the path are normal, no lock is taken, and no
node on the path is marked.
-/

namespace Pspin

open Clocked

namespace Lazylist

variable {list : Lazylist} {i j nextIdx : Nat} {node : LazylistNode} {values : LazylistRange}
  {word word' : Word} {mark : Bool}

/-! ## Fields -/

section Fields

/-- A field of the nodes after one of them is set. -/
theorem field_setNode {β : Type} (field : LazylistNode → β) :
    (fun j => field ((list.setNode i node).nodes j)) =
      Function.update (fun j => field (list.nodes j)) i (field node) := by
  funext j
  by_cases same : j = i
  · subst same
    simp [setNode]
  · simp [setNode, same]

/-- A field that keeps its value. -/
theorem field_setNode_of_eq {β : Type} (field : LazylistNode → β)
    (same : field node = field (list.nodes i)) :
    (fun j => field ((list.setNode i node).nodes j)) = fun j => field (list.nodes j) := by
  rw [field_setNode, same]
  exact Function.update_eq_self i _

@[simp] theorem idx_setRange : (list.setRange i values).idx = list.idx :=
  field_setNode_of_eq LazylistNode.idx rfl

@[simp] theorem idx_setLock : (list.setLock i word).idx = list.idx :=
  field_setNode_of_eq LazylistNode.idx rfl

@[simp] theorem idx_setNext : (list.setNext i nextIdx).idx = list.idx :=
  field_setNode_of_eq LazylistNode.idx rfl

@[simp] theorem idx_setMark : (list.setMark i mark).idx = list.idx := rfl

@[simp] theorem range_setRange :
    (list.setRange i values).range = Function.update list.range i values :=
  field_setNode LazylistNode.range

@[simp] theorem range_setLock : (list.setLock i word).range = list.range :=
  field_setNode_of_eq LazylistNode.range rfl

@[simp] theorem range_setNext : (list.setNext i nextIdx).range = list.range :=
  field_setNode_of_eq LazylistNode.range rfl

@[simp] theorem range_setMark : (list.setMark i mark).range = list.range := rfl

@[simp] theorem lock_setRange : (list.setRange i values).lock = list.lock :=
  field_setNode_of_eq LazylistNode.lock rfl

@[simp] theorem lock_setLock : (list.setLock i word).lock = Function.update list.lock i word :=
  field_setNode LazylistNode.lock

@[simp] theorem lock_setNext : (list.setNext i nextIdx).lock = list.lock :=
  field_setNode_of_eq LazylistNode.lock rfl

@[simp] theorem lock_setMark : (list.setMark i mark).lock = list.lock := rfl

@[simp] theorem next_setRange : (list.setRange i values).next = list.next :=
  field_setNode_of_eq LazylistNode.nextIdx rfl

@[simp] theorem next_setLock : (list.setLock i word).next = list.next :=
  field_setNode_of_eq LazylistNode.nextIdx rfl

@[simp] theorem next_setNext :
    (list.setNext i nextIdx).next = Function.update list.next i nextIdx :=
  field_setNode LazylistNode.nextIdx

@[simp] theorem next_setMark : (list.setMark i mark).next = list.next := rfl

@[simp] theorem marks_setRange : (list.setRange i values).marks = list.marks := rfl

@[simp] theorem marks_setLock : (list.setLock i word).marks = list.marks := rfl

@[simp] theorem marks_setNext : (list.setNext i nextIdx).marks = list.marks := rfl

@[simp] theorem marks_setMark : (list.setMark i mark).marks = Function.update list.marks i mark :=
  rfl

@[simp] theorem idx_setFreeHead : (list.setFreeHead i).idx = list.idx := rfl

@[simp] theorem range_setFreeHead : (list.setFreeHead i).range = list.range := rfl

@[simp] theorem lock_setFreeHead : (list.setFreeHead i).lock = list.lock := rfl

@[simp] theorem next_setFreeHead : (list.setFreeHead i).next = list.next := rfl

@[simp] theorem marks_setFreeHead : (list.setFreeHead i).marks = list.marks := rfl

@[simp] theorem freeHeadIdx_setRange : (list.setRange i values).freeHeadIdx = list.freeHeadIdx :=
  rfl

@[simp] theorem freeHeadIdx_setLock : (list.setLock i word).freeHeadIdx = list.freeHeadIdx := rfl

@[simp] theorem freeHeadIdx_setNext : (list.setNext i nextIdx).freeHeadIdx = list.freeHeadIdx :=
  rfl

@[simp] theorem freeHeadIdx_setMark : (list.setMark i mark).freeHeadIdx = list.freeHeadIdx := rfl

@[simp] theorem left_setLock : (list.setLock i word).left = list.left := by
  funext j
  rw [left, range_setLock]
  rfl

@[simp] theorem right_setLock : (list.setLock i word).right = list.right := by
  funext j
  rw [right, range_setLock]
  rfl

end Fields

/-! ## Locks that are taken and given back -/

theorem lockNode_of_free (free : list.lock i = 0) :
    list.lockNode i = some (list.setLock i 1) := by
  rw [lockNode, free]
  rfl

theorem setRange_setLock : (list.setLock i word).setRange j values =
    (list.setRange j values).setLock i word := by
  by_cases same : i = j
  · subst same
    simp [setLock, setRange, setNode]
  · simp [setLock, setRange, setNode, same, Ne.symm same, Function.update_comm same]

theorem setNext_setLock : (list.setLock i word).setNext j nextIdx =
    (list.setNext j nextIdx).setLock i word := by
  by_cases same : i = j
  · subst same
    simp [setLock, setNext, setNode]
  · simp [setLock, setNext, setNode, same, Ne.symm same, Function.update_comm same]

theorem setNext_setRange : (list.setRange i values).setNext j nextIdx =
    (list.setNext j nextIdx).setRange i values := by
  by_cases same : i = j
  · subst same
    simp [setRange, setNext, setNode]
  · simp [setRange, setNext, setNode, same, Ne.symm same, Function.update_comm same]

theorem setMark_setRange : (list.setRange i values).setMark j mark =
    (list.setMark j mark).setRange i values := rfl

theorem setFreeHead_setRange : (list.setRange i values).setFreeHead nextIdx =
    (list.setFreeHead nextIdx).setRange i values := rfl

theorem setMark_setLock : (list.setLock i word).setMark j mark =
    (list.setMark j mark).setLock i word := rfl

theorem setFreeHead_setLock : (list.setLock i word).setFreeHead nextIdx =
    (list.setFreeHead nextIdx).setLock i word := rfl

theorem setLock_setLock : (list.setLock i word).setLock i word' = list.setLock i word' := by
  simp [setLock, setNode]

theorem setLock_comm (ne : i ≠ j) : (list.setLock i word).setLock j word' =
    (list.setLock j word').setLock i word := by
  simp [setLock, setNode, ne, ne.symm, Function.update_comm ne]

theorem setLock_of_eq (same : list.lock i = word) : list.setLock i word = list := by
  subst same
  simp [setLock, setNode, Lazylist.lock]

@[simp] theorem lazylistValidate_setLock {pred curr : Nat} :
    (list.setLock i word).lazylistValidate pred curr = list.lazylistValidate pred curr := by
  simp [lazylistValidate]

/-- Two locks that are free are taken one after the other. -/
theorem lock_both {β : Type} (rest : Lazylist → Option β) (ne : i ≠ j) (free : list.lock i = 0)
    (free' : list.lock j = 0) : ((list.lockNode i).bind fun list => (list.lockNode j).bind rest) =
      rest ((list.setLock i 1).setLock j 1) := by
  have stillFree : (list.setLock i 1).lock j = 0 := by
    rw [lock_setLock, Function.update_of_ne ne.symm, free']
  rw [lockNode_of_free free, Option.bind_some, lockNode_of_free stillFree, Option.bind_some]

/-- Two locks that were free are free again, and nothing else has changed. -/
theorem unlock_both (ne : i ≠ j) (free : list.lock i = 0) (free' : list.lock j = 0) :
    (((list.setLock i word).setLock j word').unlockNode j).unlockNode i = list := by
  rw [unlockNode, unlockNode, futexUnlock_eq, futexUnlock_eq, setLock_setLock, setLock_comm ne,
    setLock_setLock, setLock_of_eq free', setLock_of_eq free]

/-! ## Lists of ranges -/

/-- The first free node gets a range and its place in the path. -/
def linkNode (list : Lazylist) (pred node : Nat) (values : LazylistRange) : Lazylist :=
  ((((list.setFreeHead (list.next node)).setRange node values).setMark node false).setNext node
    (list.next pred)).setNext pred node

/-- A node leaves the path and becomes the first free one. -/
def unlinkNode (list : Lazylist) (pred node : Nat) : Lazylist :=
  (((list.setMark node true).setNext pred (list.next node)).setNext node
    list.freeHeadIdx).setFreeHead node

section Links

variable {pred : Nat}

@[simp] theorem idx_linkNode : (list.linkNode pred i values).idx = list.idx := by simp [linkNode]

@[simp] theorem lock_linkNode : (list.linkNode pred i values).lock = list.lock := by simp [linkNode]

theorem range_linkNode : (list.linkNode pred i values).range =
    Function.update list.range i values := by simp [linkNode]

theorem marks_linkNode : (list.linkNode pred i values).marks = Function.update list.marks i false := by
  simp [linkNode]

theorem next_linkNode : (list.linkNode pred i values).next =
    Function.update (Function.update list.next i (list.next pred)) pred i := by simp [linkNode]

@[simp] theorem idx_unlinkNode : (list.unlinkNode pred i).idx = list.idx := by simp [unlinkNode]

@[simp] theorem lock_unlinkNode : (list.unlinkNode pred i).lock = list.lock := by simp [unlinkNode]

@[simp] theorem range_unlinkNode : (list.unlinkNode pred i).range = list.range := by
  simp [unlinkNode]

theorem marks_unlinkNode : (list.unlinkNode pred i).marks = Function.update list.marks i true := by
  simp [unlinkNode]

theorem next_unlinkNode : (list.unlinkNode pred i).next =
    Function.update (Function.update list.next pred (list.next i)) i list.freeHeadIdx := by
  simp [unlinkNode]

end Links

/-- The nodes below `n` are the ones on `path`, which leads from the sentinel `n` to the
    sentinel `n + 1`, and the ones on `free`. -/
structure Represents (n : Nat) (list : Lazylist) (path free : List Nat) : Prop where
  small : n + 1 < eol
  head : list.headIdx = n
  idx : ∀ i < n + 2, list.idx i = i
  unlocked : ∀ i < n + 2, list.lock i = 0
  freeUnlocked : list.freeHeadLock = 0
  sentinelLeft : list.range n = ⟨int32Min, int32Min⟩
  sentinelRight : list.range (n + 1) = ⟨int32Max, int32Max⟩
  unmarked : ∀ i ∈ n :: (n + 1) :: path, list.marks i = false
  linked : Clocked.Path list.next n (n :: path) (n + 1)
  ended : list.next (n + 1) = eol
  linkedFree : Clocked.Path list.next list.freeHeadIdx free eol
  pool : (path ++ free).Perm (List.range n)
  normal : Normal (path.map list.range)
  bounded : ∀ i ∈ path, int32Min < list.left i ∧ list.right i < int32Max

namespace Represents

variable {n : Nat} {path free before after : List Nat}

theorem lt (represents : Represents n list path free) (member : i ∈ path ++ free) : i < n :=
  List.mem_range.mp (represents.pool.mem_iff.mp member)

theorem nodup (represents : Represents n list path free) : (n :: (path ++ free)).Nodup := by
  refine List.nodup_cons.mpr ⟨fun member => lt_irrefl n (represents.lt member), ?_⟩
  exact represents.pool.nodup_iff.mpr List.nodup_range

theorem eol_notMem (represents : Represents n list path free) : eol ∉ free := by
  intro member
  have below := represents.lt (List.mem_append_right path member)
  have small := represents.small
  omega

theorem last_notMem (represents : Represents n list path free) : n + 1 ∉ path := by
  intro member
  have below := represents.lt (List.mem_append_left free member)
  omega

/-- The values of a node that is on no path of interest. -/
theorem map_update {β : Type} {f : Nat → β} {value : β} {cells : List Nat} (absent : i ∉ cells) :
    cells.map (Function.update f i value) = cells.map f :=
  List.map_congr_left fun other member =>
    Function.update_of_ne (show other ≠ i from fun same => absent (same ▸ member)) _ _

theorem apart (represents : Represents n list (before ++ i :: after) free) :
    i ∉ before ∧ i ∉ after ∧ i ∉ free := by
  have nodup := represents.nodup
  simp only [List.nodup_cons, List.nodup_append] at nodup
  grind

/-- The ranges on the path after one of them is set. -/
theorem map_setRange (represents : Represents n list (before ++ i :: after) free) :
    (before ++ i :: after).map (list.setRange i values).range =
      before.map list.range ++ values :: after.map list.range := by
  rw [range_setRange, List.map_append, List.map_cons, map_update represents.apart.1,
    map_update represents.apart.2.1, Function.update_self]

/-- A range on the path grows. -/
theorem setRange (represents : Represents n list (before ++ i :: after) free)
    (normal : Normal (before.map list.range ++ values :: after.map list.range))
    (bounded : int32Min < values.left ∧ values.right < int32Max) :
    Represents n (list.setRange i values) (before ++ i :: after) free := by
  have below : i < n := represents.lt (by simp)
  refine { represents with
    idx := by simpa using represents.idx
    unlocked := by simpa using represents.unlocked
    sentinelLeft := ?_
    sentinelRight := ?_
    linked := by simpa using represents.linked
    ended := by simpa using represents.ended
    linkedFree := by simpa using represents.linkedFree
    normal := by rwa [represents.map_setRange]
    bounded := ?_ }
  · rw [range_setRange, Function.update_of_ne (by omega)]
    exact represents.sentinelLeft
  · rw [range_setRange, Function.update_of_ne (by omega)]
    exact represents.sentinelRight
  · intro j member
    rw [left, right, range_setRange]
    by_cases same : j = i
    · subst same
      rw [Function.update_self]
      exact bounded
    · rw [Function.update_of_ne same]
      exact represents.bounded j member

/-- The successor of the last node before a place in the path. -/
theorem linked_at (represents : Represents n list (before ++ after) free) {pre : List Nat}
    {pred : Nat} (split : n :: before = pre ++ [pred]) :
    Clocked.Path list.next n pre pred ∧ Clocked.Path list.next (list.next pred) after (n + 1) := by
  have linked := represents.linked
  rw [← List.cons_append, split, List.append_assoc, List.singleton_append] at linked
  exact Path.append_cons_iff.mp linked

theorem nodup_at (represents : Represents n list (before ++ after) free) {pre : List Nat}
    {pred : Nat} (split : n :: before = pre ++ [pred]) : (pre ++ pred :: (after ++ free)).Nodup := by
  have nodup := represents.nodup
  rw [← List.cons_append, ← List.cons_append, split] at nodup
  simpa only [List.append_assoc, List.cons_append, List.nil_append] using nodup

theorem pred_le (represents : Represents n list (before ++ after) free) {pre : List Nat} {pred : Nat}
    (split : n :: before = pre ++ [pred]) : pred ≤ n := by
  have member : pred ∈ n :: before := by simp [split]
  obtain rfl | inBefore := List.mem_cons.mp member
  · exact le_rfl
  · exact Nat.le_of_lt (represents.lt (by simp [inBefore]))

theorem map_linkNode {node pred : Nat}
    (represents : Represents n list (before ++ after) (node :: free)) :
    (before ++ node :: after).map (linkNode list pred node values).range =
      before.map list.range ++ values :: after.map list.range := by
  have nodup := represents.nodup
  rw [range_linkNode, List.map_append, List.map_cons, map_update (by grind), map_update (by grind),
    Function.update_self]

theorem link {node : Nat} (represents : Represents n list (before ++ after) (node :: free))
    {pre : List Nat} {pred : Nat} (split : n :: before = pre ++ [pred])
    (normal : Normal (before.map list.range ++ values :: after.map list.range))
    (bounded : int32Min < values.left ∧ values.right < int32Max) :
    Represents n (list.linkNode pred node values) (before ++ node :: after) free := by
  obtain ⟨left, right⟩ := represents.linked_at split
  have nodup := represents.nodup_at split
  have below : node < n := represents.lt (by simp)
  have predLe := represents.pred_le split
  have apart : node ∉ n :: before := by
    rw [split]
    grind
  have apart' : node ∉ after ∧ node ∉ free ∧ pred ∉ free ∧ pred ≠ node := by grind
  exact {
    small := represents.small
    head := represents.head
    idx := by simpa using represents.idx
    unlocked := by simpa using represents.unlocked
    freeUnlocked := represents.freeUnlocked
    sentinelLeft := by
      rw [range_linkNode, Function.update_of_ne (by omega)]
      exact represents.sentinelLeft
    sentinelRight := by
      rw [range_linkNode, Function.update_of_ne (by omega)]
      exact represents.sentinelRight
    unmarked := by
      intro i member
      have old := represents.unmarked i
      rw [marks_linkNode, Function.update_apply]
      grind
    linked := by
      -- the path goes over the new node where it went on before
      have whole : n :: (before ++ node :: after) = pre ++ pred :: node :: after := by
        rw [← List.cons_append, split, List.append_assoc, List.singleton_append]
      rw [whole, next_linkNode]
      refine Path.redirect (left.update_of_notMem (by grind)) ⟨rfl, ?_⟩ (by grind) (by grind)
      rw [Function.update_self]
      exact right.update_of_notMem apart'.1
    ended := by
      rw [next_linkNode, Function.update_of_ne (by omega), Function.update_of_ne (by omega)]
      exact represents.ended
    linkedFree := by
      obtain ⟨-, rest⟩ := represents.linkedFree
      rw [next_linkNode]
      exact (rest.update_of_notMem apart'.2.1).update_of_notMem apart'.2.2.1
    pool := by
      refine .trans ?_ represents.pool
      grind
    normal := by
      rw [represents.map_linkNode]
      exact normal
    bounded := by
      intro i member
      rw [Lazylist.left, Lazylist.right, range_linkNode]
      by_cases same : i = node
      · subst same
        rw [Function.update_self]
        exact bounded
      · rw [Function.update_of_ne same]
        exact represents.bounded i (by grind) }

theorem unlink {node : Nat} (represents : Represents n list (before ++ node :: after) free)
    {pre : List Nat} {pred : Nat} (split : n :: before = pre ++ [pred]) :
    Represents n (list.unlinkNode pred node) (before ++ after) (node :: free) := by
  obtain ⟨left, rfl, right⟩ := represents.linked_at split
  have nodup := represents.nodup_at split
  have below : list.next pred < n := represents.lt (by simp)
  have predLe := represents.pred_le split
  have apart : list.next pred ∉ n :: before := by
    rw [split]
    grind
  have apart' : list.next pred ∉ after ∧ list.next pred ∉ free ∧ pred ∉ free ∧
    pred ≠ list.next pred := by grind
  exact {
    small := represents.small
    head := represents.head
    idx := by simpa using represents.idx
    unlocked := by simpa using represents.unlocked
    freeUnlocked := represents.freeUnlocked
    sentinelLeft := by simpa using represents.sentinelLeft
    sentinelRight := by simpa using represents.sentinelRight
    unmarked := by
      intro i member
      have old := represents.unmarked i
      rw [marks_unlinkNode, Function.update_of_ne (by grind)]
      exact old (by grind)
    linked := by
      -- the path goes on where the node led
      have whole : n :: (before ++ after) = pre ++ pred :: after := by
        rw [← List.cons_append, split, List.append_assoc, List.singleton_append]
      rw [whole, next_unlinkNode]
      refine .update_of_notMem (.redirect left right (by grind) (by grind)) ?_
      grind
    ended := by
      rw [next_unlinkNode, Function.update_of_ne (by omega), Function.update_of_ne (by omega)]
      exact represents.ended
    linkedFree := by
      refine ⟨rfl, ?_⟩
      rw [next_unlinkNode, Function.update_self]
      exact (represents.linkedFree.update_of_notMem apart'.2.2.1).update_of_notMem apart'.2.1
    pool := by
      refine .trans ?_ represents.pool
      grind
    normal := by
      have normal := represents.normal
      rw [List.map_append, List.map_cons] at normal
      simpa using normal.cons_of_append_cons.1
    bounded := by
      intro i member
      have old := represents.bounded i (by grind)
      simpa [Lazylist.left, Lazylist.right] using old }

end Represents

/-! ## Initialisation -/

theorem foldl_initNode (list : Lazylist) (count : Nat) :
    ((List.range count).foldl initNode list).nodes = (fun i => if i < count then
      ⟨i, list.range i, 0, i + 1⟩ else list.nodes i) ∧
    ((List.range count).foldl initNode list).marks = fun i => decide (count ≤ i) && list.marks i := by
  induction count with
  | zero => simp
  | succ count inductionHypothesis =>
    obtain ⟨nodes, marks⟩ := inductionHypothesis
    rw [List.range_succ, List.foldl_append, List.foldl_cons, List.foldl_nil]
    constructor
    · funext i
      simp only [initNode, setMark, setNode, nodes, Function.update_apply]
      by_cases same : i = count
      · subst same
        simp [Lazylist.range]
      · simp only [same, if_false]
        by_cases less : i < count
        · rw [if_pos less, if_pos (by omega)]
        · rw [if_neg less, if_neg (by omega)]
    · funext i
      simp only [initNode, setMark, setNode, marks, Function.update_apply]
      grind

/-- The nodes that initialisation leaves, where `last` is the last of the free ones. -/
theorem lazylistInit_nodes (list : Lazylist) (last : Nat) :
    (∀ i < last, (list.lazylistInit (last + 3)).nodes i = ⟨i, list.range i, 0, i + 1⟩) ∧
    (list.lazylistInit (last + 3)).nodes last = ⟨last, list.range last, 0, eol⟩ ∧
    (list.lazylistInit (last + 3)).nodes (last + 1) =
      ⟨last + 1, ⟨int32Min, int32Min⟩, 0, last + 2⟩ ∧
    (list.lazylistInit (last + 3)).nodes (last + 2) =
      ⟨last + 2, ⟨int32Max, int32Max⟩, 0, eol⟩ := by
  have filled := (foldl_initNode list (last + 1)).1
  have nodes : (list.lazylistInit (last + 3)).nodes = Function.update (Function.update
      (Function.update ((List.range (last + 1)).foldl initNode list).nodes last
        { ((List.range (last + 1)).foldl initNode list).nodes last with nextIdx := eol }) (last + 1)
      ⟨last + 1, ⟨int32Min, int32Min⟩, 0, last + 2⟩) (last + 2)
      ⟨last + 2, ⟨int32Max, int32Max⟩, 0, eol⟩ := rfl
  refine ⟨fun i less => ?_, ?_, ?_, ?_⟩
  · rw [nodes, Function.update_of_ne (by omega), Function.update_of_ne (by omega),
      Function.update_of_ne (by omega), filled]
    exact if_pos (Nat.lt_succ_of_lt less)
  · rw [nodes, Function.update_of_ne (by omega), Function.update_of_ne (by omega),
      Function.update_self, filled]
    simp
  · rw [nodes, Function.update_of_ne (by omega), Function.update_self]
  · rw [nodes, Function.update_self]

/-- After initialisation all nodes are free. -/
theorem lazylistInit_represents {n : Nat} (positive : 0 < n) (small : n + 1 < eol)
    (unmarked : list.marks n = false ∧ list.marks (n + 1) = false) :
    Represents n (list.lazylistInit (n + 2)) [] (List.range n) := by
  obtain ⟨last, rfl⟩ : ∃ last, n = last + 1 := ⟨n - 1, by omega⟩
  obtain ⟨inside, atLast, atLeft, atRight⟩ := lazylistInit_nodes list last
  have every : ∀ i < last + 1 + 2, (list.lazylistInit (last + 3)).idx i = i ∧
      (list.lazylistInit (last + 3)).lock i = 0 := by
    intro i less
    obtain less | rfl | rfl | rfl : i < last ∨ i = last ∨ i = last + 1 ∨ i = last + 2 := by omega
    · simp [Lazylist.idx, Lazylist.lock, inside i less]
    · simp [Lazylist.idx, Lazylist.lock, atLast]
    · simp [Lazylist.idx, Lazylist.lock, atLeft]
    · simp [Lazylist.idx, Lazylist.lock, atRight]
  exact {
    small := small
    head := (every (last + 1) (by omega)).1
    idx := fun i less => (every i less).1
    unlocked := fun i less => (every i less).2
    freeUnlocked := rfl
    sentinelLeft := by simp [Lazylist.range, atLeft]
    sentinelRight := by simp [Lazylist.range, atRight]
    unmarked := by
      have marks : (list.lazylistInit (last + 3)).marks =
          fun i => decide (last + 1 ≤ i) && list.marks i := (foldl_initNode list (last + 1)).2
      simp [marks, unmarked]
    linked := ⟨rfl, by simp [Clocked.Path, Lazylist.next, atLeft]⟩
    ended := by simp [Lazylist.next, atRight]
    linkedFree := by
      rw [List.range_succ]
      refine Path.append_iff.mpr ⟨last, .range fun i less => ?_, rfl, ?_⟩
      · simp [Lazylist.next, inside i less]
      · simp [Clocked.Path, Lazylist.next, atLast]
    pool := .refl _
    normal := .nil
    bounded := fun i member => absurd member List.not_mem_nil }

end Lazylist

end Pspin
