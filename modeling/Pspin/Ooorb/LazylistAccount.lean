import Pspin.Ooorb.LazylistInvariant

/-! # The account of the integers

A range is put in where it fits, so that it meets nothing that was put in before; what leaves
the path is in another node or has been taken.
-/

namespace Pspin

open Clocked Lazylist

namespace Account

variable {list list' : Lazylist} {path path' : List Nat} {history : LazylistHistory}
  {merging merging' : Nat → Nat → Prop} {range values : LazylistRange} {i j : Nat}

theorem covers_concat {ranges : List LazylistRange} {x : Int} :
    x ∈ covers (ranges ++ [range]) ↔ x ∈ covers ranges ∨ x ∈ range.toSet := by
  rw [covers_append, covers_cons, covers_nil, Set.union_empty]
  rfl

/-- Only the ranges of the nodes on the path count. -/
theorem congr (account : Account list path history merging)
    (agree : ∀ i ∈ path, list'.range i = list.range i) : Account list' path history merging where
  insertable i member := by
    rw [agree i member]
    exact account.insertable i member
  apart i member j member' ne := by
    rw [agree i member, agree j member']
    exact account.apart i member j member' ne
  conserved x := by
    rw [account.conserved]
    refine or_congr_left (exists_congr fun i => and_congr_right fun member => ?_)
    rw [agree i member]
  takenApart i member := by
    rw [agree i member]
    exact account.takenApart i member
  takenOnce := account.takenOnce
  takenOrdered := account.takenOrdered
  requested := account.requested
  completed := account.completed
  returned := account.returned
  returnedOnce := account.returnedOnce

/-- A range that is apart from every one that was put in has nothing in common with a node. -/
theorem notMem_of_apart (account : Account list path history merging)
    (apart : ∀ other ∈ history.inserted, range.Apart other) (member : i ∈ path) {x : Int}
    (inRange : x ∈ range.toSet) : x ∉ (list.range i).toSet := by
  intro inNode
  obtain ⟨other, put, inOther⟩ := (account.conserved x).mpr (.inl ⟨i, member, inNode⟩)
  exact (apart other put).notMem inRange inOther

theorem notMem_taken (account : Account list path history merging)
    (apart : ∀ other ∈ history.inserted, range.Apart other) {other : LazylistRange}
    (taken : other ∈ history.taken) {x : Int} (inRange : x ∈ range.toSet) : x ∉ other.toSet := by
  intro inTaken
  obtain ⟨another, put, inAnother⟩ := (account.conserved x).mpr (.inr ⟨other, taken, inTaken⟩)
  exact (apart another put).notMem inRange inAnother

theorem requested_concat (account : Account list path history merging)
    (requested : range ∈ history.requested) :
    ∀ other ∈ history.inserted ++ [range], other ∈ history.requested :=
  List.forall_mem_append.mpr ⟨account.requested, List.forall_mem_singleton.mpr requested⟩

/-- A node that is not being merged is apart from the others. -/
theorem apart_of_alone (account : Account list path history merging) (onPath : i ∈ path)
    (onPath' : j ∈ path) (ne : i ≠ j) (alone : ∀ k, ¬merging i k ∧ ¬merging k i) :
    (list.range i).Apart (list.range j) := by
  obtain apart | merges | merges := account.apart i onPath j onPath' ne
  · exact apart
  · exact absurd merges (alone j).1
  · exact absurd merges (alone j).2

/-- The larger range of a node against those of the other nodes. -/
theorem grow_apart (account : Account list path history merging) (member : i ∈ path)
    (ordered : values.left ≤ values.right) (apart : ∀ other ∈ history.inserted, range.Apart other)
    (grown : ∀ x ∈ values.toSet, x ∈ (list.range i).toSet ∨ x ∈ range.toSet ∨
      ∃ j ∈ path, merging' i j ∧ x ∈ (list.range j).toSet)
    (alone : ∀ k, ¬merging i k ∧ ¬merging k i)
    (alone' : ∀ j, merging' i j → ∀ k, ¬merging j k ∧ ¬merging k j) (onPath : j ∈ path)
    (ne : j ≠ i) : values.Apart (list.range j) ∨ merging' i j := by
  by_cases merges : merging' i j
  · exact .inr merges
  · refine .inl (Interval.apart_of_notMem ordered (account.insertable j onPath).ordered ?_)
    intro x inValues
    obtain inOld | inNew | ⟨k, onPath', merges', inOther⟩ := grown x inValues
    · exact (account.apart_of_alone member onPath ne.symm alone).notMem inOld
    · exact account.notMem_of_apart apart onPath inNew
    · have ne' : k ≠ j := fun same => merges (same ▸ merges')
      exact (account.apart_of_alone onPath' onPath ne' (alone' k merges')).notMem inOther

/-- What is put in with a larger range of a node is covered by it. -/
theorem grow_conserved (account : Account list path history merging) (member : i ∈ path)
    (own : list'.range i = values) (other : ∀ j, j ≠ i → list'.range j = list.range j)
    (old : ∀ x ∈ (list.range i).toSet, x ∈ values.toSet) (new : ∀ x ∈ range.toSet, x ∈ values.toSet)
    (grown : ∀ x ∈ values.toSet, x ∈ (list.range i).toSet ∨ x ∈ range.toSet ∨
      ∃ j ∈ path, merging' i j ∧ x ∈ (list.range j).toSet) (x : Int) :
    x ∈ covers (history.inserted ++ [range]) ↔
      (∃ j ∈ path, x ∈ (list'.range j).toSet) ∨ x ∈ covers history.taken := by
  rw [covers_concat, account.conserved]
  constructor
  · rintro ((⟨j, onPath, inNode⟩ | taken) | inNew)
    · refine .inl ⟨j, onPath, ?_⟩
      by_cases same : j = i
      · subst same
        rw [own]
        exact old x inNode
      · rwa [other j same]
    · exact .inr taken
    · exact .inl ⟨i, member, by rw [own]; exact new x inNew⟩
  · rintro (⟨j, onPath, inNode⟩ | taken)
    · by_cases same : j = i
      · subst same
        rw [own] at inNode
        obtain inOld | inNew | ⟨k, onPath', -, inOther⟩ := grown x inNode
        · exact .inl (.inl ⟨j, onPath, inOld⟩)
        · exact .inr inNew
        · exact .inl (.inl ⟨k, onPath', inOther⟩)
      · rw [other j same] at inNode
        exact .inl (.inl ⟨j, onPath, inNode⟩)
    · exact .inl (.inr taken)

/-- A node gets a larger range: what it had, a new range, and perhaps what is in a node it is
    being merged with. -/
theorem grow (account : Account list path history merging) (member : i ∈ path)
    (ranges : list'.range = Function.update list.range i values)
    (insertable : Insertable values) (requested : range ∈ history.requested)
    (apart : ∀ other ∈ history.inserted, range.Apart other)
    (old : ∀ x ∈ (list.range i).toSet, x ∈ values.toSet) (new : ∀ x ∈ range.toSet, x ∈ values.toSet)
    (grown : ∀ x ∈ values.toSet, x ∈ (list.range i).toSet ∨ x ∈ range.toSet ∨
      ∃ j ∈ path, merging' i j ∧ x ∈ (list.range j).toSet)
    (more : ∀ j k, merging j k → merging' j k)
    (alone : ∀ k, ¬merging i k ∧ ¬merging k i)
    (alone' : ∀ j, merging' i j → ∀ k, ¬merging j k ∧ ¬merging k j) :
    Account list' path { history with inserted := history.inserted ++ [range] } merging' := by
  have own : list'.range i = values := by rw [ranges, Function.update_self]
  have other : ∀ j, j ≠ i → list'.range j = list.range j := fun j ne => by
    rw [ranges, Function.update_of_ne ne]
  have ordered := insertable.ordered
  have against : ∀ j ∈ path, j ≠ i → values.Apart (list.range j) ∨ merging' i j :=
    fun j onPath ne => account.grow_apart member ordered apart grown alone alone' onPath ne
  exact {
    insertable j onPath := by
      by_cases same : j = i
      · rwa [same, own]
      · rw [other j same]
        exact account.insertable j onPath
    apart j onPath k onPath' ne := by
      by_cases same : j = i
      · subst same
        rw [own, other k ne.symm]
        exact (against k onPath' ne.symm).imp_right .inl
      · by_cases same' : k = i
        · subst same'
          rw [own, other j same]
          exact (against j onPath same).imp Interval.Apart.symm .inr
        · rw [other j same, other k same']
          exact (account.apart j onPath k onPath' ne).imp_right
            (Or.imp (more j k) (more k j))
    conserved := account.grow_conserved member own other old new grown
    takenApart j onPath another taken := by
      by_cases same : j = i
      · subst same
        rw [own]
        refine Interval.apart_of_notMem ordered (account.takenOrdered another taken) fun x inValues => ?_
        -- an element of the larger range comes from one of three places, none of them taken
        obtain inOld | inNew | ⟨k, onPath', -, inOther⟩ := grown x inValues
        · exact (account.takenApart j onPath another taken).notMem inOld
        · exact account.notMem_taken apart taken inNew
        · exact (account.takenApart k onPath' another taken).notMem inOther
      · rw [other j same]
        exact account.takenApart j onPath another taken
    takenOnce := account.takenOnce
    takenOrdered := account.takenOrdered
    requested := account.requested_concat requested
    completed := fun another completed => List.mem_append_left _ (account.completed another completed)
    returned := account.returned
    returnedOnce := account.returnedOnce }

/-- A node with a new range gets its place on the path. -/
theorem link (account : Account list path history merging) (ranges : list'.range = list.range)
    (fresh : i ∉ path) (members : ∀ j, j ∈ path' ↔ j = i ∨ j ∈ path) (same : list.range i = range)
    (insertable : Insertable range) (requested : range ∈ history.requested)
    (apart : ∀ other ∈ history.inserted, range.Apart other) :
    Account list' path' { history with inserted := history.inserted ++ [range] } merging := by
  subst same
  -- the new range shares nothing with what was put in before
  have against : ∀ j ∈ path, (list.range i).Apart (list.range j) := fun j onPath =>
    Interval.apart_of_notMem insertable.ordered (account.insertable j onPath).ordered
      fun x inNew => account.notMem_of_apart apart onPath inNew
  exact {
    insertable j onPath := by
      rw [ranges]
      obtain rfl | onPath := (members j).mp onPath
      · exact insertable
      · exact account.insertable j onPath
    apart j onPath k onPath' ne := by
      rw [ranges]
      obtain rfl | onPath := (members j).mp onPath
      · obtain rfl | onPath' := (members k).mp onPath'
        · exact absurd rfl ne
        · exact .inl (against k onPath')
      · obtain rfl | onPath' := (members k).mp onPath'
        · exact .inl (against j onPath).symm
        · exact account.apart j onPath k onPath' ne
    conserved x := by
      rw [covers_concat, account.conserved, ranges]
      constructor
      · rintro ((⟨j, onPath, inNode⟩ | taken) | inNew)
        · exact .inl ⟨j, (members j).mpr (.inr onPath), inNode⟩
        · exact .inr taken
        · exact .inl ⟨i, (members i).mpr (.inl rfl), inNew⟩
      · rintro (⟨j, onPath, inNode⟩ | taken)
        · obtain rfl | onPath := (members j).mp onPath
          · exact .inr inNode
          · exact .inl (.inl ⟨j, onPath, inNode⟩)
        · exact .inl (.inr taken)
    takenApart j onPath another taken := by
      rw [ranges]
      obtain rfl | onPath := (members j).mp onPath
      · exact Interval.apart_of_notMem insertable.ordered (account.takenOrdered another taken)
          fun x inNew => account.notMem_taken apart taken inNew
      · exact account.takenApart j onPath another taken
    takenOnce := account.takenOnce
    takenOrdered := account.takenOrdered
    requested := account.requested_concat requested
    completed := fun another completed => List.mem_append_left _ (account.completed another completed)
    returned := account.returned
    returnedOnce := account.returnedOnce }

/-- A node whose range is part of another's leaves the path. -/
theorem absorb (account : Account list path history merging) (ranges : list'.range = list.range)
    (members : ∀ j, j ∈ path' ↔ j ≠ i ∧ j ∈ path) (kept : j ∈ path')
    (within : ∀ x ∈ (list.range i).toSet, x ∈ (list.range j).toSet)
    (fewer : ∀ j k, j ≠ i → k ≠ i → merging j k → merging' j k) :
    Account list' path' history merging' where
  insertable k onPath := by
    rw [ranges]
    exact account.insertable k ((members k).mp onPath).2
  apart k onPath k' onPath' ne := by
    obtain ⟨notOut, onPath⟩ := (members k).mp onPath
    obtain ⟨notOut', onPath'⟩ := (members k').mp onPath'
    rw [ranges]
    exact (account.apart k onPath k' onPath' ne).imp_right
      (Or.imp (fewer k k' notOut notOut') (fewer k' k notOut' notOut))
  conserved x := by
    rw [account.conserved, ranges]
    refine or_congr_left ⟨?_, ?_⟩
    · rintro ⟨k, onPath, inNode⟩
      by_cases same : k = i
      · subst same
        exact ⟨j, kept, within x inNode⟩
      · exact ⟨k, (members k).mpr ⟨same, onPath⟩, inNode⟩
    · rintro ⟨k, onPath, inNode⟩
      exact ⟨k, ((members k).mp onPath).2, inNode⟩
  takenApart k onPath another taken := by
    rw [ranges]
    exact account.takenApart k ((members k).mp onPath).2 another taken
  takenOnce := account.takenOnce
  takenOrdered := account.takenOrdered
  requested := account.requested
  completed := account.completed
  returned := account.returned
  returnedOnce := account.returnedOnce

/-- A node leaves the path and its range is taken. -/
theorem take (account : Account list path history merging) (ranges : list'.range = list.range)
    (member : i ∈ path) (members : ∀ j, j ∈ path' ↔ j ≠ i ∧ j ∈ path)
    (alone : ∀ k, ¬merging i k ∧ ¬merging k i) :
    Account list' path' { history with taken := history.taken ++ [list.range i] } merging := by
  have against : ∀ j ∈ path, j ≠ i → (list.range j).Apart (list.range i) := fun j onPath ne =>
    (account.apart_of_alone member onPath ne.symm alone).symm
  exact {
    insertable k onPath := by
      rw [ranges]
      exact account.insertable k ((members k).mp onPath).2
    apart k onPath k' onPath' ne := by
      rw [ranges]
      exact account.apart k ((members k).mp onPath).2 k' ((members k').mp onPath').2 ne
    conserved x := by
      rw [account.conserved, covers_concat, ranges]
      constructor
      · rintro (⟨k, onPath, inNode⟩ | taken)
        · by_cases same : k = i
          · subst same
            exact .inr (.inr inNode)
          · exact .inl ⟨k, (members k).mpr ⟨same, onPath⟩, inNode⟩
        · exact .inr (.inl taken)
      · rintro (⟨k, onPath, inNode⟩ | taken | inNode)
        · exact .inl ⟨k, ((members k).mp onPath).2, inNode⟩
        · exact .inr taken
        · exact .inl ⟨i, member, inNode⟩
    takenApart k onPath another taken := by
      obtain ⟨ne, onPath⟩ := (members k).mp onPath
      rw [ranges]
      obtain before | now := List.mem_append.mp taken
      · exact account.takenApart k onPath another before
      · obtain rfl := List.mem_singleton.mp now
        exact against k onPath ne
    takenOnce := by
      refine List.pairwise_append.mpr ⟨account.takenOnce, List.pairwise_singleton _ _, ?_⟩
      intro another taken this now
      obtain rfl := List.mem_singleton.mp now
      exact (account.takenApart i member another taken).symm
    takenOrdered another taken := by
      obtain before | now := List.mem_append.mp taken
      · exact account.takenOrdered another before
      · obtain rfl := List.mem_singleton.mp now
        exact (account.insertable i member).ordered
    requested := account.requested
    completed := account.completed
    returned := fun another returned => List.mem_append_left _ (account.returned another returned)
    returnedOnce := account.returnedOnce }

end Account

end Pspin
