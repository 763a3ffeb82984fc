import Mathlib.Data.List.Basic

/-! # Segments of a queue

A queue of items some of which end a segment, and the totals of the segments, one after another.
Whoever takes the items from the front sees the totals shrink, and whoever collects what it took
owes the first of them to what it has already.
-/

namespace Pspin.Clocked

variable {ι α : Type*}

/-- The totals of the segments; items behind the last end are a segment too. -/
def totals (last : ι → Bool) (op : α → α → α) (f : ι → α) : List ι → List α
  | [] => []
  | item :: items =>
    if last item then f item :: totals last op f items
    else
      match totals last op f items with
      | [] => [f item]
      | total :: rest => op (f item) total :: rest

/-- The totals when something of the first segment was collected before. -/
def carry (op : α → α → α) (collected : α) : List α → List α
  | [] => []
  | total :: rest => op collected total :: rest

/-- The last item ends a segment. -/
def Closed (last : ι → Bool) : List ι → Prop
  | [] => True
  | item :: items => (last item = false → items ≠ []) ∧ Closed last items

section Totals

variable {last : ι → Bool} {op : α → α → α} {f : ι → α} {item : ι} {items items' : List ι}

theorem totals_eq_nil : totals last op f items = [] ↔ items = [] := by
  cases items with
  | nil => simp [totals]
  | cons item items =>
    rw [totals]
    split
    · simp
    · split <;> simp

theorem totals_last (ends : last item = true) :
    totals last op f (item :: items) = f item :: totals last op f items := by
  rw [totals, if_pos ends]

theorem totals_more {total : α} {rest : List α} (more : last item = false)
    (later : totals last op f items = total :: rest) :
    totals last op f (item :: items) = op (f item) total :: rest := by
  rw [totals, if_neg (by simp [more]), later]

/-- There is one total for each segment, whatever is summed up. -/
theorem length_totals {β : Type*} (op' : β → β → β) (f' : ι → β) :
    (totals last op f items).length = (totals last op' f' items).length := by
  induction items with
  | nil => rfl
  | cons item items inductionHypothesis =>
    cases ends : last item with
    | true =>
      rw [totals_last ends, totals_last ends, List.length_cons, List.length_cons, inductionHypothesis]
    | false =>
      rw [totals, totals, if_neg (by simp [ends]), if_neg (by simp [ends])]
      cases here : totals last op f items <;> cases there : totals last op' f' items <;>
        simp_all

namespace Closed

theorem tail (closed : Closed last (item :: items)) : Closed last items := closed.2

theorem concat (ends : last item = true) : Closed last (items ++ [item]) := by
  induction items with
  | nil => exact ⟨fun more => absurd more (by simp [ends]), trivial⟩
  | cons first items inductionHypothesis =>
    exact ⟨fun _ => List.append_ne_nil_of_right_ne_nil items (List.cons_ne_nil item []),
      inductionHypothesis⟩

/-- Some items, of which the last one ends a segment, have an end. -/
theorem countP_pos (closed : Closed last items) (some_ : items ≠ []) : 0 < items.countP last := by
  induction items with
  | nil => exact absurd rfl some_
  | cons item items inductionHypothesis =>
    rw [List.countP_cons]
    cases ends : last item with
    | true => exact Nat.succ_pos _
    | false => exact Nat.add_pos_left (inductionHypothesis closed.tail (closed.1 ends)) _

/-- An item that does not end its segment is followed by more of it. -/
theorem later (op : α → α → α) (f : ι → α) (closed : Closed last (item :: items))
    (more : last item = false) : ∃ total rest, totals last op f items = total :: rest :=
  List.exists_cons_of_ne_nil (mt totals_eq_nil.mp (closed.1 more))

theorem append (closed : Closed last items) (closed' : Closed last items') :
    Closed last (items ++ items') := by
  induction items with
  | nil => exact closed'
  | cons item items inductionHypothesis =>
    refine ⟨fun more => ?_, inductionHypothesis closed.tail⟩
    show items ++ items' ≠ []
    exact List.append_ne_nil_of_left_ne_nil (closed.1 more) items'

theorem totals_append (closed : Closed last items) : totals last op f (items ++ items') =
    totals last op f items ++ totals last op f items' := by
  induction items with
  | nil => rfl
  | cons item items inductionHypothesis =>
    have joined := inductionHypothesis closed.tail
    rw [List.cons_append]
    cases ends : last item with
    | true => rw [totals_last ends, totals_last ends, joined, List.cons_append]
    | false =>
      obtain ⟨total, rest, same⟩ := closed.later op f ends
      rw [same, List.cons_append] at joined
      rw [totals_more ends joined, totals_more ends same, List.cons_append]

end Closed

/-- The first item of a segment goes to what was collected. -/
theorem carry_last (collected : α) (ends : last item = true) :
    carry op collected (totals last op f (item :: items)) =
      op collected (f item) :: totals last op f items := by
  rw [totals_last ends]
  rfl

theorem carry_more [Std.Associative op] (collected : α) (closed : Closed last (item :: items))
    (more : last item = false) : carry op collected (totals last op f (item :: items)) =
      carry op (op collected (f item)) (totals last op f items) := by
  obtain ⟨total, rest, same⟩ := closed.later op f more
  rw [totals_more more same, same]
  exact congrArg (· :: rest) (Std.Associative.assoc collected (f item) total).symm

theorem carry_eq_nil {collected : α} {those : List α} :
    carry op collected those = [] ↔ those = [] := by
  cases those <;> simp [carry]

/-- Totals behind others do not matter, if there is nothing collected when there are no others. -/
theorem carry_append {collected : α} {those these : List α}
    (fresh : those = [] → ∀ total, op collected total = total) :
    carry op collected (those ++ these) = carry op collected those ++ these := by
  cases those with
  | nil =>
    cases these with
    | nil => rfl
    | cons total rest => exact congrArg (· :: rest) (fresh rfl total)
  | cons total rest => rfl

theorem carry_identity {o : α} [Std.LawfulLeftIdentity op o] (those : List α) :
    carry op o those = those := by
  cases those with
  | nil => rfl
  | cons total rest => exact congrArg (· :: rest) (Std.LawfulLeftIdentity.left_id total)

end Totals

end Pspin.Clocked
