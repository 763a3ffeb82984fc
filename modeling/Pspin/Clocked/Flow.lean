import Mathlib.Data.List.Basic

/-! # Flow through a buffer

What entered a first-in first-out buffer is what left it followed by what it
holds.  A cycle that lets the oldest entry leave and takes new ones in keeps this.
-/

namespace Pspin.Clocked

universe u

variable {α : Type u}

/-- Entries that entered, left and are held, oldest first. -/
def Flows (entered left held : List α) : Prop := entered = left ++ held

namespace Flows

variable {entered left held : List α}

theorem nil : Flows ([] : List α) [] [] := rfl

theorem step (flows : Flows entered left held) (leaves : Bool) (added : List α) :
    Flows (entered ++ added) (left ++ if leaves then held.head?.toList else [])
      ((if leaves then held.tail else held) ++ added) := by
  unfold Flows at flows ⊢
  rw [flows]
  cases leaves with
  | false => simp
  | true => cases held <;> simp

theorem length (flows : Flows entered left held) : entered.length = left.length + held.length := by
  rw [flows, List.length_append]

end Flows

/-! ## Pipelines -/

/-- What a stage held and takes is what it gives and holds then. -/
def Passes (before taken given after : List α) : Prop := before ++ taken = given ++ after

namespace Passes

variable {before taken given after before' moved after' : List α}

/-- A stage that gives nothing before it takes anything is a queue. -/
theorem queue (leaves : Bool) (some : leaves = true → before ≠ []) (taken : List α) :
    Passes before taken (if leaves then before.head?.toList else [])
      ((if leaves then before.tail else before) ++ taken) := by
  unfold Passes
  cases leaves with
  | false => simp
  | true =>
    obtain ⟨front, rest, rfl⟩ := List.exists_cons_of_ne_nil (some rfl)
    simp

/-- Two stages, of which the first one takes what the second one gives, are one. -/
theorem behind (front : Passes before moved given after) (back : Passes before' taken moved after') :
    Passes (before ++ before') taken given (after ++ after') := by
  unfold Passes at front back ⊢
  rw [List.append_assoc, back, ← List.append_assoc, front, List.append_assoc]

/-- The same for what the entries stand for. -/
theorem flatMap {β : Type*} (passes : Passes before taken given after) (f : α → List β) :
    Passes (before.flatMap f) (taken.flatMap f) (given.flatMap f) (after.flatMap f) := by
  unfold Passes at passes ⊢
  rw [← List.flatMap_append, passes, List.flatMap_append]

end Passes

/-! ## Entries of many sources -/

section Tagged

variable {κ : Type} [DecidableEq κ]

/-- The entries of one source. -/
def ofKey (key : κ) (entries : List (κ × α)) : List α :=
  (entries.filter fun entry => decide (entry.1 = key)).map Prod.snd

@[simp] theorem ofKey_nil (key : κ) : ofKey key ([] : List (κ × α)) = [] := rfl

@[simp] theorem ofKey_append (key : κ) (first second : List (κ × α)) :
    ofKey key (first ++ second) = ofKey key first ++ ofKey key second := by
  simp [ofKey]

/-- What a cycle adds for one source, if it adds an entry of some source. -/
theorem ofKey_ite (key : κ) (adds : Bool) (entry : κ × α) :
    ofKey key (if adds then [entry] else []) =
      if adds && decide (entry.1 = key) then [entry.2] else [] := by
  cases adds with
  | false => rfl
  | true => by_cases same : entry.1 = key <;> simp [ofKey, same]

theorem ofKey_cons_self (entry : κ × α) (entries : List (κ × α)) :
    ofKey entry.1 (entry :: entries) = entry.2 :: ofKey entry.1 entries := by
  simp [ofKey]

theorem ofKey_cons_ne {key : κ} {entry : κ × α} (other : entry.1 ≠ key)
    (entries : List (κ × α)) : ofKey key (entry :: entries) = ofKey key entries := by
  simp [ofKey, other]

/-- Without the oldest entry of one source. -/
def dropKey (key : κ) (entries : List (κ × α)) : List (κ × α) :=
  entries.eraseP fun entry => decide (entry.1 = key)

theorem dropKey_cons_self (entry : κ × α) (entries : List (κ × α)) :
    dropKey entry.1 (entry :: entries) = entries := by
  simp [dropKey]

theorem dropKey_cons_ne {key : κ} {entry : κ × α} (other : entry.1 ≠ key)
    (entries : List (κ × α)) : dropKey key (entry :: entries) = entry :: dropKey key entries := by
  simp [dropKey, other]

theorem ofKey_dropKey_self (key : κ) (entries : List (κ × α)) :
    ofKey key (dropKey key entries) = (ofKey key entries).tail := by
  induction entries with
  | nil => rfl
  | cons entry entries inductionHypothesis =>
    by_cases here : entry.1 = key
    · subst here
      rw [dropKey_cons_self, ofKey_cons_self, List.tail_cons]
    · rw [dropKey_cons_ne here, ofKey_cons_ne here, ofKey_cons_ne here, inductionHypothesis]

/-- The entries of the other sources stay. -/
theorem ofKey_dropKey_ne {key other : κ} (apart : key ≠ other) (entries : List (κ × α)) :
    ofKey other (dropKey key entries) = ofKey other entries := by
  induction entries with
  | nil => rfl
  | cons entry entries inductionHypothesis =>
    by_cases here : entry.1 = key
    · subst here
      rw [dropKey_cons_self, ofKey_cons_ne apart]
    · rw [dropKey_cons_ne here]
      by_cases same : entry.1 = other
      · subst same
        rw [ofKey_cons_self, ofKey_cons_self, inductionHypothesis]
      · rw [ofKey_cons_ne same, ofKey_cons_ne same, inductionHypothesis]

/-- The oldest entry of a source and the others are all of them. -/
theorem perm_cons_dropKey {key : κ} {entries : List (κ × α)} {front : α}
    (isFront : (ofKey key entries).head? = some front) :
    entries.Perm ((key, front) :: dropKey key entries) := by
  induction entries with
  | nil => cases isFront
  | cons entry entries inductionHypothesis =>
    by_cases here : entry.1 = key
    · subst here
      rw [ofKey_cons_self, List.head?_cons, Option.some.injEq] at isFront
      rw [dropKey_cons_self, ← isFront]
    · rw [ofKey_cons_ne here] at isFront
      rw [dropKey_cons_ne here]
      exact ((inductionHypothesis isFront).cons entry).trans (List.Perm.swap _ _ _)

end Tagged

/-- Of a row of outputs with at most one that is not `none`, that one. -/
theorem filterMap_eq_toList {ι : Type} {row : List ι} {output : ι → Option α} {chosen : ι}
    (nodup : row.Nodup) (member : chosen ∈ row) (only : ∀ i, i ≠ chosen → output i = none) :
    row.filterMap output = (output chosen).toList := by
  induction row with
  | nil => cases member
  | cons first row inductionHypothesis =>
    obtain ⟨notAgain, nodup⟩ := List.nodup_cons.mp nodup
    rcases List.mem_cons.mp member with rfl | later
    · have rest : row.filterMap output = [] := by
        rw [List.filterMap_eq_nil_iff]
        exact fun i inRow => only i fun same => notAgain (same ▸ inRow)
      cases here : output chosen <;> simp [here, rest]
    · have ne : first ≠ chosen := fun same => notAgain (same ▸ later)
      rw [List.filterMap_cons_none (only first ne), inductionHypothesis nodup later]

end Pspin.Clocked
