import Mathlib.Data.BitVec

/-! # Atomic memory operations of the runtime

Each `amo_*` intrinsic is one memory access: it returns the old word and leaves a
new one.  A futex is a word that is 0 while it is free.
-/

namespace Pspin

abbrev Word := BitVec 32

/-- `amo_add`: the old word and the word it leaves. -/
def amoAdd (word value : Word) : Word × Word := (word, word + value)

/-- `amo_or`: the old word and the word it leaves. -/
def amoOr (word value : Word) : Word × Word := (word, word ||| value)

/-- `futex_init`, which is an `amo_store` of 0. -/
def futexInit (_futex : Word) : Word := 0

/-- `futex_try_lock`, and one turn of the loop of `futex_lock` and `futex_lock_s`:
    whether the futex was taken, and the futex. -/
def futexTryLock (futex : Word) : Bool × Word :=
  let (old, futex) := amoOr futex 1
  (old == 0, futex)

/-- `futex_unlock` -/
def futexUnlock (futex : Word) : Word := futexInit futex

@[simp] theorem futexTryLock_taken {futex : Word} : (futexTryLock futex).1 = true ↔ futex = 0 := by
  simp [futexTryLock, amoOr]

/-- Whether it was free or not, a futex somebody tried is not free. -/
@[simp] theorem futexTryLock_ne_zero (futex : Word) : (futexTryLock futex).2 ≠ 0 := by
  intro zero
  have lowest := congrArg (fun word : Word => word.getLsbD 0) zero
  simp [futexTryLock, amoOr] at lowest

@[simp] theorem futexUnlock_eq (futex : Word) : futexUnlock futex = 0 := rfl

end Pspin
