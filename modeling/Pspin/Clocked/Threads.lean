import Mathlib
import Pspin.Clocked.Machine

/-! # Interleaved threads

Threads over a shared memory that is accessed one step at a time: a step is taken
by one thread, which sees its own position and the memory, and every other
thread stays where it is.  The inputs of a run are the schedule.
-/

namespace Pspin.Clocked

universe u v w x

/-- A shared memory and where each thread is in its code. -/
structure Threads (Core : Type u) (Local : Type v) (Shared : Type w) where
  shared : Shared
  thread : Core → Local

namespace Threads

variable {Core : Type u} {Local : Type v} {Shared : Type w} {ι : Type x} [DecidableEq Core]

/-- Threads that start at one place and take turns.  `act` is one step of a
    thread; the input of a step is the thread that takes it and what it chooses. -/
def interleave (shared : Shared) (start : Local) (act : Local → Shared → ι → Local × Shared) :
    Machine (Threads Core Local Shared) (Core × ι) where
  reset := ⟨shared, fun _ => start⟩
  step state input :=
    let acted := act (state.thread input.1) state.shared input.2
    ⟨acted.2, Function.update state.thread input.1 acted.1⟩

variable {shared : Shared} {start : Local} {act : Local → Shared → ι → Local × Shared}
  {state : Threads Core Local Shared} {input : Core × ι}

@[simp] theorem reset_shared :
    (interleave shared start act : Machine (Threads Core Local Shared) _).reset.shared = shared :=
  rfl

@[simp] theorem reset_thread (core : Core) :
    (interleave shared start act).reset.thread core = start := rfl

@[simp] theorem step_shared : ((interleave shared start act).step state input).shared =
    (act (state.thread input.1) state.shared input.2).2 := rfl

@[simp] theorem step_thread_self : ((interleave shared start act).step state input).thread input.1 =
    (act (state.thread input.1) state.shared input.2).1 := by
  simp [interleave]

section Some

variable {thread : Core → Local} {core : Core} {position : Local} (p : Local → Prop)

/-- Whether some thread is at a kind of place, when the one that moves was so if it is. -/
theorem exists_update_congr (same : p position ↔ p (thread core)) :
    (∃ other, p (Function.update thread core position other)) ↔ ∃ other, p (thread other) := by
  rw [Function.exists_update_iff thread fun _ => p, same]
  constructor
  · rintro (here | ⟨other, -, there⟩)
    · exact ⟨core, here⟩
    · exact ⟨other, there⟩
  · rintro ⟨other, there⟩
    by_cases here : other = core
    · exact Or.inl (here ▸ there)
    · exact Or.inr ⟨other, here, there⟩

/-- Whether some thread is, when the one that moves was not. -/
theorem exists_update_of_not (none_ : ¬p (thread core)) :
    (∃ other, p (Function.update thread core position other)) ↔
      p position ∨ ∃ other, p (thread other) := by
  rw [Function.exists_update_iff thread fun _ => p]
  refine or_congr_right ⟨fun ⟨other, _, there⟩ => ⟨other, there⟩, fun ⟨other, there⟩ => ?_⟩
  refine ⟨other, ?_, there⟩
  rintro rfl
  exact none_ there

end Some

/-- A sum over the threads, in what one of them adds to it. -/
theorem exists_rest {M : Type*} [AddCommMonoid M] [Fintype Core] (f : Core → Local → M)
    (thread : Core → Local) (core : Core) : ∃ rest, ∀ position,
      ∑ other, f other (Function.update thread core position other) = rest + f core position := by
  refine ⟨∑ other ∈ Finset.univ.erase core, f other (thread other), fun position => ?_⟩
  rw [← Finset.sum_erase_add _ _ (Finset.mem_univ core), Function.update_self]
  refine congrArg (· + f core position) (Finset.sum_congr rfl fun other among => ?_)
  rw [Function.update_of_ne (Finset.ne_of_mem_erase among)]

/-- What a step of one thread does to a sum over the threads. -/
theorem sum_update {M : Type*} [AddCommMonoid M] [Fintype Core] (f : Core → Local → M)
    (thread : Core → Local) (core : Core) (position : Local) :
    (∑ other, f other (Function.update thread core position other)) + f core (thread core) =
      (∑ other, f other (thread other)) + f core position := by
  obtain ⟨rest, total⟩ := exists_rest f thread core
  have before := total (thread core)
  rw [Function.update_eq_self] at before
  rw [total, before, add_right_comm]

end Threads

end Pspin.Clocked
