import Pspin.Clocked.Threads
import Pspin.Runtime.Atomics
import Mathlib.Data.Finset.Card

/-! # Reader/writer lock

`spin_rw_lock_t` of `handler.h`: a counter of readers and a spin lock that a
writer takes for itself and the first reader takes for all of them.  A core runs
`r_lock` … `r_unlock` or `w_lock` … `w_unlock`, over and over; every atomic access
is one step, so any other core may come in between.
-/

namespace Pspin

open Clocked

/-- `spin_rw_lock_t` -/
structure RwLock where
  glock : Word
  numReaders : Word
deriving DecidableEq, Repr

/-- Where a core is: between two accesses of one of the four functions, in one of
    the two sections they enclose, or outside. -/
inductive RwPc where
  | outside
  /-- In `spin_rw_lock_r_lock`, after it counted itself as the first reader. -/
  | firstReader
  /-- Between `spin_rw_lock_r_lock` and `spin_rw_lock_r_unlock`. -/
  | reading
  /-- In `spin_rw_lock_r_unlock`, after it counted the last reader out. -/
  | lastReader
  /-- In `spin_rw_lock_w_lock`. -/
  | writer
  /-- Between `spin_rw_lock_w_lock` and `spin_rw_lock_w_unlock`. -/
  | writing
deriving DecidableEq, Repr

/-- What a core outside may call. -/
inductive RwCall where
  | rLock
  | wLock
deriving DecidableEq, Repr

/-- `spin_rw_lock_r_lock`, up to the spin loop. -/
def spinRwLockRLock (rwlock : RwLock) : RwPc × RwLock :=
  let (old, count) := amoAdd rwlock.numReaders 1
  let numReaders := old + 1
  (if numReaders = 1 then .firstReader else .reading, { rwlock with numReaders := count })

/-- `spin_rw_lock_r_unlock`, up to the release of the spin lock. -/
def spinRwLockRUnlock (rwlock : RwLock) : RwPc × RwLock :=
  let (old, count) := amoAdd rwlock.numReaders (-1)
  let numReaders := old - 1
  (if numReaders = 0 then .lastReader else .outside, { rwlock with numReaders := count })

theorem spinRwLockRLock_first {rwlock : RwLock} (zero : rwlock.numReaders = 0) :
    spinRwLockRLock rwlock =
      (.firstReader, { rwlock with numReaders := rwlock.numReaders + 1 }) := by
  have one : rwlock.numReaders + 1 = 1 := by rw [zero]; rfl
  exact congrArg (·, _) (if_pos one)

theorem spinRwLockRLock_later {rwlock : RwLock} (counted : rwlock.numReaders ≠ 0) :
    spinRwLockRLock rwlock = (.reading, { rwlock with numReaders := rwlock.numReaders + 1 }) := by
  have more : rwlock.numReaders + 1 ≠ 1 := by bv_omega
  exact congrArg (·, _) (if_neg more)

theorem spinRwLockRUnlock_last {rwlock : RwLock} (one : rwlock.numReaders = 1) :
    spinRwLockRUnlock rwlock =
      (.lastReader, { rwlock with numReaders := rwlock.numReaders + -1 }) := by
  have zero : rwlock.numReaders - 1 = 0 := by rw [one]; rfl
  exact congrArg (·, _) (if_pos zero)

theorem spinRwLockRUnlock_other {rwlock : RwLock} (more : rwlock.numReaders ≠ 1) :
    spinRwLockRUnlock rwlock =
      (.outside, { rwlock with numReaders := rwlock.numReaders + -1 }) := by
  have notZero : rwlock.numReaders - 1 ≠ 0 := by bv_omega
  exact congrArg (·, _) (if_neg notZero)

/-- One turn of `spin_lock_lock(&(rwlock->glock))`. -/
def spinGlock (taken waiting : RwPc) (rwlock : RwLock) : RwPc × RwLock :=
  let (locked, glock) := futexTryLock rwlock.glock
  (if locked then taken else waiting, { rwlock with glock := glock })

theorem spinGlock_free {taken waiting : RwPc} {rwlock : RwLock} (free : rwlock.glock = 0) :
    spinGlock taken waiting rwlock =
      (taken, { rwlock with glock := (futexTryLock rwlock.glock).2 }) := by
  have locked := futexTryLock_taken.mpr free
  exact congrArg (·, _) (if_pos locked)

theorem spinGlock_taken {taken waiting : RwPc} {rwlock : RwLock} (held : rwlock.glock ≠ 0) :
    spinGlock taken waiting rwlock =
      (waiting, { rwlock with glock := (futexTryLock rwlock.glock).2 }) := by
  have notLocked : ¬(futexTryLock rwlock.glock).1 = true := fun taken =>
    held (futexTryLock_taken.mp taken)
  exact congrArg (·, _) (if_neg notLocked)

/-- `spin_lock_unlock(&(rwlock->glock))`, which ends both unlock functions. -/
def unlockGlock (rwlock : RwLock) : RwPc × RwLock :=
  (.outside, { rwlock with glock := futexUnlock rwlock.glock })

/-- The next access of a core. -/
def rwAct (pc : RwPc) (rwlock : RwLock) (call : RwCall) : RwPc × RwLock :=
  match pc with
  | .outside =>
    match call with
    | .rLock => spinRwLockRLock rwlock
    | .wLock => (.writer, rwlock)
  | .firstReader => spinGlock .reading .firstReader rwlock
  | .reading => spinRwLockRUnlock rwlock
  | .lastReader => unlockGlock rwlock
  | .writer => spinGlock .writing .writer rwlock
  | .writing => unlockGlock rwlock

abbrev RwState (Core : Type) := Threads Core RwPc RwLock

/-- Cores on one lock that starts as zeroed memory. -/
def rwLock (Core : Type) [DecidableEq Core] : Machine (RwState Core) (Core × RwCall) :=
  Threads.interleave ⟨0, 0⟩ .outside rwAct

namespace RwState

variable {Core : Type} {state : RwState Core}

/-- A core in its writing section is in it alone. -/
def Excludes (state : RwState Core) : Prop :=
  ∀ core other, core ≠ other → state.thread core = .writing →
    state.thread other ≠ .writing ∧ state.thread other ≠ .reading

instance [Fintype Core] [DecidableEq Core] : Decidable state.Excludes :=
  inferInstanceAs (Decidable (∀ core other, core ≠ other → state.thread core = .writing →
    state.thread other ≠ .writing ∧ state.thread other ≠ .reading))

/-- Nobody counts itself as a later reader while the first one still waits for the
    spin lock, and the counter is not about to wrap. -/
def NoOvertaking (state : RwState Core) (input : Core × RwCall) : Prop :=
  state.thread input.1 = .outside → input.2 = .rLock →
    (∀ core, state.thread core ≠ .firstReader) ∧ state.shared.numReaders ≠ BitVec.allOnes 32

instance [Fintype Core] (input : Core × RwCall) : Decidable (state.NoOvertaking input) :=
  inferInstanceAs (Decidable (_ → _ → _ ∧ _))

/-- Where a core is counted as a reader. -/
def IsReader (pc : RwPc) : Prop := pc = .firstReader ∨ pc = .reading

/-- Where the spin lock is taken for a core. -/
def Holds (pc : RwPc) : Prop := pc = .reading ∨ pc = .lastReader ∨ pc = .writing

instance (pc : RwPc) : Decidable (IsReader pc) := inferInstanceAs (Decidable (_ ∨ _))

instance (pc : RwPc) : Decidable (Holds pc) := inferInstanceAs (Decidable (_ ∨ _))

/-- The invariant, for the cores the counter counts.  Only readers share the spin
    lock, and a first reader that waits for it is the only one counted. -/
structure Sound (state : RwState Core) (readers : Finset Core) : Prop where
  counted : ∀ core, core ∈ readers ↔ IsReader (state.thread core)
  count : state.shared.numReaders.toNat = readers.card
  free : state.shared.glock = 0 → ∀ core, ¬Holds (state.thread core)
  shared : ∀ core other, core ≠ other → Holds (state.thread core) → Holds (state.thread other) →
    state.thread core = .reading ∧ state.thread other = .reading
  alone : ∀ core, state.thread core = .firstReader → ∀ other ∈ readers, other = core

namespace Sound

variable {readers : Finset Core}

/-- The counter is 0 exactly when nobody is counted. -/
theorem numReaders_eq_zero (sound : Sound state readers) :
    state.shared.numReaders = 0 ↔ readers = ∅ := by
  rw [← Finset.card_eq_zero, ← sound.count]
  constructor
  · intro zero
    rw [zero]
    rfl
  · intro zero
    exact BitVec.eq_of_toNat_eq zero

/-- While somebody reads, whoever else holds the spin lock reads as well. -/
theorem reads_of_reading (sound : Sound state readers) {reader other : Core}
    (reading : state.thread reader = .reading) (holds : Holds (state.thread other)) :
    state.thread other = .reading := by
  by_cases same : reader = other
  · exact same ▸ reading
  · exact (sound.shared reader other same (.inl reading) holds).2

theorem excludes (sound : Sound state readers) : state.Excludes := by
  intro core other differs writing
  have notReading : ¬state.thread core = .reading := by
    rw [writing]
    exact nofun
  have apart := sound.shared core other differs (.inr (.inr writing))
  constructor
  · exact fun writes => notReading (apart (.inr (.inr writes))).1
  · exact fun reads => notReading (apart (.inl reads)).1

end Sound

variable [DecidableEq Core]

/-- A core moves to another place and leaves the lock as given. -/
def move (state : RwState Core) (core : Core) (moved : RwPc × RwLock) : RwState Core :=
  ⟨moved.2, Function.update state.thread core moved.1⟩

@[simp] theorem move_shared (core : Core) (moved : RwPc × RwLock) :
    (state.move core moved).shared = moved.2 := rfl

@[simp] theorem move_self (core : Core) (moved : RwPc × RwLock) :
    (state.move core moved).thread core = moved.1 := by
  simp [move]

theorem move_other {core other : Core} (moved : RwPc × RwLock) (ne : other ≠ core) :
    (state.move core moved).thread other = state.thread other := by
  simp [move, ne]

theorem step_eq_move (input : Core × RwCall) : (rwLock Core).step state input =
    state.move input.1 (rwAct (state.thread input.1) state.shared input.2) := rfl

namespace Sound

variable {readers : Finset Core} {core : Core}

theorem reset : Sound (rwLock Core).reset ∅ where
  counted core := by simp [rwLock, IsReader]
  count := rfl
  free _ core := by simp [rwLock, Holds]
  shared core _ _ holds := by simp [rwLock, Holds] at holds
  alone core first := by simp [rwLock] at first

/-- What a move of one core has to respect: the counter, the other holders of the
    spin lock, and a first reader that waits. -/
theorem move (sound : Sound state readers) {readers' : Finset Core} {pc : RwPc}
    {glock numReaders : Word}
    (self : core ∈ readers' ↔ IsReader pc)
    (others : ∀ other, other ≠ core → (other ∈ readers' ↔ other ∈ readers))
    (count : numReaders.toNat = readers'.card)
    (free : glock = 0 → ¬Holds pc ∧
      ∀ other, other ≠ core → ¬Holds (state.thread other))
    (shared : Holds pc → ∀ other, other ≠ core → Holds (state.thread other) →
      pc = .reading ∧ state.thread other = .reading)
    (alone : pc = .firstReader → ∀ other, other ≠ core → other ∉ readers)
    (notJoined : IsReader pc → ∀ other, other ≠ core → state.thread other ≠ .firstReader) :
    Sound (state.move core (pc, ⟨glock, numReaders⟩)) readers' where
  counted other := by
    by_cases same : other = core
    · subst same
      rw [move_self, self]
    · rw [move_other _ same, others other same, sound.counted]
  count := count
  free zero other := by
    by_cases same : other = core
    · subst same
      rw [move_self]
      exact (free zero).1
    · rw [move_other _ same]
      exact (free zero).2 other same
  shared first second ne firstHolds secondHolds := by
    by_cases firstMoves : first = core
    · subst firstMoves
      rw [move_self] at firstHolds ⊢
      rw [move_other _ ne.symm] at secondHolds ⊢
      exact shared firstHolds second ne.symm secondHolds
    · rw [move_other _ firstMoves] at firstHolds ⊢
      by_cases secondMoves : second = core
      · subst secondMoves
        rw [move_self] at secondHolds ⊢
        exact (shared secondHolds first ne firstHolds).symm
      · rw [move_other _ secondMoves] at secondHolds ⊢
        exact sound.shared first second ne firstHolds secondHolds
  -- who waits as the first reader is the only one counted
  alone first isFirst other member := by
    by_contra differ
    by_cases firstMoves : first = core
    · subst firstMoves
      rw [move_self] at isFirst
      exact alone isFirst other differ ((others other differ).mp member)
    · rw [move_other _ firstMoves] at isFirst
      by_cases otherMoves : other = core
      · subst otherMoves
        exact notJoined (self.mp member) first firstMoves isFirst
      · exact differ (sound.alone first isFirst other ((others other otherMoves).mp member))

theorem rLock (sound : Sound state readers) (outside : state.thread core = .outside)
    (noFirst : ∀ other, state.thread other ≠ .firstReader)
    (fits : state.shared.numReaders ≠ BitVec.allOnes 32) :
    Sound (state.move core (spinRwLockRLock state.shared)) (insert core readers) := by
  have notCounted : core ∉ readers := by
    rw [sound.counted, outside]
    decide
  have others : ∀ other, other ≠ core → (other ∈ insert core readers ↔ other ∈ readers) := by
    intro other differs
    simp [differs]
  have count : (state.shared.numReaders + 1).toNat = (insert core readers).card := by
    rw [Finset.card_insert_of_notMem notCounted, ← sound.count]
    have bound := state.shared.numReaders.isLt
    have notMost : state.shared.numReaders.toNat ≠ 2 ^ 32 - 1 := fun most =>
      fits (BitVec.eq_of_toNat_eq (by simpa using most))
    bv_omega
  by_cases zero : state.shared.numReaders = 0
  · -- Nobody is counted: this is the first reader, and the spin lock may be a writer's.
    have nobody := sound.numReaders_eq_zero.mp zero
    rw [spinRwLockRLock_first zero]
    refine sound.move (by simp [IsReader]) others count ?_ ?_ ?_ ?_
    · intro free
      exact ⟨by simp [Holds], fun other _ => sound.free free other⟩
    · exact fun holds => absurd holds (by decide)
    · intro _ other _
      simp [nobody]
    · exact fun _ other _ => noFirst other
  · -- Somebody is counted and, as no first reader waits, reads: so the lock is the readers'.
    obtain ⟨reader, member⟩ : readers.Nonempty := by
      rw [Finset.nonempty_iff_ne_empty]
      exact fun nobody => zero (sound.numReaders_eq_zero.mpr nobody)
    have reading : state.thread reader = .reading :=
      ((sound.counted reader).mp member).resolve_left (noFirst reader)
    rw [spinRwLockRLock_later zero]
    refine sound.move (by simp [IsReader]) others count ?_ ?_ ?_ ?_
    · intro free
      exact absurd (.inl reading) (sound.free free reader)
    · intro _ other _ holds
      exact ⟨rfl, sound.reads_of_reading reading holds⟩
    · exact nofun
    · exact fun _ other _ => noFirst other

theorem rUnlock (sound : Sound state readers) (reading : state.thread core = .reading) :
    Sound (state.move core (spinRwLockRUnlock state.shared)) (readers.erase core) := by
  have counted : core ∈ readers := (sound.counted core).mpr (.inr reading)
  have positive : 0 < readers.card := Finset.card_pos.mpr ⟨core, counted⟩
  have others : ∀ other, other ≠ core → (other ∈ readers.erase core ↔ other ∈ readers) := by
    intro other differs
    simp [differs]
  have count : (state.shared.numReaders + -1).toNat = (readers.erase core).card := by
    have same := sound.count
    rw [Finset.card_erase_of_mem counted, ← same]
    bv_omega
  have taken : state.shared.glock ≠ 0 := fun free => sound.free free core (.inl reading)
  by_cases last : state.shared.numReaders = 1
  · -- It was the only one counted, and its release of the spin lock is still to come.
    have only : ∀ other ∈ readers, other = core := by
      have one : readers.card ≤ 1 := by
        rw [← sound.count, last]
        rfl
      exact fun other member => Finset.card_le_one.mp one other member core counted
    rw [spinRwLockRUnlock_last last]
    refine sound.move (by simp [IsReader]) others count ?_ ?_ ?_ ?_
    · exact fun free => (taken free).elim
    · intro _ other differs holds
      have reads := sound.reads_of_reading reading holds
      exact absurd (only other ((sound.counted other).mpr (.inr reads))) differs
    · exact nofun
    · exact fun isReader => absurd isReader (by decide)
  · rw [spinRwLockRUnlock_other last]
    refine sound.move (by simp [IsReader]) others count ?_ ?_ ?_ ?_
    · exact fun free => (taken free).elim
    · exact fun holds => absurd holds (by decide)
    · exact nofun
    · exact fun isReader => absurd isReader (by decide)

/-- One turn of a spin loop: the core comes to hold the free lock, or nothing moves. -/
theorem spinGlock (sound : Sound state readers) {taken waiting : RwPc}
    (waits : state.thread core = waiting) (notHeld : ¬Holds waiting)
    (sameReader : IsReader taken ↔ IsReader waiting) (notFirst : taken ≠ .firstReader) :
    Sound (state.move core (Pspin.spinGlock taken waiting state.shared)) readers := by
  have counted : core ∈ readers ↔ IsReader waiting := by rw [sound.counted, waits]
  have notJoined : IsReader waiting → ∀ other, other ≠ core → state.thread other ≠ .firstReader :=
    fun isReader other differs first =>
      differs (sound.alone other first core (counted.mpr isReader)).symm
  by_cases free : state.shared.glock = 0
  · rw [spinGlock_free free]
    refine sound.move (counted.trans sameReader.symm) (fun _ _ => Iff.rfl) sound.count ?_ ?_ ?_ ?_
    · exact fun zero => absurd zero (futexTryLock_ne_zero _)
    · exact fun _ other _ holds => absurd holds (sound.free free other)
    · exact fun first => absurd first notFirst
    · exact fun isReader => notJoined (sameReader.mp isReader)
  · rw [spinGlock_taken free]
    refine sound.move counted (fun _ _ => Iff.rfl) sound.count ?_ ?_ ?_ ?_
    · exact fun zero => absurd zero (futexTryLock_ne_zero _)
    · exact fun holds => absurd holds notHeld
    · intro first other differs member
      exact differs (sound.alone core (waits.trans first) other member)
    · exact notJoined

theorem unlockGlock (sound : Sound state readers) (holds : Holds (state.thread core))
    (notReading : state.thread core ≠ .reading) :
    Sound (state.move core (Pspin.unlockGlock state.shared)) readers := by
  have notCounted : core ∉ readers := by
    rw [sound.counted]
    rintro (first | reads)
    · rw [first] at holds
      exact absurd holds (by decide)
    · exact notReading reads
  refine sound.move ?_ (fun _ _ => Iff.rfl) sound.count ?_ ?_ ?_ ?_
  · exact iff_of_false notCounted (by decide)
  · intro _
    refine ⟨by decide, ?_⟩
    exact fun other differs otherHolds =>
      notReading (sound.shared core other differs.symm holds otherHolds).1
  · exact fun holds => absurd holds (by decide)
  · exact nofun
  · exact fun isReader => absurd isReader (by decide)

/-- A core starts to wait for the spin lock as a writer. -/
theorem wLock (sound : Sound state readers) (outside : state.thread core = .outside) :
    Sound (state.move core (.writer, state.shared)) readers := by
  have notCounted : core ∉ readers := by
    rw [sound.counted, outside]
    decide
  refine sound.move ?_ (fun _ _ => Iff.rfl) sound.count ?_ ?_ ?_ ?_
  · exact iff_of_false notCounted (by decide)
  · intro free
    refine ⟨by decide, ?_⟩
    exact fun other _ => sound.free free other
  · exact fun holds => absurd holds (by decide)
  · exact nofun
  · exact fun isReader => absurd isReader (by decide)

end Sound

/-- One access of one core, whichever it is. -/
theorem sound_step {readers : Finset Core} {input : Core × RwCall} (sound : Sound state readers)
    (allowed : state.NoOvertaking input) :
    ∃ readers', Sound ((rwLock Core).step state input) readers' := by
  obtain ⟨core, call⟩ := input
  rw [step_eq_move]
  cases at_ : state.thread core with
  | outside =>
    cases call with
    | rLock =>
      obtain ⟨noFirst, fits⟩ := allowed at_ rfl
      exact ⟨_, by simpa only [rwAct, at_] using sound.rLock at_ noFirst fits⟩
    | wLock => exact ⟨_, by simpa only [rwAct, at_] using sound.wLock at_⟩
  | firstReader =>
    exact ⟨readers, sound.spinGlock at_ (by decide) (by decide) nofun⟩
  | reading => exact ⟨_, sound.rUnlock at_⟩
  | lastReader => exact ⟨_, sound.unlockGlock (at_ ▸ by decide) (at_ ▸ nofun)⟩
  | writer =>
    exact ⟨readers, sound.spinGlock at_ (by decide) (by decide) nofun⟩
  | writing => exact ⟨_, sound.unlockGlock (at_ ▸ by decide) (at_ ▸ nofun)⟩

end RwState

/-- Mutual exclusion of the reader/writer lock: as long as nobody joins the readers
    while the first of them still waits for the spin lock, a writer is alone. -/
theorem rwLock_excludes {Core : Type} [DecidableEq Core] (schedule : List (Core × RwCall))
    (admitted : (rwLock Core).Admits RwState.NoOvertaking schedule) :
    ((rwLock Core).run schedule).Excludes := by
  obtain ⟨readers, sound⟩ := admitted.invariant (fun state => ∃ readers, state.Sound readers)
    ⟨∅, .reset⟩ fun state input ⟨readers, sound⟩ allowed => RwState.sound_step sound allowed
  exact sound.excludes

/-- Two cores read together, the last of them gives the lock to a waiting writer. -/
def rwHandover : List (Fin 3 × RwCall) :=
  [(0, .rLock), (0, .rLock), (1, .rLock), (2, .wLock), (2, .wLock), (0, .rLock), (1, .rLock),
    (1, .rLock), (2, .wLock)]

theorem rwLock_excludes_handover :
    ((rwLock (Fin 3)).run rwHandover).thread 2 = .writing ∧
      ((rwLock (Fin 3)).run rwHandover).Excludes :=
  ⟨by decide, rwLock_excludes rwHandover (by decide)⟩

/-- While a writer is in its section the first reader waits for the spin lock; the
    second one finds itself counted after another and reads at once. -/
theorem rwLock_admits_reader :
    ¬∀ schedule : List (Fin 3 × RwCall), ((rwLock (Fin 3)).run schedule).Excludes := by
  intro excludes
  have overtaken := excludes [(0, .wLock), (0, .wLock), (1, .rLock), (2, .rLock)]
  exact absurd overtaken (by decide)

end Pspin
