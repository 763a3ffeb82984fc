import Pspin.Clocked.Loops
import Pspin.Handlers.SlpFrame
import Pspin.Runtime.RwLock

/-! # `slp_l1`

The training of a perceptron: payload handlers that fit samples to weights they all share, under
the reader/writer lock that the header handler sets up.  A handler predicts a sample as a reader
and updates the weights as a writer.  The header handler starts the counter of readers at 32,
so that no reader is the first or the last one and none ever takes the lock from a writer.
-/

namespace Pspin

open Clocked

variable {vectorLen : Nat}

/-- The last weight is that of the constant input 1. -/
abbrev WeightId (vectorLen : Nat) := Fin (vectorLen + 1)

abbrev Weights (vectorLen : Nat) := WeightId vectorLen → Word

structure Sample (vectorLen : Nat) where
  input : Fin vectorLen → Word
  res : Word

namespace Sample

/-- `ACTIVATION_FN` -/
def activationFn (dot : Word) : Word := if dot.slt 0 then 0 else 1

variable (sample : Sample vectorLen)

/-- What a weight is multiplied with. -/
def factor (k : WeightId vectorLen) : Word :=
  if inside : k.val < vectorLen then sample.input ⟨k, inside⟩ else 1

/-- `e`, from the sum that `predict` found. -/
def error (dot : Word) : Word := sample.res - activationFn dot

/-- What an update leaves of a weight. -/
def fit (e : Word) (k : WeightId vectorLen) (weight : Word) : Word := weight + e * sample.factor k

/-- The sum over weights that stay as they are. -/
def dotOf (weights : Weights vectorLen) : Word := ∑ k, sample.factor k * weights k

end Sample

variable (vectorLen) in
/-- The samples that `fit_batch` fits. -/
def slpSamples (pkt : ByteMem) : List (Sample vectorLen) :=
  (List.range (slpFitLen pkt)).map fun i =>
    { input := fun k => slpInput pkt (slpInputPtr pkt) (slpFitIndex vectorLen i) k
      res := pkt.load32 (slpResPtr vectorLen pkt + 4 * i) }

/-! ## The handlers -/

/-- What the handlers of a context share. -/
structure SlpState (vectorLen : Nat) where
  weights : Weights vectorLen
  rwlock : RwLock

/-- Where a core is in `fit_batch`, with the sample it is at and those after it. -/
inductive SlpPos (vectorLen : Nat) where
  | idle
  -- `predict`
  | rLock (sample : Sample vectorLen) (rest : List (Sample vectorLen))
  | rWait (sample : Sample vectorLen) (rest : List (Sample vectorLen))
  | dot (k : WeightId vectorLen) (sum : Word) (sample : Sample vectorLen) (rest : List (Sample vectorLen))
  | rUnlock (sum : Word) (sample : Sample vectorLen) (rest : List (Sample vectorLen))
  | rRelease (sum : Word) (sample : Sample vectorLen) (rest : List (Sample vectorLen))
  -- the update
  | wLock (e : Word) (sample : Sample vectorLen) (rest : List (Sample vectorLen))
  | load (k : WeightId vectorLen) (e : Word) (sample : Sample vectorLen) (rest : List (Sample vectorLen))
  | store (k : WeightId vectorLen) (loaded e : Word) (sample : Sample vectorLen) (rest : List (Sample vectorLen))
  | wUnlock (e : Word) (sample : Sample vectorLen) (rest : List (Sample vectorLen))

namespace SlpPos

/-- The next turn of the loop of `fit_batch`. -/
def fitBatch : List (Sample vectorLen) → SlpPos vectorLen
  | sample :: rest => rLock sample rest
  | [] => idle

variable (vectorLen) in
/-- `slp_l1_ph`; the other types of frames are not fitted. -/
def slpL1Ph (pkt : ByteMem) : SlpPos vectorLen :=
  if slpType pkt = tyFitData then fitBatch (slpSamples vectorLen pkt) else idle

/-- The next access of a core; one that is idle starts to handle a packet. -/
def act (position : SlpPos vectorLen) (state : SlpState vectorLen) (pkt : ByteMem) :
    SlpPos vectorLen × SlpState vectorLen :=
  match position with
  | idle => (slpL1Ph vectorLen pkt, state)
  | rLock sample rest =>
    let (pc, rwlock) := spinRwLockRLock state.rwlock
    (if pc = .firstReader then rWait sample rest else dot 0 0 sample rest, { state with rwlock })
  | rWait sample rest =>
    let (pc, rwlock) := spinGlock .reading .firstReader state.rwlock
    (if pc = .firstReader then rWait sample rest else dot 0 0 sample rest, { state with rwlock })
  | dot k sum sample rest =>
    let sum := sum + sample.factor k * state.weights k
    (nextTurn k (fun next => dot next sum sample rest) (rUnlock sum sample rest), state)
  | rUnlock sum sample rest =>
    let (pc, rwlock) := spinRwLockRUnlock state.rwlock
    (if pc = .lastReader then rRelease sum sample rest else wLock (sample.error sum) sample rest,
      { state with rwlock })
  | rRelease sum sample rest =>
    (wLock (sample.error sum) sample rest, { state with rwlock := (unlockGlock state.rwlock).2 })
  | wLock e sample rest =>
    let (pc, rwlock) := spinGlock .writing .writer state.rwlock
    (if pc = .writer then wLock e sample rest else load 0 e sample rest, { state with rwlock })
  | load k e sample rest => (store k (state.weights k) e sample rest, state)
  | store k loaded e sample rest =>
    (nextTurn k (fun next => load next e sample rest) (wUnlock e sample rest),
      { state with weights := Function.update state.weights k (sample.fit e k loaded) })
  | wUnlock _ _ rest => (fitBatch rest, { state with rwlock := (unlockGlock state.rwlock).2 })

/-- From when `spin_rw_lock_r_lock` counted the core until `spin_rw_lock_r_unlock` returns. -/
def Predicts : SlpPos vectorLen → Prop
  | rWait .. | dot .. | rUnlock .. | rRelease .. => True
  | _ => False

/-- The core has the lock for itself. -/
def Updates : SlpPos vectorLen → Prop
  | load .. | store .. | wUnlock .. => True
  | _ => False

instance : (position : SlpPos vectorLen) → Decidable position.Predicts
  | rWait .. | dot .. | rUnlock .. | rRelease .. => isTrue trivial
  | idle | rLock .. | wLock .. | load .. | store .. | wUnlock .. => isFalse id

instance : (position : SlpPos vectorLen) → Decidable position.Updates
  | load .. | store .. | wUnlock .. => isTrue trivial
  | idle | rLock .. | wLock .. | rWait .. | dot .. | rUnlock .. | rRelease .. => isFalse id

end SlpPos

/-! ## What a run does -/

/-- The predictions and the updates that are finished: the sums and the errors. -/
structure SlpLog (vectorLen : Nat) where
  predictions : List (Sample vectorLen × Word)
  updates : List (Sample vectorLen × Word)

/-- Updates one after the other, each of all weights at once. -/
def applyAll (weights : Weights vectorLen) (updates : List (Sample vectorLen × Word)) :
    Weights vectorLen :=
  updates.foldl (fun weights update k => update.1.fit update.2 k (weights k)) weights

theorem applyAll_concat (weights : Weights vectorLen) (updates : List (Sample vectorLen × Word))
    (sample : Sample vectorLen) (e : Word) (k : WeightId vectorLen) : applyAll weights (updates ++ [(sample, e)]) k =
      sample.fit e k (applyAll weights updates k) := by
  rw [applyAll, List.foldl_append]
  rfl

abbrev SlpRun (vectorLen : Nat) (Core : Type) := Threads Core (SlpPos vectorLen) (SlpState vectorLen)

namespace SlpRun

variable {Core : Type} (run : SlpRun vectorLen Core) (log : SlpLog vectorLen)

def record (input : Core × ByteMem) : SlpLog vectorLen :=
  match run.thread input.1 with
  | .rUnlock sum sample _ => { log with predictions := log.predictions ++ [(sample, sum)] }
  | .wUnlock e sample _ => { log with updates := log.updates ++ [(sample, e)] }
  | _ => log

/-- What a core needs to go on apart from the others: to become a reader, that none is writing,
    and to take the lock to write, that none is a reader. -/
def GoesApart : SlpPos vectorLen → Prop
  | .rLock .. => ∀ other, ¬(run.thread other).Updates
  | .wLock .. => run.shared.rwlock.glock = 0 → ∀ other, ¬(run.thread other).Predicts
  | _ => True

/-- Readers and writers keep apart. -/
def Apart (input : Core × ByteMem) : Prop := run.GoesApart (run.thread input.1)

instance [Fintype Core] : (position : SlpPos vectorLen) → Decidable (run.GoesApart position)
  | .rLock .. => inferInstanceAs (Decidable (∀ other, ¬(run.thread other).Updates))
  | .wLock .. => inferInstanceAs (Decidable (_ → ∀ other, ¬(run.thread other).Predicts))
  | .idle | .rWait .. | .dot .. | .rUnlock .. | .rRelease .. | .load .. | .store .. | .wUnlock .. =>
    isTrue trivial

instance [Fintype Core] (input : Core × ByteMem) : Decidable (run.Apart input) :=
  inferInstanceAs (Decidable (run.GoesApart (run.thread input.1)))

end SlpRun

variable (vectorLen) in
/-- Cores that fit packets, after the header handler ran. -/
def slpFit (Core : Type) [DecidableEq Core] (weights : Weights vectorLen) (rwlock : RwLock) :
    Machine (SlpRun vectorLen Core × SlpLog vectorLen) (Core × ByteMem) :=
  (Threads.interleave ⟨weights, rwlock⟩ SlpPos.idle SlpPos.act).observedBy ⟨[], []⟩ SlpRun.record

end Pspin
