import Mathlib.Data.List.Basic

/-! # `spill_register`

Two registers that cut every combinational path of a handshake.  Register `A`
takes the input, register `B` what `A` drains while the output is not ready; `B`
is emptied first.  Together they are a FIFO of two entries.
-/

namespace Pspin

structure SpillRegister (α : Type) where
  aDataQ : α
  aFullQ : Bool
  bDataQ : α
  bFullQ : Bool
deriving Inhabited

namespace SpillRegister

variable {α : Type}

def reset [Inhabited α] : SpillRegister α where
  aDataQ := default
  aFullQ := false
  bDataQ := default
  bFullQ := false

def readyO (spill : SpillRegister α) : Bool := !spill.aFullQ || !spill.bFullQ

def validO (spill : SpillRegister α) : Bool := spill.aFullQ || spill.bFullQ

def dataO (spill : SpillRegister α) : α := if spill.bFullQ then spill.bDataQ else spill.aDataQ

/-- One clock edge. -/
def step (spill : SpillRegister α) (validI : Bool) (dataI : α) (readyI : Bool) : SpillRegister α :=
  let aFill := validI && spill.readyO
  let aDrain := spill.aFullQ && !spill.bFullQ
  let bFill := aDrain && !readyI
  let bDrain := spill.bFullQ && readyI
  { aDataQ := if aFill then dataI else spill.aDataQ
    aFullQ := if aFill || aDrain then aFill else spill.aFullQ
    bDataQ := if bFill then spill.aDataQ else spill.bDataQ
    bFullQ := if bFill || bDrain then bFill else spill.bFullQ }

/-- What the register holds, oldest first. -/
def contents (spill : SpillRegister α) : List α :=
  (if spill.bFullQ then [spill.bDataQ] else []) ++ (if spill.aFullQ then [spill.aDataQ] else [])

@[simp] theorem contents_reset [Inhabited α] : (reset : SpillRegister α).contents = [] := rfl

@[simp] theorem readyO_eq_true {spill : SpillRegister α} :
    spill.readyO = true ↔ spill.contents.length < 2 := by
  cases a : spill.aFullQ <;> cases b : spill.bFullQ <;> simp [readyO, contents, a, b]

@[simp] theorem validO_eq_true {spill : SpillRegister α} :
    spill.validO = true ↔ spill.contents ≠ [] := by
  cases a : spill.aFullQ <;> cases b : spill.bFullQ <;> simp [validO, contents, a, b]

/-- What leaves the register in a cycle. -/
theorem output_eq (spill : SpillRegister α) (readyI : Bool) :
    (if spill.validO && readyI then [spill.dataO] else []) =
      if readyI then spill.contents.head?.toList else [] := by
  cases a : spill.aFullQ <;> cases b : spill.bFullQ <;> cases readyI <;>
    simp [contents, dataO, validO, a, b]

/-- A cycle drops the front entry if the output is ready and appends the input
    if it is accepted. -/
theorem contents_step (spill : SpillRegister α) (validI : Bool) (dataI : α) (readyI : Bool) :
    (spill.step validI dataI readyI).contents =
      (if readyI then spill.contents.tail else spill.contents) ++
        (if validI && spill.readyO then [dataI] else []) := by
  cases a : spill.aFullQ <;> cases b : spill.bFullQ <;> cases validI <;> cases readyI <;>
    simp [contents, step, readyO, a, b]

/-- While the output is not ready, the front entry stays. -/
theorem stalls {spill : SpillRegister α} (valid : spill.validO = true) (validI : Bool) (dataI : α) :
    (spill.step validI dataI false).validO = true ∧
      (spill.step validI dataI false).dataO = spill.dataO := by
  cases a : spill.aFullQ <;> cases b : spill.bFullQ <;> cases validI <;>
    simp [validO, dataO, step, readyO, a, b] at valid ⊢

end SpillRegister

end Pspin
