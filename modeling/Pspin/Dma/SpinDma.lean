import Pspin.Dma.Outstanding
import Pspin.Runtime.Atomics

/-! # DMA calls

Cores call `spin_dma`, `spin_dma_wait` and `spin_dma_test`, which access the registers of the DMA
frontend one at a time.  Reading `tf_id` starts the transfer that the other registers describe
and returns the next id of the frontend, which counts the transfers of all its ports; a call
compares it with `done_id`, which counts those that are complete.
-/

namespace Pspin

open Clocked

/-- A variable that `spin_dma` stores a handle to: which one of a core. -/
abbrev XferId (Core : Type) := Core × Nat

inductive SpinDmaCall (Core : Type) where
  | dma (source dest size : Word)
  | wait (xfer : XferId Core)
  | test (xfer : XferId Core)
deriving DecidableEq, Repr

/-- The loop of `spin__wait_for_tf_completion` goes on. -/
def spinWaits (tfId doneId : Word) : Bool := decide (tfId > doneId)

/-- `spin__tf_completed` -/
def spinTfCompleted (tfId doneId : Word) : Bool := decide (tfId ≤ doneId)

/-- Where a core is in a call, by the register it accesses next or whose word it waits for.  The
    reads of `done_id` are those of a wait or of a test. -/
inductive SpinDmaPos (Core : Type) where
  | idle
  -- `axidma__launch_oned`
  | srcAddr (source dest numBytes : Word)
  | dstAddr (dest numBytes : Word)
  | numBytes (numBytes : Word)
  | tfId
  | launched
  -- `axidma__read_completed_id`
  | doneId (waits : Bool) (xfer : XferId Core) (tfId : Word)
  | compare (waits : Bool) (xfer : XferId Core) (tfId : Word)
deriving DecidableEq, Repr

namespace SpinDmaPos

variable {Core : Type}

/-- `PRIVATE_DMA_BASE` -/
def privateDmaBase : Word := 0x1b204400

def quiet : DmaCtrlReq := ⟨false, false, 0, 0, 0⟩

def store (offset data : Word) : DmaCtrlReq := ⟨true, false, 0xf, privateDmaBase + offset, data⟩

def load (offset : Word) : DmaCtrlReq := ⟨true, true, 0xf, privateDmaBase + offset, 0⟩

/-- The access of a core, at the offsets of `axidma__dma_conf_t`. -/
def ctrl : SpinDmaPos Core → DmaCtrlReq
  | srcAddr source _ _ => store 0x00 source
  | dstAddr dest _ => store 0x08 dest
  | numBytes size => store 0x10 size
  | tfId => load 0x18
  | doneId .. => load 0x20
  | idle | launched | compare .. => quiet

/-- A call starts; `spin_dma` of nothing fails at once. -/
def start (xfer? : XferId Core → Option Word) : Option (SpinDmaCall Core) → SpinDmaPos Core
  | some (.dma source dest size) => if 0 < size then srcAddr source dest size else idle
  | some (.wait xfer) => ((xfer? xfer).map (doneId true xfer)).getD idle
  | some (.test xfer) => ((xfer? xfer).map (doneId false xfer)).getD idle
  | none => idle

/-- Whether the access was granted and the word that the last one returned. -/
def next (position : SpinDmaPos Core) (gnt : Bool) (rData : Word) : SpinDmaPos Core :=
  match position with
  | idle => idle
  | srcAddr source dest size => if gnt then dstAddr dest size else srcAddr source dest size
  | dstAddr dest size => if gnt then numBytes size else dstAddr dest size
  | numBytes size => if gnt then tfId else numBytes size
  | tfId => if gnt then launched else tfId
  | launched => idle
  | doneId waits xfer handle => if gnt then compare waits xfer handle else doneId waits xfer handle
  | compare waits xfer handle =>
    if waits && spinWaits handle rData then doneId waits xfer handle else idle

end SpinDmaPos

/-! ## Cores and frontend -/

/-- The frontend, where the cores are, and the handles that their calls returned. -/
structure SpinDma (params : PulpClusterFrontendParams) where
  frontend : PulpClusterFrontend params
  cores : params.CoreId → SpinDmaPos params.CoreId
  xfers : params.CoreId → List Word

/-- What cores without a call begin and which cores stall, and the other inputs of the frontend. -/
structure SpinDmaIn (params : PulpClusterFrontendParams) where
  calls : params.CoreId → Option (SpinDmaCall params.CoreId)
  stalls : params.CoreId → Bool
  ctrlPeTarg : DmaCtrlReq
  dmaReqValidI : Bool
  dmaReqI : TransfDescr32
  beReadyArb : Bool
  beIdle : Bool
  transComplete : Bool

namespace SpinDma

open PulpClusterFrontend PulpClusterFrontendRegs

variable {params : PulpClusterFrontendParams}

def reset : SpinDma params where
  frontend := PulpClusterFrontend.reset
  cores := fun _ => .idle
  xfers := fun _ => []

variable (system : SpinDma params) (inp : SpinDmaIn params) (i : params.CoreId)

def xfer? (xfer : XferId params.CoreId) : Option Word := (system.xfers xfer.1)[xfer.2]?

def ctrlTarg : DmaCtrlReq := if inp.stalls i then SpinDmaPos.quiet else (system.cores i).ctrl

def frontendIn : PulpClusterFrontendIn params :=
  { ctrlTarg := system.ctrlTarg inp, ctrlPeTarg := inp.ctrlPeTarg,
    dmaReqValidI := inp.dmaReqValidI, dmaReqI := inp.dmaReqI, beReadyArb := inp.beReadyArb,
    beIdle := inp.beIdle, transComplete := inp.transComplete }

def ctrlTargGnt : Bool :=
  ctrlGntO (system.ctrlTarg inp i)
    (system.frontend.beReady (system.frontendIn inp) (params.corePort i))

def rData : Word := (system.frontend.confRegsCores i).rdataQ

/-- One clock edge. -/
def step : SpinDma params where
  frontend := system.frontend.step (system.frontendIn inp)
  cores := fun i =>
    if system.cores i = .idle then SpinDmaPos.start system.xfer? (inp.calls i)
    else (system.cores i).next (system.ctrlTargGnt inp i) (system.rData i)
  xfers := fun i =>
    system.xfers i ++ if system.cores i = .launched then [system.rData i] else []

end SpinDma

def spinDma (params : PulpClusterFrontendParams) : Machine (SpinDma params) (SpinDmaIn params) where
  reset := SpinDma.reset
  step := SpinDma.step

/-! ## What the calls do -/

/-- What a read of `done_id` told about a handle, with the transfers that were complete then. -/
structure DmaAnswer (Core : Type) where
  xfer : XferId Core
  completed : Bool
  done : Nat
deriving DecidableEq, Repr

/-- The transfers; the numbers of the one that a core started last and of those whose handles it
    got; what the cores were told, with how many transfers were complete in the last cycle, when
    they read what they compare. -/
structure SpinDmaHistory (params : PulpClusterFrontendParams) where
  dma : DmaHistory params
  started : params.CoreId → Nat
  numbers : params.CoreId → List Nat
  seen : Nat
  answers : params.CoreId → List (DmaAnswer params.CoreId)

namespace SpinDmaHistory

variable {params : PulpClusterFrontendParams}

def empty : SpinDmaHistory params where
  dma := DmaHistory.empty
  started := fun _ => 0
  numbers := fun _ => []
  seen := 0
  answers := fun _ => []

/-- What a core finds when it compares. -/
def answer? (rData : Word) (seen : Nat) : SpinDmaPos params.CoreId → Option (DmaAnswer params.CoreId)
  | .compare true xfer handle => some ⟨xfer, !spinWaits handle rData, seen⟩
  | .compare false xfer handle => some ⟨xfer, spinTfCompleted handle rData, seen⟩
  | _ => none

def record (system : SpinDma params) (history : SpinDmaHistory params) (inp : SpinDmaIn params) :
    SpinDmaHistory params where
  dma := DmaHistory.record system.frontend history.dma (system.frontendIn inp)
  started := fun i =>
    if system.cores i = .tfId ∧ system.ctrlTargGnt inp i = true
    then history.dma.started.length + 1 else history.started i
  numbers := fun i =>
    history.numbers i ++ if system.cores i = .launched then [history.started i] else []
  seen := history.dma.completed
  answers := fun i =>
    history.answers i ++ (answer? (system.rData i) history.seen (system.cores i)).toList

def number? (history : SpinDmaHistory params) (xfer : XferId params.CoreId) : Option Nat :=
  (history.numbers xfer.1)[xfer.2]?

end SpinDmaHistory

abbrev SpinDmaTrace (params : PulpClusterFrontendParams) := SpinDma params × SpinDmaHistory params

def spinDmaTrace (params : PulpClusterFrontendParams) :
    Machine (SpinDmaTrace params) (SpinDmaIn params) :=
  (spinDma params).observedBy SpinDmaHistory.empty SpinDmaHistory.record

end Pspin
