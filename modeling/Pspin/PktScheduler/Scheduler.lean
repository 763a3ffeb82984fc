import Pspin.Config
import Pspin.Clocked.Machine
import Pspin.CommonCells.RrArbTree
import Pspin.CommonCells.SpillRegister

/-! # `scheduler`

Tasks go to the home cluster of their message if it has room and is ready, to the
least loaded ready cluster otherwise.  A task whose cluster turns out not to be
ready is kept until it is.  Registers cut the paths to and from the clusters.
-/

namespace Pspin

open Clocked

/-- `argmin4`: the first of the four smallest values, with those not enabled at the maximum. -/
def argmin4 (valueWidth : Nat) (valuesI : Fin 4 → Nat) (enabledI : Fin 4 → Bool) : Fin 4 :=
  let values i := if enabledI i then valuesI i else 2 ^ valueWidth - 1
  let minL0 : Fin 4 := if values 0 ≤ values 1 then 0 else 1
  let minL1 : Fin 4 := if values 2 ≤ values 3 then 2 else 3
  if values minL0 ≤ values minL1 then minL0 else minL1

inductive SchedulerState where
  | servePacket
  | waitTransfer
deriving DecidableEq, Repr

/-- The registers of `scheduler` and of the units in it. -/
structure Scheduler (numHersPerCluster : Nat) where
  stateQ : SchedulerState
  clusterOccupQ : ClusterId → Nat
  clusterIdQ : ClusterId
  taskQ : HandlerTask
  clusterTaskSpill : ClusterId → SpillRegister HandlerTask
  clusterFeedbackSpill : ClusterId → SpillRegister FeedbackDescr
  rrArbTree : RrArbTree numClusters

structure SchedulerIn where
  taskValidI : Bool
  taskDescrI : HandlerTask
  clusterTaskReadyI : ClusterId → Bool
  clusterFeedbackValidI : ClusterId → Bool
  clusterFeedbackI : ClusterId → FeedbackDescr
  pktgenFeedbackReadyI : Bool

namespace Scheduler

variable {numHersPerCluster : Nat}

def reset : Scheduler numHersPerCluster where
  stateQ := .servePacket
  clusterOccupQ := fun _ => 0
  clusterIdQ := 0
  taskQ := default
  clusterTaskSpill := fun _ => SpillRegister.reset
  clusterFeedbackSpill := fun _ => SpillRegister.reset
  rrArbTree := RrArbTree.reset

/-- One bit more than an index of a HER of the cluster. -/
def occupWidth (numHersPerCluster : Nat) : Nat := clog2 numHersPerCluster + 1

variable (sched : Scheduler numHersPerCluster) (inp : SchedulerIn)

/-! ## Cluster interface -/

def clusterTaskReadyId (i : ClusterId) : Bool := (sched.clusterTaskSpill i).readyO

def clusterTaskValidO (i : ClusterId) : Bool := (sched.clusterTaskSpill i).validO

def clusterTaskDescrO (i : ClusterId) : HandlerTask := (sched.clusterTaskSpill i).dataO

def clusterFeedbackReadyO (i : ClusterId) : Bool := (sched.clusterFeedbackSpill i).readyO

def clusterFeedbackValidIq (i : ClusterId) : Bool := (sched.clusterFeedbackSpill i).validO

def clusterFeedbackIq (i : ClusterId) : FeedbackDescr := (sched.clusterFeedbackSpill i).dataO

/-! ## Selection -/

def homeClusterId : ClusterId := Fin.ofNat numClusters inp.taskDescrI.msgid.toNat

def cOccupMin : ClusterId :=
  argmin4 (occupWidth numHersPerCluster) sched.clusterOccupQ sched.clusterTaskReadyId

def noClusterAvail : Bool := decide (numHersPerCluster ≤ sched.clusterOccupQ sched.cOccupMin)

def canUseHomeCluster : Bool :=
  sched.noClusterAvail ||
    (decide (sched.clusterOccupQ (homeClusterId inp) < numHersPerCluster) &&
      sched.clusterTaskReadyId (homeClusterId inp))

def selClusterId : ClusterId :=
  if sched.canUseHomeCluster inp then homeClusterId inp else sched.cOccupMin

def clusterIdD : ClusterId :=
  match sched.stateQ with
  | .servePacket => sched.selClusterId inp
  | .waitTransfer => sched.clusterIdQ

/-! ## State machine -/

def taskReadyO : Bool :=
  match sched.stateQ with
  | .servePacket => inp.taskValidI && !sched.noClusterAvail
  | .waitTransfer => false

def servingCluster : Bool :=
  match sched.stateQ with
  | .servePacket => inp.taskValidI && !sched.noClusterAvail
  | .waitTransfer => true

def stateD : SchedulerState :=
  match sched.stateQ with
  | .servePacket =>
    if inp.taskValidI && !sched.noClusterAvail then
      (if sched.clusterTaskReadyId (sched.clusterIdD inp) then .servePacket else .waitTransfer)
    else .servePacket
  | .waitTransfer =>
    if sched.clusterTaskReadyId sched.clusterIdQ then .servePacket else .waitTransfer

def clusterTaskDescrOd (_i : ClusterId) : HandlerTask :=
  match sched.stateQ with
  | .servePacket => inp.taskDescrI
  | .waitTransfer => sched.taskQ

def clusterTaskValidOd (i : ClusterId) : Bool :=
  decide (sched.clusterIdD inp = i) && sched.servingCluster inp

def taskD : HandlerTask :=
  if inp.taskValidI && sched.taskReadyO inp then inp.taskDescrI else sched.taskQ

/-! ## Feedbacks -/

def pktgenFeedbackValidO : Bool := sched.rrArbTree.reqO sched.clusterFeedbackValidIq

def pktgenFeedbackO : FeedbackDescr :=
  sched.clusterFeedbackIq (sched.rrArbTree.idxO sched.clusterFeedbackValidIq)

def clusterFeedbackReadyOq (i : ClusterId) : Bool :=
  sched.rrArbTree.gntO sched.clusterFeedbackValidIq inp.pktgenFeedbackReadyI i

/-! ## Occupation -/

def clusterOccupD (i : ClusterId) : Nat :=
  match sched.clusterTaskValidOd inp i && sched.clusterTaskReadyId i,
    sched.clusterFeedbackValidIq i && sched.clusterFeedbackReadyOq inp i with
  | true, false => increment (occupWidth numHersPerCluster) (sched.clusterOccupQ i)
  | false, true => decrement (occupWidth numHersPerCluster) (sched.clusterOccupQ i)
  | _, _ => sched.clusterOccupQ i

/-- One clock edge. -/
def step : Scheduler numHersPerCluster where
  stateQ := sched.stateD inp
  clusterOccupQ := sched.clusterOccupD inp
  clusterIdQ := sched.clusterIdD inp
  taskQ := sched.taskD inp
  clusterTaskSpill := fun i => (sched.clusterTaskSpill i).step (sched.clusterTaskValidOd inp i)
    (sched.clusterTaskDescrOd inp i) (inp.clusterTaskReadyI i)
  clusterFeedbackSpill := fun i => (sched.clusterFeedbackSpill i).step
    (inp.clusterFeedbackValidI i) (inp.clusterFeedbackI i) (sched.clusterFeedbackReadyOq inp i)
  rrArbTree := sched.rrArbTree.step sched.clusterFeedbackValidIq inp.pktgenFeedbackReadyI

end Scheduler

def scheduler (numHersPerCluster : Nat) : Machine (Scheduler numHersPerCluster) SchedulerIn where
  reset := Scheduler.reset
  step := Scheduler.step

end Pspin
