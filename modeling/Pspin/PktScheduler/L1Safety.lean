import Pspin.PktScheduler.ClusterRbLive
import Pspin.PktScheduler.ClusterDispatch

/-! # The L1 packet buffer of a cluster

A task is live from when it is accepted to when it is answered.  The slots the
rings have handed out are the slots of the live tasks, ring by ring, so the places
of live tasks are apart as long as no allocation is refused.  A refusal needs a
task that would fill a ring exactly to its head: the space on offer counts this
place, the fit test does not take it, and the acceptance does not look.
-/

namespace Pspin

open Clocked

/-! ## Sizes -/

theorem rbMemLength_eq (slotBits : Nat) : rbMemLength slotBits = 2 ^ (slotBits + 6) := by
  norm_num [rbMemLength, numSlots, pktBuffMemSlotSize, pow_add]

namespace ClusterSchedulerParams

variable (params : ClusterSchedulerParams)

theorem l1PktBuffSize_eq : params.l1PktBuffSize = 2 ^ (params.slotBits + 8) := by
  rw [l1PktBuffSize, rbMemLength_eq, numRB, pow_add, pow_add]
  ring

/-- The packet buffer ends below the end of the address space. -/
theorem l1PktBuff_addressable :
    params.l1PktBaseAddr.toNat + params.l1PktBuffSize < 2 ^ 32 := by
  have cluster := params.clusterId.isLt
  have size : params.l1PktBuffSize ≤ 2 ^ 31 := by
    rw [l1PktBuffSize_eq]
    exact Nat.pow_le_pow_right (by decide) (by have := params.addressable; omega)
  have base : params.l1PktBaseAddr.toNat = 0x10004400 + params.clusterId.toNat * 0x400000 := by
    simp only [l1PktBaseAddr, BitVec.toNat_ofNat, l1ClusterBase, l1ClusterMemSize,
      l1PktBuffOffset, l1RuntimeOffset, l1RuntimeSize]
    omega
  omega

end ClusterSchedulerParams

/-! ## The place of a task -/

section Place

variable (params : ClusterSchedulerParams) (task : HpuHandlerTask)

/-- The bytes a task's packet takes in L1. -/
def HpuHandlerTask.l1Bytes : Region := ⟨task.pktPtr.toNat, task.handlerTask.pktSize.toNat⟩

def l1Offset : Nat := (task.pktPtr - params.l1PktBaseAddr).toNat

def ringOf : Nat := l1Offset params task / rbMemLength params.slotBits

/-- The slots of a task in its ring. -/
def slotsOfTask : Region where
  start := l1Offset params task % rbMemLength params.slotBits / pktBuffMemSlotSize
  size := ClusterRb.slotsOf (numSlots params.slotBits)
    (ClusterScheduler.allocSize params task.handlerTask.pktSize)

/-- The place of a task starts with a slot of a ring that is long enough. -/
structure Placed : Prop where
  offset_eq : task.pktPtr.toNat = params.l1PktBaseAddr.toNat + l1Offset params task
  offset_lt : l1Offset params task < params.l1PktBuffSize
  aligned : l1Offset params task % pktBuffMemSlotSize = 0
  size_le : task.handlerTask.pktSize.toNat ≤ rbMemLength params.slotBits

/-- The slots of those of the tasks that have their packets in a ring. -/
def inRing (ring : Fin numRB) (tasks : List HpuHandlerTask) : List Region :=
  (tasks.filter fun task => task.hasPacket && decide (ringOf params task = ring)).map
    (slotsOfTask params)

end Place

section Place

variable {params : ClusterSchedulerParams} {task : HpuHandlerTask}

theorem inRing_append (ring : Fin numRB) (first second : List HpuHandlerTask) :
    inRing params ring (first ++ second) = inRing params ring first ++ inRing params ring second := by
  rw [inRing, List.filter_append, List.map_append]
  rfl

theorem inRing_perm (params : ClusterSchedulerParams) (ring : Fin numRB) {tasks tasks' : List HpuHandlerTask}
    (same : tasks.Perm tasks') : (inRing params ring tasks).Perm (inRing params ring tasks') :=
  (same.filter _).map _

theorem inRing_singleton (ring : Fin numRB) :
    inRing params ring [task] =
      if task.hasPacket && decide (ringOf params task = ring) then [slotsOfTask params task] else [] := by
  unfold inRing
  cases selected : task.hasPacket && decide (ringOf params task = ring) <;> simp [selected]

theorem allocSize_eq {size : MemSize} (small : size.toNat ≤ rbMemLength params.slotBits) :
    ClusterScheduler.allocSize params size = size.toNat := by
  apply truncate_of_lt
  rw [params.l1PktBuffSize_eq, clog2_two_pow]
  rw [rbMemLength_eq] at small
  have narrower : 2 ^ (params.slotBits + 6) < 2 ^ (params.slotBits + 8 + 1) :=
    Nat.pow_lt_pow_right (by decide) (by omega)
  omega

namespace Placed

variable (placed : Placed params task)

include placed

theorem ringOf_lt : ringOf params task < numRB :=
  Nat.div_lt_of_lt_mul (by
    have := placed.offset_lt
    rwa [ClusterSchedulerParams.l1PktBuffSize, Nat.mul_comm] at this)

theorem slots_eq :
    (slotsOfTask params task).size = (task.handlerTask.pktSize.toNat + 63) / 64 := by
  have small := placed.size_le
  show ClusterRb.slotsOf (numSlots params.slotBits) (ClusterScheduler.allocSize params _) = _
  rw [allocSize_eq small, ClusterRb.slotsOf_eq small]

/-- The offset of a task is that of its ring and that of its first slot. -/
theorem offset_split : l1Offset params task =
    ringOf params task * rbMemLength params.slotBits +
      (slotsOfTask params task).start * pktBuffMemSlotSize := by
  have split := Nat.div_add_mod (l1Offset params task) (rbMemLength params.slotBits)
  have aligned : l1Offset params task % rbMemLength params.slotBits % pktBuffMemSlotSize = 0 := by
    rw [rbMemLength, Nat.mod_mul_left_mod]
    exact placed.aligned
  have slot := Nat.div_add_mod (l1Offset params task % rbMemLength params.slotBits)
    pktBuffMemSlotSize
  rw [aligned, Nat.add_zero, Nat.mul_comm] at slot
  rw [← split, ← slot, Nat.mul_comm]
  rfl

end Placed

end Place

/-! ## A new task -/

namespace ClusterScheduler

variable {params : ClusterSchedulerParams} {cluster : ClusterScheduler params}
  {inp : ClusterSchedulerIn params}

/-- The ring the shim selects in a cycle. -/
def selRing (cluster : ClusterScheduler params) (inp : ClusterSchedulerIn params) : Fin numRB :=
  cluster.herAlloc.selRbIdx (cluster.herAllocIn inp)

/-- The inputs of a ring in a cycle. -/
def ringIn (cluster : ClusterScheduler params) (inp : ClusterSchedulerIn params)
    (ring : Fin numRB) : ClusterRbIn :=
  cluster.herAlloc.rbIn (cluster.herAllocIn inp) ring

/-- What the shim offers is offered by one of its rings. -/
theorem freeSpaceO_attained (shim : ClusterRbShim params.slotBits) :
    ∃ ring, shim.freeSpaceO = shim.rbFreeSpace ring := by
  have attained (rings : List (Fin numRB)) (most : Nat)
      (offered : ∃ ring, most = shim.rbFreeSpace ring) :
      ∃ ring, rings.foldl (fun most i => if most ≥ shim.rbFreeSpace i then most
        else shim.rbFreeSpace i) most = shim.rbFreeSpace ring := by
    induction rings generalizing most with
    | nil => exact offered
    | cons first rings inductionHypothesis =>
      rw [List.foldl_cons]
      apply inductionHypothesis
      split
      · exact offered
      · exact ⟨first, rfl⟩
  exact attained _ _ ⟨0, rfl⟩

variable {live : List HpuHandlerTask}

/-- The slots the rings have handed out are those of the live tasks. -/
def RingsHold (cluster : ClusterScheduler params) (live : List HpuHandlerTask) : Prop :=
  ∀ ring, (cluster.herAlloc.rb ring).Inv (inRing params ring live)

/-- An accepted task is no larger than the space the selected ring has on offer. -/
theorem accepted_fits (rings : cluster.RingsHold live) (accepts : cluster.taskAccepted inp = true) :
    inp.taskDescrI.pktSize.toNat ≤ rbMemLength params.slotBits ∧
      inp.taskDescrI.pktSize.toNat ≤ (cluster.herAlloc.rb (cluster.selRing inp)).freeSpaceO := by
  obtain ⟨most, offers⟩ := freeSpaceO_attained cluster.herAlloc
  have enough : inp.taskDescrI.pktSize.toNat ≤ cluster.herAlloc.freeSpaceO := by
    simp only [taskAccepted, taskReadyO, Bool.and_eq_true, decide_eq_true_eq] at accepts
    exact accepts.2.2
  rw [offers] at enough
  have small : inp.taskDescrI.pktSize.toNat ≤ rbMemLength params.slotBits :=
    le_trans enough (ClusterRb.freeSpaceO_le (rings most).inRing)
  have size : (cluster.herAllocIn inp).allocSizeI = inp.taskDescrI.pktSize.toNat :=
    allocSize_eq small
  have found : lzcEmpty numRB (cluster.herAlloc.rbWithSpace (cluster.herAllocIn inp)) = false := by
    refine lzcEmpty_eq_false.mpr ⟨most, most.isLt, ?_⟩
    simp only [ClusterRbShim.rbWithSpace, most.isLt, dif_pos, decide_eq_true_eq, size]
    exact enough
  -- the leading-zero counter picks a ring that has room, not the roomiest one
  obtain ⟨inside, space, -⟩ := lzcCnt_spec found
  refine ⟨small, ?_⟩
  simp only [ClusterRbShim.rbWithSpace, inside, dif_pos, decide_eq_true_eq, size] at space
  have selected : cluster.selRing inp = ⟨_, inside⟩ := Fin.ext (Nat.mod_eq_of_lt inside)
  rw [selected]
  exact space

theorem pushSize_ringIn (cluster : ClusterScheduler params)
    (small : inp.taskDescrI.pktSize.toNat ≤ rbMemLength params.slotBits)
    (ring : Fin numRB) : ClusterRb.pushSize (numSlots params.slotBits) (cluster.ringIn inp ring) =
      (inp.taskDescrI.pktSize.toNat + 63) / 64 := by
  show ClusterRb.slotsOf (numSlots params.slotBits) (allocSize params inp.taskDescrI.pktSize) = _
  rw [allocSize_eq small, ClusterRb.slotsOf_eq small]

theorem selRing_of_valid {ring : Fin numRB}
    (valid : (cluster.ringIn inp ring).allocValidI = true) :
    ring = cluster.selRing inp ∧ cluster.taskAccepted inp = true := by
  have both : (decide (ring = cluster.selRing inp) && cluster.taskAccepted inp) = true := valid
  rwa [Bool.and_eq_true, decide_eq_true_eq] at both

theorem push_small (rings : cluster.RingsHold live) (ring : Fin numRB)
    (valid : (cluster.ringIn inp ring).allocValidI = true) :
    ClusterRb.pushSize (numSlots params.slotBits) (cluster.ringIn inp ring) ≤
      (cluster.herAlloc.rb ring).freeSlots := by
  obtain ⟨rfl, accepts⟩ := selRing_of_valid valid
  obtain ⟨small, fits⟩ := accepted_fits rings accepts
  rw [pushSize_ringIn cluster small]
  have space : (cluster.herAlloc.rb (cluster.selRing inp)).freeSpaceO =
    (cluster.herAlloc.rb (cluster.selRing inp)).freeSlots * 64 := rfl
  omega

/-- An accepted task with a packet gets its place unless that would fill the selected
    ring to its head. -/
theorem pktAllocReady_iff (rings : cluster.RingsHold live)
    (accepts : cluster.taskAccepted inp = true) (packet : inp.taskDescrI.pktSize ≠ 0) :
    cluster.pktAllocReady inp = true ↔
      ¬(cluster.herAlloc.rb (cluster.selRing inp)).FillsToHead
        (ClusterRb.slotsOf (numSlots params.slotBits) (allocSize params inp.taskDescrI.pktSize)) := by
  have valid : (cluster.ringIn inp (cluster.selRing inp)).allocValidI = true := by
    simp [ringIn, ClusterRbShim.rbIn, selRing, herAllocIn, accepts]
  have some : 0 < ClusterRb.pushSize (numSlots params.slotBits)
      (cluster.ringIn inp (cluster.selRing inp)) := by
    have positive : inp.taskDescrI.pktSize.toNat ≠ 0 := by
      intro zero
      exact packet (BitVec.eq_of_toNat_eq zero)
    rw [pushSize_ringIn cluster (accepted_fits rings accepts).1]
    omega
  have fits := ClusterRb.dataFits_iff (rings (cluster.selRing inp)) some
    (push_small rings _ valid)
  have ready : cluster.pktAllocReady inp =
    ((cluster.herAlloc.rb (cluster.selRing inp)).dataFits (cluster.ringIn inp (cluster.selRing inp)) &&
      (cluster.ringIn inp (cluster.selRing inp)).allocValidI) := rfl
  rw [ready, valid, Bool.and_true]
  exact fits

/-! ## The place of a new task -/

/-- A push starts inside its ring. -/
theorem pushIdx_inside (rb : ClusterRb (numSlots params.slotBits) params.slotBits) (ringInp : ClusterRbIn) :
    rb.pushIdx ringInp * pktBuffMemSlotSize < rbMemLength params.slotBits :=
  Nat.mul_lt_mul_of_pos_right (truncate_lt _ _) (by decide)

theorem freePktIdx_eq (cluster : ClusterScheduler params) (inp : ClusterSchedulerIn params) :
    cluster.freePktIdx inp = cluster.selRing inp * rbMemLength params.slotBits +
      (cluster.herAlloc.rb (cluster.selRing inp)).pushIdx (cluster.ringIn inp (cluster.selRing inp)) *
        pktBuffMemSlotSize := rfl

theorem freePktIdx_lt (cluster : ClusterScheduler params) (inp : ClusterSchedulerIn params) :
    cluster.freePktIdx inp < params.l1PktBuffSize := by
  have ring := (cluster.selRing inp).isLt
  have inside := pushIdx_inside (cluster.herAlloc.rb (cluster.selRing inp))
    (cluster.ringIn inp (cluster.selRing inp))
  rw [freePktIdx_eq, ClusterSchedulerParams.l1PktBuffSize]
  calc _ < cluster.selRing inp * rbMemLength params.slotBits + rbMemLength params.slotBits :=
        Nat.add_lt_add_left inside _
    _ = (cluster.selRing inp + 1) * rbMemLength params.slotBits := by rw [Nat.add_mul, Nat.one_mul]
    _ ≤ numRB * rbMemLength params.slotBits := Nat.mul_le_mul_right _ ring

theorem l1Offset_newTask (cluster : ClusterScheduler params) (inp : ClusterSchedulerIn params) :
    l1Offset params (cluster.newTask inp) = cluster.freePktIdx inp := by
  have inside := cluster.freePktIdx_lt inp
  have fits := params.l1PktBuff_addressable
  show (params.l1PktBaseAddr + BitVec.ofNat 32 (cluster.freePktIdx inp) -
    params.l1PktBaseAddr).toNat = _
  rw [BitVec.add_comm, BitVec.add_sub_cancel, BitVec.toNat_ofNat]
  exact Nat.mod_eq_of_lt (by omega)

theorem ringOf_newTask (cluster : ClusterScheduler params) (inp : ClusterSchedulerIn params) :
    ringOf params (cluster.newTask inp) = cluster.selRing inp := by
  have inside := pushIdx_inside (cluster.herAlloc.rb (cluster.selRing inp))
    (cluster.ringIn inp (cluster.selRing inp))
  have positive : 0 < rbMemLength params.slotBits := lt_of_le_of_lt (Nat.zero_le _) inside
  rw [ringOf, l1Offset_newTask, freePktIdx_eq, Nat.mul_comm, Nat.mul_add_div positive,
    Nat.div_eq_of_lt inside, Nat.add_zero]

theorem slotsOfTask_newTask (cluster : ClusterScheduler params) (inp : ClusterSchedulerIn params) :
    slotsOfTask params (cluster.newTask inp) =
      (cluster.herAlloc.rb (cluster.selRing inp)).pushRegion
        (cluster.ringIn inp (cluster.selRing inp)) := by
  have inside := pushIdx_inside (cluster.herAlloc.rb (cluster.selRing inp))
    (cluster.ringIn inp (cluster.selRing inp))
  rw [slotsOfTask, l1Offset_newTask, freePktIdx_eq, Nat.mul_comm, Nat.mul_add_mod,
    Nat.mod_eq_of_lt inside, Nat.mul_div_cancel _ (by decide)]
  rfl

theorem placed_newTask (small : inp.taskDescrI.pktSize.toNat ≤ rbMemLength params.slotBits) :
    Placed params (cluster.newTask inp) where
  offset_eq := by
    have inside := cluster.freePktIdx_lt inp
    have fits := params.l1PktBuff_addressable
    rw [l1Offset_newTask]
    show (params.l1PktBaseAddr + BitVec.ofNat 32 (cluster.freePktIdx inp)).toNat = _
    rw [BitVec.toNat_add, BitVec.toNat_ofNat, Nat.add_mod_mod]
    exact Nat.mod_eq_of_lt (by omega)
  offset_lt := by
    rw [l1Offset_newTask]
    exact cluster.freePktIdx_lt inp
  aligned := by
    rw [l1Offset_newTask, freePktIdx_eq, rbMemLength, ← Nat.mul_assoc, ← Nat.add_mul]
    exact Nat.mul_mod_left _ _
  size_le := small

end ClusterScheduler

/-! ## Runs -/

namespace ClusterTrace

open ClusterScheduler ClusterHistory

variable {params : ClusterSchedulerParams}

/-- The tasks accepted and not answered yet. -/
def live (trace : ClusterTrace params) : List HpuHandlerTask :=
  trace.1.dmaRequestFifo.contents ++ trace.2.running

/-- A feedback that is taken answers a task that runs. -/
def PermitsFeedback (trace : ClusterTrace params) (inp : ClusterSchedulerIn params) : Prop :=
  trace.1.feedbackValidO inp = true → inp.feedbackReadyI = true →
    trace.2.running.any (trace.1.hpuFeedbackArbI inp).answers = true

instance (trace : ClusterTrace params) (inp : ClusterSchedulerIn params) :
    Decidable (trace.PermitsFeedback inp) :=
  inferInstanceAs (Decidable (_ → _ → _))

/-- No task with a packet is accepted that fills the selected ring to its head. -/
def AvoidsFill (trace : ClusterTrace params) (inp : ClusterSchedulerIn params) : Prop :=
  trace.1.taskAccepted inp = true → inp.taskDescrI.pktSize ≠ 0 →
    ¬(trace.1.herAlloc.rb (trace.1.selRing inp)).FillsToHead
      (ClusterRb.slotsOf (numSlots params.slotBits) (allocSize params inp.taskDescrI.pktSize))

instance (trace : ClusterTrace params) (inp : ClusterSchedulerIn params) :
    Decidable (trace.AvoidsFill inp) :=
  inferInstanceAs (Decidable (_ → _ → _))

/-- The packets of live tasks have places of their own inside the packet buffer, and
    no accepted task was refused its place. -/
structure L1Safe (trace : ClusterTrace params) : Prop where
  disjoint : (withPacket trace.live).Pairwise fun first second =>
    first.l1Bytes.Apart second.l1Bytes
  inside : ∀ task ∈ withPacket trace.live,
    params.l1PktBaseAddr.toNat ≤ task.l1Bytes.start ∧
      task.l1Bytes.start + task.l1Bytes.size ≤ params.l1PktBaseAddr.toNat + params.l1PktBuffSize
  allocated : trace.2.refused = []

/-- What the induction carries. -/
structure Allocated (trace : ClusterTrace params) : Prop where
  rings : trace.1.RingsHold trace.live
  placed : ∀ task ∈ withPacket trace.live, Placed params task
  allocated : trace.2.refused = []

/-! ## The law from the invariant -/

theorem slots_inside {trace : ClusterTrace params} (allocated : Allocated trace)
    {task : HpuHandlerTask} (member : task ∈ withPacket trace.live) :
    (slotsOfTask params task).start + (slotsOfTask params task).size ≤
      numSlots params.slotBits := by
  obtain ⟨isLive, packet⟩ := List.mem_filter.mp member
  have ring := (allocated.placed task member).ringOf_lt
  apply (allocated.rings ⟨_, ring⟩).layout.inside
  apply List.mem_map_of_mem
  simp [isLive, packet]

/-- A byte of a packet is in a slot of its task, inside the ring. -/
theorem slot_of_byte {task : HpuHandlerTask} (placed : Placed params task)
    (inside : (slotsOfTask params task).start + (slotsOfTask params task).size ≤
      numSlots params.slotBits) {byte : Nat} (contains : task.l1Bytes.Contains byte) :
    ∃ offset < rbMemLength params.slotBits,
      byte = params.l1PktBaseAddr.toNat + (ringOf params task * rbMemLength params.slotBits + offset) ∧
        (slotsOfTask params task).Contains (offset / pktBuffMemSlotSize) := by
  obtain ⟨low, high⟩ := contains
  have start : task.l1Bytes.start = params.l1PktBaseAddr.toNat + l1Offset params task :=
    placed.offset_eq
  have size := placed.slots_eq
  have sizeBytes : task.l1Bytes.size = task.handlerTask.pktSize.toNat := rfl
  rw [placed.offset_split] at start
  have ends := Nat.mul_le_mul_right pktBuffMemSlotSize inside
  have length : rbMemLength params.slotBits = numSlots params.slotBits * pktBuffMemSlotSize := rfl
  rw [Nat.add_mul] at ends
  simp only [pktBuffMemSlotSize] at *
  refine ⟨byte - params.l1PktBaseAddr.toNat - ringOf params task * rbMemLength params.slotBits,
    by omega, by omega, ?_, ?_⟩ <;> omega

/-- Packets in one ring are apart as their slots are, packets in two as the rings are. -/
theorem bytes_apart {first second : HpuHandlerTask} (firstPlaced : Placed params first)
    (secondPlaced : Placed params second)
    (firstInside : (slotsOfTask params first).start + (slotsOfTask params first).size ≤
      numSlots params.slotBits)
    (secondInside : (slotsOfTask params second).start + (slotsOfTask params second).size ≤
      numSlots params.slotBits)
    (slotsApart : ringOf params first = ringOf params second →
      (slotsOfTask params first).Apart (slotsOfTask params second)) :
    first.l1Bytes.Apart second.l1Bytes := by
  intro byte inFirst inSecond
  obtain ⟨offset, below, byFirst, slotFirst⟩ := slot_of_byte firstPlaced firstInside inFirst
  obtain ⟨offset', below', bySecond, slotSecond⟩ := slot_of_byte secondPlaced secondInside inSecond
  have same : ringOf params first * rbMemLength params.slotBits + offset =
      ringOf params second * rbMemLength params.slotBits + offset' := by omega
  -- one byte has one ring and one offset in it
  have ring : ringOf params first = ringOf params second := by
    have quotient := congrArg (· / rbMemLength params.slotBits) same
    simpa [Nat.add_comm, Nat.add_mul_div_right,
      show 0 < rbMemLength params.slotBits by omega, Nat.div_eq_of_lt below,
      Nat.div_eq_of_lt below'] using quotient
  rw [ring] at same
  have offsets : offset = offset' := Nat.add_left_cancel same
  exact slotsApart ring _ slotFirst (offsets ▸ slotSecond)

theorem Allocated.l1Safe {trace : ClusterTrace params} (allocated : Allocated trace) :
    L1Safe trace where
  disjoint := by
    refine List.pairwise_iff_forall_sublist.mpr fun {first second} both => ?_
    have firstMember : first ∈ withPacket trace.live := both.subset (by simp)
    have secondMember : second ∈ withPacket trace.live := both.subset (by simp)
    have placed := allocated.placed first firstMember
    refine bytes_apart placed (allocated.placed second secondMember)
      (slots_inside allocated firstMember) (slots_inside allocated secondMember) fun ring => ?_
    -- the two tasks, in this order, as they stand among those of their ring
    have selected := (both.filter fun task => decide (ringOf params task = ringOf params first)).map
      (slotsOfTask params)
    rw [withPacket, List.filter_filter] at selected
    simp only [ring, decide_true, List.filter_cons_of_pos, List.filter_nil, List.map_cons,
      List.map_nil] at selected
    have apart := (allocated.rings ⟨_, placed.ringOf_lt⟩).layout.apart
    simp only [inRing, Bool.and_comm, ring] at apart
    exact List.pairwise_iff_forall_sublist.mp apart selected
  inside task member := by
    have placed := allocated.placed task member
    have slots := Nat.mul_le_mul_right pktBuffMemSlotSize (slots_inside allocated member)
    have start : task.l1Bytes.start = params.l1PktBaseAddr.toNat + l1Offset params task :=
      placed.offset_eq
    have size := placed.slots_eq
    have sizeBytes : task.l1Bytes.size = task.handlerTask.pktSize.toNat := rfl
    have rings := Nat.mul_le_mul_right (rbMemLength params.slotBits) placed.ringOf_lt
    have length : rbMemLength params.slotBits = numSlots params.slotBits * pktBuffMemSlotSize := rfl
    rw [placed.offset_split] at start
    rw [Nat.succ_mul] at rings
    rw [Nat.add_mul] at slots
    rw [ClusterSchedulerParams.l1PktBuffSize]
    simp only [pktBuffMemSlotSize] at *
    omega
  allocated := allocated.allocated

/-! ## One cycle -/

section Step

variable {trace : ClusterTrace params} {inp : ClusterSchedulerIn params}

/-- The running tasks that are not answered in this cycle. -/
def unanswered (trace : ClusterTrace params) (inp : ClusterSchedulerIn params) :
    List HpuHandlerTask :=
  if trace.1.feedbackValidO inp && inp.feedbackReadyI
  then trace.2.running.eraseP (trace.1.hpuFeedbackArbI inp).answers else trace.2.running

/-- A dispatched task stays live, an accepted one joins and an answered one leaves. -/
theorem live_step : (trace.step inp).live.Perm
    ((if trace.1.taskAccepted inp then [trace.1.newTask inp] else []) ++
      (trace.1.dmaRequestFifo.contents ++ trace.unanswered inp)) := by
  have running : (trace.step inp).2.running = trace.unanswered inp ++
    (dispatchedNow trace.1 inp).map Prod.snd := rfl
  rw [live, contents_step, running, dispatchedNow_map, popped_eq, List.perm_iff_count]
  intro task
  cases trace.1.dmaReqPop inp with
  | false => simp only [List.count_append, Bool.false_eq_true, if_false, List.count_nil]; omega
  | true =>
    cases trace.1.dmaRequestFifo.contents <;>
      simp only [List.count_append, List.count_cons, List.count_nil, List.head?_cons,
        List.head?_nil, Option.toList, List.tail_cons, List.tail_nil, if_true] <;> omega

/-- A taken feedback answers one of the running tasks, and that one leaves. -/
theorem answered (permits : trace.PermitsFeedback inp)
    (taken : (trace.1.feedbackValidO inp && inp.feedbackReadyI) = true) :
    ∃ task ∈ trace.live, (trace.1.hpuFeedbackArbI inp).answers task = true ∧
      trace.live.Perm (task :: (trace.1.dmaRequestFifo.contents ++ trace.unanswered inp)) := by
  have both := Bool.and_eq_true_iff.mp taken
  obtain ⟨candidate, runs, matched⟩ := List.any_eq_true.mp (permits both.1 both.2)
  obtain ⟨task, before, after, -, answers, split, erased⟩ := List.exists_of_eraseP runs matched
  refine ⟨task, ?_, answers, ?_⟩
  · simp [live, split]
  · rw [live, unanswered, if_pos taken, erased, split]
    rw [← List.append_assoc, ← List.append_assoc]
    exact List.perm_middle

/-- The free a feedback makes is that of the slots of its task. -/
theorem popRegion_answered (trace : ClusterTrace params) (inp : ClusterSchedulerIn params)
    {task : HpuHandlerTask} (placed : Placed params task)
    (answers : (trace.1.hpuFeedbackArbI inp).answers task = true) (ring : Fin numRB) :
    ClusterRb.popRegion params.slotBits (trace.1.ringIn inp ring) = slotsOfTask params task ∧
      (trace.1.ringIn inp ring).freeValidI =
        ((trace.1.feedbackValidO inp && inp.feedbackReadyI) &&
          decide (ringOf params task = ring)) := by
  simp only [TaskFeedbackDescr.answers, Bool.and_eq_true, decide_eq_true_eq] at answers
  obtain ⟨pointer, size⟩ := answers
  -- the pointer of the feedback, less the base, is the offset of the task in the packet buffer
  have index : trace.1.feedbackPktIdx inp = l1Offset params task := by
    rw [feedbackPktIdx, ← pointer]
    apply truncate_of_lt
    rw [params.l1PktBuffSize_eq, clog2_two_pow, ← params.l1PktBuffSize_eq]
    exact placed.offset_lt
  have start : ClusterRb.popIdx params.slotBits (trace.1.ringIn inp ring) =
      (slotsOfTask params task).start := by
    show truncate params.slotBits
      (trace.1.feedbackPktIdx inp % rbMemLength params.slotBits / pktBuffMemSlotSize) = _
    rw [index]
    apply truncate_of_lt
    apply Nat.div_lt_of_lt_mul
    rw [Nat.mul_comm]
    exact Nat.mod_lt _ (Nat.mul_pos (Nat.two_pow_pos _) (by decide))
  have slots : ClusterRb.popSize (numSlots params.slotBits) (trace.1.ringIn inp ring) =
      (slotsOfTask params task).size := by
    show ClusterRb.slotsOf _ (allocSize params _) = ClusterRb.slotsOf _ (allocSize params _)
    rw [size]
  constructor
  · rw [ClusterRb.popRegion, start, slots]
  · show ((_ && _) && decide (trace.1.feedbackPktIdx inp / rbMemLength params.slotBits = ring)) = _
    rw [index]
    rfl

theorem popSize_answered {task : HpuHandlerTask} (none : task.hasPacket = false)
    (answers : (trace.1.hpuFeedbackArbI inp).answers task = true) (ring : Fin numRB) :
    ClusterRb.popSize (numSlots params.slotBits) (trace.1.ringIn inp ring) = 0 := by
  simp only [TaskFeedbackDescr.answers, Bool.and_eq_true, decide_eq_true_eq] at answers
  have empty : task.handlerTask.pktSize = 0 := by simpa [HpuHandlerTask.hasPacket] using none
  show ClusterRb.slotsOf (numSlots params.slotBits) (allocSize params
    (trace.1.hpuFeedbackArbI inp).feedbackDescr.pktSize) = 0
  rw [← answers.2, empty]
  simp [allocSize, ClusterRb.slotsOf, truncate, pktBuffMemSlotSize]

/-- A feedback frees the slots of the task it answers and no others. -/
theorem free_step (allocated : Allocated trace) (permits : trace.PermitsFeedback inp)
    (ring : Fin numRB) :
    ClusterRb.Frees params.slotBits (trace.1.ringIn inp ring) (inRing params ring trace.live) ∧
      (ClusterRb.afterPop params.slotBits (trace.1.ringIn inp ring)
        (inRing params ring trace.live)).Perm
        (inRing params ring (trace.1.dmaRequestFifo.contents ++ trace.unanswered inp)) := by
  cases taken : trace.1.feedbackValidO inp && inp.feedbackReadyI with
  | false =>
    have idle : (trace.1.ringIn inp ring).freeValidI = false := by
      show ((trace.1.feedbackValidO inp && inp.feedbackReadyI) && _) = false
      rw [taken, Bool.false_and]
    obtain ⟨frees, same⟩ := ClusterRb.frees_idle (inRing params ring trace.live) idle
    refine ⟨frees, ?_⟩
    rw [same, unanswered, taken]
    exact .refl _
  | true =>
    obtain ⟨task, member, answers, leaves⟩ := answered permits taken
    have split := inRing_perm params ring leaves
    rw [← List.singleton_append, inRing_append, inRing_singleton] at split
    -- a task without a packet frees no slot, whichever ring it names
    cases packet : task.hasPacket with
    | false =>
      obtain ⟨frees, same⟩ := ClusterRb.frees_nothing (inRing params ring trace.live)
        (popSize_answered packet answers ring)
      rw [packet, Bool.false_and, if_neg Bool.false_ne_true, List.nil_append] at split
      exact ⟨frees, by rwa [same]⟩
    | true =>
      have placed := allocated.placed task (List.mem_filter.mpr ⟨member, packet⟩)
      -- the packet is freed in the ring of its task and left alone in the others
      obtain ⟨region, valid⟩ := popRegion_answered trace inp placed answers ring
      rw [taken, Bool.true_and] at valid
      rw [packet, Bool.true_and, ← valid, ← region] at split
      cases freeing : (trace.1.ringIn inp ring).freeValidI with
      | false =>
        obtain ⟨frees, same⟩ := ClusterRb.frees_idle (inRing params ring trace.live) freeing
        rw [freeing, if_neg Bool.false_ne_true, List.nil_append] at split
        exact ⟨frees, by rwa [same]⟩
      | true =>
        rw [freeing, if_pos rfl, List.singleton_append] at split
        have held := split.mem_iff.mpr (List.mem_cons_self ..)
        obtain ⟨frees, erased⟩ := ClusterRb.frees_member freeing held
          ((allocated.rings ring).layout.nonempty _ held)
        refine ⟨frees, ?_⟩
        rw [erased]
        exact (split.erase _).trans (by rw [List.erase_cons_head])

/-- An allocation takes the slots of the new task. -/
theorem push_step (allocated : Allocated trace) (avoids : trace.AvoidsFill inp) (ring : Fin numRB) :
    (trace.1.herAlloc.rb ring).pushed (trace.1.ringIn inp ring) =
      inRing params ring (if trace.1.taskAccepted inp then [trace.1.newTask inp] else []) := by
  cases accepts : trace.1.taskAccepted inp with
  | false =>
    have idle : (trace.1.ringIn inp ring).allocValidI = false := by
      show (_ && trace.1.taskAccepted inp) = false
      rw [accepts, Bool.and_false]
    simp [ClusterRb.pushed, ClusterRb.pushEn, idle, inRing]
  | true =>
    have valid : (trace.1.ringIn inp ring).allocValidI = decide (ring = trace.1.selRing inp) := by
      show (decide (ring = trace.1.selRing inp) && trace.1.taskAccepted inp) = _
      rw [accepts, Bool.and_true]
    have small := (accepted_fits allocated.rings accepts).1
    have slots := pushSize_ringIn trace.1 small ring
    rw [if_pos rfl, inRing_singleton, ringOf_newTask]
    by_cases selected : ring = trace.1.selRing inp
    · subst selected
      rw [decide_eq_true rfl, Bool.and_true, slotsOfTask_newTask, ClusterRb.pushed]
      cases packet : (trace.1.newTask inp).hasPacket with
      | false =>
        have empty : inp.taskDescrI.pktSize = 0 := not_not.mp (of_decide_eq_false packet)
        rw [slots, empty]
        simp
      | true =>
        have some : inp.taskDescrI.pktSize ≠ 0 := of_decide_eq_true packet
        have positive : 0 < (inp.taskDescrI.pktSize.toNat + 63) / 64 := by
          have nonzero : inp.taskDescrI.pktSize.toNat ≠ 0 :=
            fun zero => some (BitVec.eq_of_toNat_eq zero)
          omega
        -- here the ring is not filled to its head, or the push would be refused
        have ready : (trace.1.herAlloc.rb (trace.1.selRing inp)).pushEn
            (trace.1.ringIn inp (trace.1.selRing inp)) = true :=
          (pktAllocReady_iff allocated.rings accepts some).mpr (avoids accepts some)
        rw [slots, ready, decide_eq_true positive]
        rfl
    · have other : (trace.1.selRing inp : Nat) ≠ ring := fun same => selected (Fin.ext same.symm)
      simp [ClusterRb.pushed, ClusterRb.pushEn, valid, selected, other]

theorem Allocated.step (allocated : Allocated trace) (permits : trace.PermitsFeedback inp)
    (avoids : trace.AvoidsFill inp) : Allocated (trace.step inp) where
  rings ring := by
    -- the ring frees before it allocates, in the same cycle
    obtain ⟨frees, freed⟩ := free_step allocated permits ring
    have inv := (allocated.rings ring).step frees (push_small allocated.rings ring)
    rw [push_step allocated avoids ring] at inv
    refine inv.perm ((freed.append_left _).trans ?_)
    rw [← inRing_append]
    exact inRing_perm params ring live_step.symm
  placed task member := by
    obtain ⟨member, packet⟩ := List.mem_filter.mp member
    -- a live task was accepted now or was live before
    rcases List.mem_append.mp (live_step.mem_iff.mp member) with new | old
    · split at new
      next accepts =>
        rw [List.mem_singleton.mp new]
        exact placed_newTask (accepted_fits allocated.rings accepts).1
      next => cases new
    · apply allocated.placed task (List.mem_filter.mpr ⟨?_, packet⟩)
      rcases List.mem_append.mp old with waits | runs
      · exact List.mem_append_left _ waits
      · apply List.mem_append_right
        unfold unanswered at runs
        split at runs
        · exact List.mem_of_mem_eraseP runs
        · exact runs
  allocated := by
    have refused : (trace.step inp).2.refused = trace.2.refused ++
      if trace.1.taskAccepted inp && (trace.1.newTask inp).hasPacket && !trace.1.pktAllocReady inp
      then [trace.1.newTask inp] else [] := rfl
    rw [refused, allocated.allocated, List.nil_append, if_neg]
    simp only [Bool.and_eq_true, Bool.not_eq_true', not_and, Bool.not_eq_false]
    rintro ⟨accepts, packet⟩
    have some : inp.taskDescrI.pktSize ≠ 0 := of_decide_eq_true packet
    exact (pktAllocReady_iff allocated.rings accepts some).mpr (avoids accepts some)

end Step

theorem allocated_reset : Allocated (clusterTrace params).reset where
  rings _ := ClusterRb.inv_reset
  placed _ member := by cases member
  allocated := rfl

/-- L1 safety: in every run in which every feedback answers a running task and no
    accepted task fills its ring to the head, the packets of live tasks are apart
    and inside the packet buffer, and each got its place. -/
theorem clusterScheduler_l1Safe (params : ClusterSchedulerParams)
    (inputs : List (ClusterSchedulerIn params))
    (permitted : (clusterTrace params).Admits
      (fun trace inp => trace.PermitsFeedback inp ∧ trace.AvoidsFill inp) inputs) :
    L1Safe ((clusterTrace params).run inputs) :=
  (permitted.invariant Allocated allocated_reset
    fun _ _ allocated permits => allocated.step permits.1 permits.2).l1Safe

/-- Cycles of a cluster whose DMA engine is always ready and whose first HPU answers. -/
def fillRun (params : ClusterSchedulerParams) (first second third : MemSize) :
    List (ClusterSchedulerIn params) :=
  let quiet : ClusterSchedulerIn params :=
    ⟨false, default, true, true, false, fun _ => true, fun _ => false, fun _ => default⟩
  let task (size : MemSize) : HandlerTask := { (default : HandlerTask) with pktSize := size }
  let answer : TaskFeedbackDescr := ⟨⟨0, first, 0, false⟩, params.l1PktBaseAddr⟩
  [{ quiet with taskValidI := true, taskDescrI := task first },
    { quiet with taskValidI := true, taskDescrI := task second, dmaRespI := true }, quiet,
    { quiet with hpuFeedbackValidI := fun i => decide (i.val = 0), hpuFeedbackI := fun _ => answer },
    quiet, { quiet with taskValidI := true, taskDescrI := task third }]

/-- A third packet that leaves the place before the head free of its last slot is safe. -/
theorem clusterScheduler_l1Safe_recycled :
    let params : ClusterSchedulerParams := ⟨2, 4, 2, 0, by decide, by decide, by decide⟩
    let trace := (clusterTrace params).run (fillRun params 128 64 64)
    trace.live.map (fun task => task.handlerTask.pktSize) = [64, 64] ∧ L1Safe trace :=
  ⟨by decide +kernel, clusterScheduler_l1Safe _ _ (by decide +kernel)⟩

/-- At the deployed sizes: two packets of 100 slots each, the first is answered, and a
    third of 100 slots is accepted though its ring does not take it. -/
theorem clusterScheduler_refuses :
    let params : ClusterSchedulerParams := ⟨8, 20, 8, 0, by decide, by decide, by decide⟩
    (clusterTrace params).Admits PermitsFeedback (fillRun params 6400 6400 6400) ∧
      ¬L1Safe ((clusterTrace params).run (fillRun params 6400 6400 6400)) := by
  refine ⟨by decide +kernel, fun safe => ?_⟩
  have refused := safe.allocated
  revert refused
  decide +kernel

end ClusterTrace

end Pspin
