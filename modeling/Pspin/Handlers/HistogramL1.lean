import Mathlib.Data.BitVec
import Pspin.Config
import Pspin.Handlers.MsgRun
import Pspin.Handlers.Packets
import Pspin.Runtime.Atomics

/-! # `histogram_l1`

The payload handlers count the words of their packets in the scratchpads of their clusters, with
an atomic increment for each word.  The loop looks a bin up in one turn and increments it in the
next, and nothing is left to increment the bin of the last word.
-/

namespace Pspin

open Clocked

/-! ## The handlers -/

def histogramSize : Nat := 1024

/-- The scratchpads, by the offsets of their words. -/
abbrev LocalMems := ClusterId → Word → Word

/-- `&(local_mem[value])`, as an offset. -/
def binOffset (value : Word) : Word := 4 * value

/-- Where a handler is: the bin it increments next and the words left to look up, or the
    message to the host. -/
inductive HistogramPos where
  | count (cell : ClusterId) (wordPtr : Word) (words : List Word)
  | signal
deriving DecidableEq, Repr

/-- A packet whose words are bins. -/
structure HistogramPkt extends UdpPkt where
  within : ∀ word ∈ toUdpPkt.words, word.toNat < histogramSize

namespace HistogramPos

/-- `histogram_l1_ph` up to its loop; the first word is loaded whatever the length. -/
def histogramL1Ph (cell : ClusterId) (pkt : ByteMem) : HistogramPos :=
  count cell (binOffset (pkt.load32 (PktHdr.pldOffset pkt))) ((PktHdr.pldWords pkt).drop 1)

def act : HistogramPos → LocalMems → HandlerStep HistogramPos (BitVec 64) × LocalMems
  | count cell wordPtr (word :: words), mems =>
    (.next (count cell (binOffset word) words), Function.update mems cell
      (Function.update (mems cell) wordPtr (amoAdd (mems cell wordPtr) 1).2))
  | count _ _ [], mems => (.done none, mems)
  | signal, mems => (.done (some 1), mems)

end HistogramPos

/-- `histogram_l1_ph` and `histogram_l1_th`, on cores of some clusters. -/
def histogramL1 {Core : Type} (cluster : Core → ClusterId) :
    HandlerProgram Core HistogramPkt HistogramPos LocalMems (BitVec 64) where
  hasHeader := false
  start
    | .payload, core, pkt => .histogramL1Ph (cluster core) pkt.mem
    | _, _, _ => .signal
  act := HistogramPos.act

abbrev HistogramRun (Core Msg : Type) :=
  MsgRun Core Msg HistogramPkt HistogramPos LocalMems (BitVec 64)

/-! ## What is counted -/

/-- The packets whose payload handlers were started, with the cores they were started on. -/
def payloadRuns {Core Msg Pkt : Type} (events : List (MsgEvent Core Msg Pkt)) : List (Core × Pkt) :=
  events.filterMap fun
    | .start core .payload _ pkt => some (core, pkt)
    | _ => none

/-- How often a value occurs among the words of packets. -/
def occurrences {Core : Type} (value : Word) (pkts : List (Core × HistogramPkt)) : Nat :=
  (pkts.map fun sent => sent.2.words.count value).sum

/-- The packets that were handled in a cluster. -/
def handledIn {Core : Type} (cluster : Core → ClusterId) (cell : ClusterId)
    (pkts : List (Core × HistogramPkt)) : List (Core × HistogramPkt) :=
  pkts.filter fun sent => decide (cluster sent.1 = cell)

namespace HistogramPos

/-- The bins that a handler still increments. -/
def increments : HistogramPos → List Word
  | count _ wordPtr words => (wordPtr :: words.map binOffset).dropLast
  | signal => []

/-- How often a handler still increments a word of a scratchpad. -/
def pending : HistogramPos → ClusterId → Word → Nat
  | count cell wordPtr words, other, offset =>
    if cell = other then (count cell wordPtr words).increments.count offset else 0
  | signal, _, _ => 0

/-- All the words of the packet but the last one are counted. -/
theorem increments_histogramL1Ph (cell : ClusterId) (pkt : ByteMem) :
    (histogramL1Ph cell pkt).increments = (PktHdr.pldWords pkt).dropLast.map binOffset := by
  rw [histogramL1Ph, increments, List.map_dropLast]
  cases words : PktHdr.pldWords pkt with
  | nil => rfl
  | cons word rest =>
    have first : word = pkt.load32 (PktHdr.pldOffset pkt) := by
      rw [PktHdr.pldWords] at words
      cases many : (PktHdr.pldLen pkt).toNat / 4 with
      | zero => simp [many] at words
      | succ more =>
        rw [many, List.range_succ_eq_map, List.map_cons] at words
        exact (List.cons.inj words).1.symm
    rw [first]
    rfl

end HistogramPos

namespace HistogramRun

variable {Core Msg : Type} (run : HistogramRun Core Msg)

/-- How often a core still increments a word. -/
def pendingOf (cell : ClusterId) (offset : Word) : Option (RunningHandler Msg HistogramPos) → Nat
  | some handler => handler.position.pending cell offset
  | none => 0

/-- How often the payload handlers of packets increment a word. -/
def incrementsOf (cluster : Core → ClusterId) (cell : ClusterId) (offset : Word)
    (pkts : List (Core × HistogramPkt)) : Nat :=
  ((handledIn cluster cell pkts).map fun sent =>
    (sent.2.words.dropLast.map binOffset).count offset).sum

theorem incrementsOf_concat (cluster : Core → ClusterId) (cell : ClusterId) (offset : Word)
    (pkts : List (Core × HistogramPkt)) (core : Core) (pkt : HistogramPkt) :
    incrementsOf cluster cell offset (pkts ++ [(core, pkt)]) = incrementsOf cluster cell offset pkts +
      (HistogramPos.histogramL1Ph (cluster core) pkt.mem).pending cell offset := by
  rw [incrementsOf, incrementsOf, handledIn, handledIn, List.filter_append, List.map_append,
    List.sum_append, HistogramPos.histogramL1Ph, HistogramPos.pending, ← HistogramPos.histogramL1Ph,
    HistogramPos.increments_histogramL1Ph, pkt.pldWords_eq]
  by_cases here : cluster core = cell <;> simp [here]

section Counts

variable [Fintype Core]

/-- The words of the scratchpads, with the increments that are still to come. -/
def Counts (cluster : Core → ClusterId) (initial : LocalMems)
    (pkts : List (Core × HistogramPkt)) : Prop :=
  ∀ cell offset,
    run.shared cell offset + BitVec.ofNat 32 (∑ core, pendingOf cell offset (run.running core)) =
      initial cell offset + BitVec.ofNat 32 (incrementsOf cluster cell offset pkts)

variable [DecidableEq Core] [DecidableEq Msg] {run} {cluster : Core → ClusterId}
  {initial : LocalMems} {pkts : List (Core × HistogramPkt)} {core : Core}

omit [DecidableEq Msg] in
/-- A handler goes from one place to another, and what it leaves out is made up for. -/
theorem Counts.update (counts : run.Counts cluster initial pkts) {run' : HistogramRun Core Msg}
    {after : Option (RunningHandler Msg HistogramPos)} {pkts' : List (Core × HistogramPkt)}
    (running : run'.running = Function.update run.running core after)
    (moves : ∀ cell offset, ∃ done started,
      run'.shared cell offset = run.shared cell offset + BitVec.ofNat 32 done ∧
      incrementsOf cluster cell offset pkts' = incrementsOf cluster cell offset pkts + started ∧
      pendingOf cell offset (run.running core) + started = pendingOf cell offset after + done) :
    run'.Counts cluster initial pkts' := by
  intro cell offset
  obtain ⟨done, started, shared, total, balance⟩ := moves cell offset
  have sums := Threads.sum_update (fun _ => pendingOf cell offset) run.running core after
  rw [← running] at sums
  have more : done + ∑ other, pendingOf cell offset (run'.running other) =
      (∑ other, pendingOf cell offset (run.running other)) + started := by omega
  rw [shared, total, BitVec.add_assoc, ← BitVec.ofNat_add, more, BitVec.ofNat_add,
    ← BitVec.add_assoc, counts cell offset, BitVec.add_assoc, ← BitVec.ofNat_add]

/-- A handler starts. -/
theorem Counts.begin (counts : run.Counts cluster initial pkts) (idle : run.running core = none)
    (kind : HandlerKind) (msg : Msg) (pkt : HistogramPkt) :
    Counts (run.begin (histogramL1 cluster) core kind msg pkt) cluster initial
      (pkts ++ payloadRuns [.start core kind msg pkt]) := by
  refine counts.update rfl fun cell offset => ?_
  rw [idle]
  cases kind with
  | payload =>
    exact ⟨0, _, (BitVec.add_zero _).symm, incrementsOf_concat cluster cell offset pkts core pkt,
      Nat.add_comm _ _⟩
  | header => exact ⟨0, 0, (BitVec.add_zero _).symm, by simp [payloadRuns], rfl⟩
  | completion => exact ⟨0, 0, (BitVec.add_zero _).symm, by simp [payloadRuns], rfl⟩

/-- A handler takes its next step. -/
theorem Counts.advance (counts : run.Counts cluster initial pkts)
    {handler : RunningHandler Msg HistogramPos} (runs : run.running core = some handler) :
    Counts (run.advance (histogramL1 cluster) core) cluster initial pkts := by
  cases position : handler.position with
  | count cell wordPtr words =>
    cases words with
    | cons word words =>
      rw [MsgRun.advance_next (.count cell (binOffset word) words) _ runs (by rw [position]; rfl)]
      refine counts.update rfl fun other offset => ?_
      rw [runs]
      refine ⟨if cell = other ∧ wordPtr = offset then 1 else 0, 0, ?_, (Nat.add_zero _).symm, ?_⟩
      · show Function.update run.shared cell (Function.update (run.shared cell) wordPtr
          (run.shared cell wordPtr + 1)) other offset = _
        -- one bin of one cluster is incremented, and it is the one that was pending
        by_cases here : other = cell
        · subst here
          rw [Function.update_self]
          by_cases bin : offset = wordPtr
          · subst bin
            simp
          · simp [Function.update_of_ne bin, Ne.symm bin]
        · simp [Function.update_of_ne here, Ne.symm here]
      · simp only [pendingOf, position, HistogramPos.pending, HistogramPos.increments, List.map_cons,
          List.dropLast_cons_cons, List.count_cons, beq_iff_eq]
        by_cases here : cell = other <;> simp [here]
    | nil =>
      rw [MsgRun.advance_done none run.shared runs (by rw [position]; rfl)]
      refine counts.update rfl fun other offset => ?_
      rw [runs]
      refine ⟨0, 0, (BitVec.add_zero _).symm, (Nat.add_zero _).symm, ?_⟩
      simp [pendingOf, position, HistogramPos.pending, HistogramPos.increments]
  | signal =>
    rw [MsgRun.advance_done (some 1) run.shared runs (by rw [position]; rfl)]
    refine counts.update rfl fun other offset => ?_
    rw [runs]
    refine ⟨0, 0, (BitVec.add_zero _).symm, (Nat.add_zero _).symm, ?_⟩
    simp [pendingOf, position, HistogramPos.pending]

/-- After every run the words have gained the increments that are not still to come. -/
theorem Counts.of_admitted {events : List (MsgEvent Core Msg HistogramPkt)}
    (admitted : (msgRun (histogramL1 cluster) initial).Admits
      (fun run event => run.Permits (histogramL1 cluster) event) events) :
    Counts ((msgRun (histogramL1 cluster) initial).run events) cluster initial
      (payloadRuns events) := by
  refine admitted.invariantOf (fun past run => Counts run cluster initial (payloadRuns past)) ?_ ?_
  · intro cell offset
    simp [msgRun, pendingOf, payloadRuns, incrementsOf, handledIn]
  · intro past run event counts permitted
    show Counts _ cluster initial (payloadRuns (past ++ [event]))
    rw [payloadRuns, List.filterMap_append]
    cases event with
    | start core kind msg pkt => exact counts.begin permitted.1 kind msg pkt
    | step core =>
      obtain ⟨handler, runs⟩ := Option.ne_none_iff_exists'.mp permitted
      rw [List.filterMap_cons_none rfl, List.filterMap_nil, List.append_nil]
      exact counts.advance runs

end Counts

end HistogramRun

/-! ## Bins -/

/-- Bins are words of their own. -/
theorem binOffset_inj {value value' : Word} (inside : value.toNat < histogramSize)
    (inside' : value'.toNat < histogramSize) : binOffset value = binOffset value' ↔ value = value' := by
  refine ⟨fun same => BitVec.eq_of_toNat_eq ?_, congrArg binOffset⟩
  have offsets := congrArg BitVec.toNat same
  have four : (4 : Word).toNat = 4 := rfl
  simp only [binOffset, BitVec.toNat_mul, four, histogramSize] at *
  omega

theorem count_map_binOffset {words : List Word} {value : Word} (inside : value.toNat < histogramSize)
    (within : ∀ word ∈ words, word.toNat < histogramSize) :
    (words.map binOffset).count (binOffset value) = words.count value := by
  rw [List.count, List.countP_map, List.count]
  refine List.countP_congr fun word member => ?_
  simpa using binOffset_inj (within word member) inside

/-- The words are those before the last one and the last one. -/
theorem count_dropLast (words : List Word) (value : Word) :
    words.count value = words.dropLast.count value +
      (decide (words.getLast? = some value)).toNat := by
  rcases List.eq_nil_or_concat' words with rfl | ⟨before, last, rfl⟩
  · rfl
  · rw [List.dropLast_concat, List.getLast?_concat, List.count_append, List.count_singleton]
    by_cases same : last = value <;> simp [same]

/-- Numbers that wrap around sum up to no more than the numbers themselves. -/
theorem sum_mod_eq_iff {ι : Type*} [Fintype ι] (count : ι → Nat) (more : Nat) {bound : Nat}
    (positive : 0 < bound) :
    ∑ i, count i % bound = ∑ i, count i + more ↔ more = 0 ∧ ∀ i, count i < bound := by
  have wraps : ∀ i ∈ Finset.univ, count i % bound ≤ count i := fun i _ => Nat.mod_le _ _
  have most := Finset.sum_le_sum wraps
  constructor
  · intro same
    have each := (Finset.sum_eq_sum_iff_of_le wraps).mp (by omega)
    exact ⟨by omega, fun i => (each i (Finset.mem_univ i)).symm.trans_lt (Nat.mod_lt _ positive)⟩
  · rintro ⟨rfl, few⟩
    exact Finset.sum_congr rfl fun i _ => Nat.mod_eq_of_lt (few i)

section Clusters

variable {Core : Type} (cluster : Core → ClusterId) (value : Word)

/-- How many packets end with a value. -/
def lasts (pkts : List (Core × HistogramPkt)) : Nat :=
  pkts.countP fun sent => decide (sent.2.words.getLast? = some value)

/-- How often a value is counted in a cluster. -/
def countedIn (pkts : List (Core × HistogramPkt)) (cell : ClusterId) : Nat :=
  ((handledIn cluster cell pkts).map fun sent => sent.2.words.dropLast.count value).sum

variable {value} in
theorem lasts_eq_zero {pkts : List (Core × HistogramPkt)} :
    lasts value pkts = 0 ↔ ∀ sent ∈ pkts, sent.2.words.getLast? ≠ some value := by
  simp [lasts, List.countP_eq_zero]

/-- Every packet is handled in one cluster. -/
theorem sum_handledIn (f : Core × HistogramPkt → Nat) (pkts : List (Core × HistogramPkt)) :
    ∑ cell, ((handledIn cluster cell pkts).map f).sum = (pkts.map f).sum := by
  induction pkts with
  | nil => simp [handledIn]
  | cons sent pkts inductionHypothesis =>
    have one : ∀ cell, ((handledIn cluster cell (sent :: pkts)).map f).sum =
        (if cluster sent.1 = cell then f sent else 0) +
          ((handledIn cluster cell pkts).map f).sum := by
      intro cell
      by_cases here : cluster sent.1 = cell <;> simp [handledIn, here]
    rw [Finset.sum_congr rfl fun cell _ => one cell, Finset.sum_add_distrib, inductionHypothesis,
      Finset.sum_ite_eq, if_pos (Finset.mem_univ _), List.map_cons, List.sum_cons]

/-- What occurs is what is counted and the ends of packets. -/
theorem occurrences_eq (pkts : List (Core × HistogramPkt)) : occurrences value pkts =
    (pkts.map fun sent => sent.2.words.dropLast.count value).sum + lasts value pkts := by
  induction pkts with
  | nil => rfl
  | cons sent pkts inductionHypothesis =>
    simp only [occurrences, lasts, List.map_cons, List.sum_cons, List.countP_cons] at *
    rw [inductionHypothesis, count_dropLast]
    cases decide (sent.2.words.getLast? = some value) <;> simp <;> omega

variable {value}

theorem incrementsOf_binOffset (inside : value.toNat < histogramSize) (cell : ClusterId)
    (pkts : List (Core × HistogramPkt)) :
    HistogramRun.incrementsOf cluster cell (binOffset value) pkts =
      countedIn cluster value pkts cell := by
  rw [HistogramRun.incrementsOf, countedIn]
  congr 1
  refine List.map_congr_left fun sent _ => count_map_binOffset inside fun word member => ?_
  exact sent.2.within word (List.mem_of_mem_dropLast member)

end Clusters

/-! ## Whole runs -/

section Runs

variable {Core Msg : Type} [Fintype Core] [DecidableEq Core] [DecidableEq Msg]
  (cluster : Core → ClusterId) (initial : LocalMems)

/-- When the handlers are done, a bin has gained what occurs among the words of the packets
    exactly if no packet ends with its value, and no cluster finds it so often that the bin
    wraps around. -/
theorem histogramL1_counts_iff {events : List (MsgEvent Core Msg HistogramPkt)}
    (admitted : (msgRun (histogramL1 cluster) initial).Admits
      (fun run event => run.Permits (histogramL1 cluster) event) events)
    (finished : ∀ core, ((msgRun (histogramL1 cluster) initial).run events).running core = none)
    {value : Word} (inside : value.toNat < histogramSize) :
    ∑ cell, (((msgRun (histogramL1 cluster) initial).run events).shared cell (binOffset value) -
        initial cell (binOffset value)).toNat = occurrences value (payloadRuns events) ↔
      (∀ sent ∈ payloadRuns events, sent.2.words.getLast? ≠ some value) ∧
        ∀ cell, occurrences value (handledIn cluster cell (payloadRuns events)) < 2 ^ 32 := by
  have counts := HistogramRun.Counts.of_admitted admitted
  have gained : ∀ cell,
      (((msgRun (histogramL1 cluster) initial).run events).shared cell (binOffset value) -
        initial cell (binOffset value)).toNat =
      countedIn cluster value (payloadRuns events) cell % 2 ^ 32 := by
    intro cell
    have here := counts cell (binOffset value)
    simp only [finished, HistogramRun.pendingOf, Finset.sum_const_zero] at here
    rw [incrementsOf_binOffset cluster inside] at here
    rw [(BitVec.add_zero _).symm.trans here, add_sub_cancel_left]
    exact BitVec.toNat_ofNat _ _
  rw [Finset.sum_congr rfl fun cell _ => gained cell, occurrences_eq, ← sum_handledIn cluster]
  refine (sum_mod_eq_iff _ _ (by decide)).trans ?_
  rw [lasts_eq_zero]
  refine and_congr_right fun none_ => forall_congr' fun cell => ?_
  have here : lasts value (handledIn cluster cell (payloadRuns events)) = 0 :=
    lasts_eq_zero.mpr fun sent member => none_ sent (List.mem_of_mem_filter member)
  rw [occurrences_eq, here, Nat.add_zero, countedIn]

end Runs

/-! ### Packets of two words -/

def twoBins : HistogramPkt where
  toUdpPkt := .ofPayload [5, 0, 0, 0, 7, 0, 0, 0] (by decide)
  within := List.forall_mem_cons.mpr ⟨by decide, List.forall_mem_singleton.mpr (by decide)⟩

/-- Two clusters take turns with their packets. -/
def takingTurns : List (MsgEvent ClusterId Unit HistogramPkt) :=
  .start 0 .payload () twoBins :: .start 1 .payload () twoBins ::
  stepsOf 0 1 ++ stepsOf 1 2 ++ stepsOf 0 1

theorem histogramL1_counts_iff_takingTurns :
    ∑ cell, (((msgRun (histogramL1 id) fun _ _ => 3).run takingTurns).shared cell (binOffset 5) -
        3).toNat = occurrences 5 (payloadRuns takingTurns) ↔
      (∀ sent ∈ payloadRuns takingTurns, sent.2.words.getLast? ≠ some 5) ∧
        ∀ cell, occurrences 5 (handledIn id cell (payloadRuns takingTurns)) < 2 ^ 32 :=
  histogramL1_counts_iff id (fun _ _ => 3) (by decide +kernel) (by decide +kernel) (by decide)

/-- The last word of a packet is not counted. -/
theorem histogramL1_misses : ∃ events : List (MsgEvent ClusterId Unit HistogramPkt),
    (msgRun (histogramL1 id) fun _ _ => 0).Admits
      (fun run event => run.Permits (histogramL1 id) event) events ∧
    (∀ core, ((msgRun (histogramL1 id) fun _ _ => 0).run events).running core = none) ∧
    ∃ value : Word, value.toNat < histogramSize ∧
      ∑ cell, (((msgRun (histogramL1 id) fun _ _ => 0).run events).shared cell (binOffset value) -
        0).toNat ≠ occurrences value (payloadRuns events) :=
  ⟨takingTurns, by decide +kernel, by decide +kernel, 7, by decide, by decide +kernel⟩

end Pspin
