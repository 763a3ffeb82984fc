import Mathlib.Data.BitVec
import Pspin.Clocked.Loops
import Pspin.Config
import Pspin.Handlers.MsgRun
import Pspin.Handlers.Packets
import Pspin.Runtime.Atomics

/-! # `map_reduce`

The header handler zeroes one word in the scratchpad of each cluster, the payload handlers
add the sums of their packets to the word of their cluster, and the completion handler
gathers the words.  A message owns the word of a cluster from when it zeroes it until it
gathers it; the sums are right while no two messages own one word.
-/

namespace Pspin

open Clocked

/-! ## The handlers -/

/-- Where a handler is: the next word to zero, the words of the packet left to sum and the cell
    of its cluster, the next word to gather, or the write of the result. -/
inductive MapReducePos where
  | zero (i : ClusterId)
  | map (cell : ClusterId) (words : List Word) (localSum : Word)
  | gather (i : ClusterId) (finalResult : Word)
  | write (finalResult : Word)
deriving DecidableEq, Repr

/-- The words of the scratchpads. -/
abbrev Scratchpads := ClusterId → Word

namespace MapReducePos

def act : MapReducePos → Scratchpads → HandlerStep MapReducePos (BitVec 64) × Scratchpads
  | zero i, scratchpad =>
    (nextTurn i (fun next => .next (zero next)) (.done none), Function.update scratchpad i 0)
  | map cell (word :: words) localSum, scratchpad =>
    (.next (map cell words (localSum + word)), scratchpad)
  | map cell [] localSum, scratchpad =>
    (.done none, Function.update scratchpad cell (amoAdd (scratchpad cell) localSum).2)
  | gather i finalResult, scratchpad =>
    let finalResult := finalResult + scratchpad i
    (.next (nextTurn i (fun next => gather next finalResult) (write finalResult)), scratchpad)
  | write finalResult, scratchpad => (.done (some (finalResult.setWidth 64)), scratchpad)

end MapReducePos

/-- `map_phase_hh`, `map_phase_ph` and `reduce_phase_th`, on cores of some clusters. -/
def mapReduce {Core : Type} (cluster : Core → ClusterId) :
    HandlerProgram Core UdpPkt MapReducePos Scratchpads (BitVec 64) where
  hasHeader := true
  start
    | .header, _, _ => .zero 0
    | .payload, core, pkt => .map (cluster core) (PktHdr.pldWords pkt.mem) 0
    | .completion, _, _ => .gather 0 0
  act := MapReducePos.act

/-! ## What the messages own -/

namespace MapReducePos

def kind : MapReducePos → HandlerKind
  | zero _ => .header
  | map .. => .payload
  | gather .. => .completion
  | write _ => .completion

/-- The words that a header handler has zeroed and those that a completion handler has not read. -/
def Owns : MapReducePos → ClusterId → Prop
  | zero i, cell => cell < i
  | gather i _, cell => i ≤ cell
  | _, _ => False

instance (position : MapReducePos) (cell : ClusterId) : Decidable (position.Owns cell) := by
  cases position <;> unfold Owns <;> infer_instance

/-- What a payload handler still adds to a word. -/
def pending : MapReducePos → ClusterId → Word
  | map cell words localSum, other => if cell = other then localSum + words.sum else 0
  | _, _ => 0

end MapReducePos

abbrev MapReduceRun (Core Msg : Type) :=
  MsgRun Core Msg UdpPkt MapReducePos Scratchpads (BitVec 64)

/-- The words of a message's packets. -/
def sumOf {Core : Type} (pkts : List (Core × UdpPkt)) : Word :=
  (pkts.map fun sent => sent.2.words.sum).sum

/-- The words of the packets that were handled in a cluster. -/
def cellSum {Core : Type} (cluster : Core → ClusterId) (pkts : List (Core × UdpPkt))
    (cell : ClusterId) : Word :=
  (pkts.map fun sent => if cluster sent.1 = cell then sent.2.words.sum else 0).sum

theorem sum_cellSum {Core : Type} (cluster : Core → ClusterId) (pkts : List (Core × UdpPkt)) :
    ∑ cell, cellSum cluster pkts cell = sumOf pkts := by
  induction pkts with
  | nil => simp [cellSum, sumOf]
  | cons sent pkts ih =>
    simp only [cellSum, sumOf, List.map_cons, List.sum_cons] at ih ⊢
    rw [Finset.sum_add_distrib, ih, Finset.sum_ite_eq]
    simp

theorem cellSum_concat {Core : Type} (cluster : Core → ClusterId) (pkts : List (Core × UdpPkt))
    (core : Core) (pkt : UdpPkt) (cell : ClusterId) :
    cellSum cluster (pkts ++ [(core, pkt)]) cell =
      cellSum cluster pkts cell + if cluster core = cell then pkt.words.sum else 0 := by
  simp [cellSum]

namespace MapReduceRun

variable {Core Msg : Type} (run : MapReduceRun Core Msg)

/-- A message owns the word of a cluster. -/
def Owns (msg : Msg) (cell : ClusterId) : Prop :=
  (run.phase msg).isPayload = true ∨
    ∃ core, ∃ handler ∈ run.running core, handler.msg = msg ∧ handler.position.Owns cell

/-- A header handler zeroes a word that no other message owns. -/
def Apart : MsgEvent Core Msg UdpPkt → Prop
  | .step core => ∀ handler ∈ run.running core, ∀ i, handler.position = .zero i →
    ∀ other, other ≠ handler.msg → ¬Owns run other i
  | .start .. => True

variable [DecidableEq Msg]

section Decidable

variable [Fintype Core]

instance (msg : Msg) (cell : ClusterId) : Decidable (Owns run msg cell) :=
  inferInstanceAs (Decidable (_ ∨ ∃ core, ∃ handler ∈ run.running core,
    handler.msg = msg ∧ handler.position.Owns cell))

instance [Fintype Msg] : (event : MsgEvent Core Msg UdpPkt) → Decidable (Apart run event)
  | .step core => inferInstanceAs (Decidable (∀ handler ∈ run.running core, ∀ i,
      handler.position = .zero i → ∀ other, other ≠ handler.msg → ¬Owns run other i))
  | .start .. => isTrue trivial

end Decidable

/-- What a core still adds to a word for a message. -/
def pendingOf (msg : Msg) (cell : ClusterId) :
    Option (RunningHandler Msg MapReducePos) → Word
  | some handler => if handler.msg = msg then handler.position.pending cell else 0
  | none => 0

variable [Fintype Core]

def pending (msg : Msg) (cell : ClusterId) : Word :=
  ∑ core, pendingOf msg cell (run.running core)

/-- The word of a cluster counts the message's packets that were handled there. -/
def Counts (cluster : Core → ClusterId) (msg : Msg) (cell : ClusterId) : Prop :=
  run.shared cell + run.pending msg cell = cellSum cluster (run.phase msg).pkts cell

/-- What a completion handler has gathered. -/
def Gathered (cluster : Core → ClusterId) (pkts : List (Core × UdpPkt)) : MapReducePos → Prop
  | .gather i result => result = ∑ cell with cell < i, cellSum cluster pkts cell
  | .write result => result = sumOf pkts
  | _ => True

structure Inv (cluster : Core → ClusterId) : Prop where
  ordered : run.Ordered
  kinds : ∀ {core handler}, run.running core = some handler → handler.position.kind = handler.kind
  exclusive : ∀ {msg msg' cell}, Owns run msg cell → Owns run msg' cell → msg = msg'
  counts : ∀ {msg cell}, Owns run msg cell → run.Counts cluster msg cell
  gathered : ∀ {core handler}, run.running core = some handler →
    Gathered cluster (run.phase handler.msg).pkts handler.position
  written : ∀ written ∈ run.written, written.value = (sumOf written.pkts).setWidth 64

/-! ## One step -/

variable {run} {run' : MapReduceRun Core Msg} {cluster : Core → ClusterId} [DecidableEq Core]
  {core : Core} {msg : Msg} {after : Option (RunningHandler Msg MapReducePos)}
  {phase : MsgPhase Core UdpPkt}

omit [Fintype Core] in
/-- What the other messages own. -/
theorem owns_other (turn : MsgRun.Turn run run' core msg after phase) {other : Msg}
    (ne : other ≠ msg) (cell : ClusterId) : Owns run' other cell ↔ Owns run other cell := by
  rw [Owns, Owns, turn.phase_other ne]
  refine or_congr_right (exists_congr fun core' => exists_congr fun handler => ?_)
  simp only [Option.mem_def]
  constructor
  · rintro ⟨runs, rfl, owns⟩
    exact ⟨(turn.runs_iff ne core').mp runs, rfl, owns⟩
  · rintro ⟨runs, rfl, owns⟩
    exact ⟨(turn.runs_iff ne core').mpr runs, rfl, owns⟩

omit [Fintype Core] [DecidableEq Core] in
theorem pendingOf_self (kind : HandlerKind) (position : MapReducePos) (cell : ClusterId) :
    pendingOf msg cell (some ⟨msg, kind, position⟩) = position.pending cell :=
  if_pos rfl

omit [Fintype Core] [DecidableEq Core] in
theorem pendingOf_ne {other : Msg} (ne : other ≠ msg) (cell : ClusterId)
    {handler : Option (RunningHandler Msg MapReducePos)}
    (concerns : ∀ running ∈ handler, running.msg = msg) : pendingOf other cell handler = 0 := by
  cases handler with
  | none => rfl
  | some handler => exact if_neg fun same => ne (same.symm.trans (concerns handler rfl))

/-- What a step changes in what the message still adds. -/
theorem pending_turn (turn : MsgRun.Turn run run' core msg after phase) (cell : ClusterId) :
    run'.pending msg cell + pendingOf msg cell (run.running core) =
      run.pending msg cell + pendingOf msg cell after :=
  turn.sum_running (pendingOf msg cell)

/-- What the other messages still add. -/
theorem pending_other (turn : MsgRun.Turn run run' core msg after phase) {other : Msg}
    (ne : other ≠ msg) (cell : ClusterId) : run'.pending other cell = run.pending other cell := by
  have total := turn.sum_running (pendingOf other cell)
  rw [pendingOf_ne ne cell turn.before_msg, pendingOf_ne ne cell turn.after_msg, add_zero,
    add_zero] at total
  exact total

namespace Inv

omit [DecidableEq Core] in
/-- Only payload handlers still add something. -/
theorem pending_eq_zero (inv : run.Inv cluster) {handler : RunningHandler Msg MapReducePos}
    (runs : run.running core = some handler) (notPayload : handler.kind ≠ .payload)
    (cell : ClusterId) : run.pending handler.msg cell = 0 := by
  refine Finset.sum_eq_zero fun other _ => ?_
  cases runs' : run.running other with
  | none => rfl
  | some beside =>
    by_cases same : beside.msg = handler.msg
    · obtain rfl := inv.ordered.alone runs runs' same.symm notPayload
      obtain rfl := Option.some.inj (runs.symm.trans runs')
      have kind := inv.kinds runs
      rw [pendingOf, if_pos rfl]
      cases at' : handler.position <;> simp_all [MapReducePos.pending, MapReducePos.kind]
    · exact if_neg same

/-- What a message owns after a step. -/
theorem owns_self (inv : run.Inv cluster) (turn : MsgRun.Turn run run' core msg after phase)
    {cell : ClusterId} (owns : Owns run' msg cell) :
    phase.isPayload = true ∨ ∃ handler ∈ after, handler.position.Owns cell := by
  rw [Owns, turn.phase_self] at owns
  rcases owns with payload | ⟨other, handler, runs, same, owns⟩
  · exact .inl payload
  · by_cases here : other = core
    · subst here
      rw [turn.running_self] at runs
      exact .inr ⟨handler, runs, owns⟩
    · rw [Option.mem_def, turn.running_other here] at runs
      -- beside the core only payload handlers run, which own nothing
      have kind := (inv.kinds runs).trans (turn.company here runs same)
      cases at' : handler.position <;> simp_all [MapReducePos.Owns, MapReducePos.kind]

/-- A step of a message keeps the invariant if it leaves alone what the other messages own, and
    what the message owns afterwards is its own and counts its packets. -/
theorem of_turn (inv : run.Inv cluster) (turn : MsgRun.Turn run run' core msg after phase)
    (ordered : run'.Ordered)
    (kinds : ∀ handler ∈ after, handler.position.kind = handler.kind)
    (leaves : ∀ other cell, other ≠ msg → Owns run other cell → run'.shared cell = run.shared cell)
    (owned : ∀ cell, (phase.isPayload = true ∨ ∃ handler ∈ after, handler.position.Owns cell) →
      (∀ other, other ≠ msg → ¬Owns run other cell) ∧
        run'.shared cell + run'.pending msg cell = cellSum cluster phase.pkts cell)
    (gathered : ∀ handler ∈ after, Gathered cluster phase.pkts handler.position)
    (written : ∀ written ∈ run'.written, written.value = (sumOf written.pkts).setWidth 64) :
    run'.Inv cluster where
  ordered := ordered
  kinds := by
    intro other handler runs
    by_cases here : other = core
    · subst here
      rw [turn.running_self] at runs
      exact kinds handler runs
    · rw [turn.running_other here] at runs
      exact inv.kinds runs
  exclusive := by
    intro one two cell owns owns'
    -- only the message of the turn may come to own a word
    by_cases one_is : one = msg
    · subst one_is
      by_contra differ
      exact (owned cell (inv.owns_self turn owns)).1 two (Ne.symm differ)
        ((owns_other turn (Ne.symm differ) cell).mp owns')
    · rw [owns_other turn one_is] at owns
      by_cases two_is : two = msg
      · subst two_is
        exact absurd owns ((owned cell (inv.owns_self turn owns')).1 one one_is)
      · exact inv.exclusive owns ((owns_other turn two_is cell).mp owns')
  counts := by
    intro other cell owns
    by_cases self : other = msg
    · subst self
      rw [Counts, turn.phase_self]
      exact (owned cell (inv.owns_self turn owns)).2
    · rw [owns_other turn self] at owns
      rw [Counts, turn.phase_other self, pending_other turn self, leaves other cell self owns]
      exact inv.counts owns
  gathered := by
    intro other handler runs
    by_cases here : other = core
    · subst here
      rw [turn.running_self] at runs
      rw [turn.after_msg handler runs, turn.phase_self]
      exact gathered handler runs
    · rw [turn.running_other here] at runs
      by_cases self : handler.msg = msg
      · have kind := (inv.kinds runs).trans (turn.company here runs self)
        cases at' : handler.position <;> simp_all [Gathered, MapReducePos.kind]
      · rw [turn.phase_other self]
        exact inv.gathered runs
  written := written

omit [DecidableEq Core] in
/-- A message in the payload phase owns every word. -/
theorem alone_of_payload (inv : run.Inv cluster) (payload : (run.phase msg).isPayload = true)
    (cell : ClusterId) {other : Msg} (ne : other ≠ msg) : ¬Owns run other cell :=
  fun owns => ne (inv.exclusive owns (.inl payload))

theorem begin_header (inv : run.Inv cluster) {pkt : UdpPkt} (idle : run.running core = none)
    (may : run.MayStart (mapReduce cluster) .header msg) :
    Inv (run.begin (mapReduce cluster) core .header msg pkt) cluster := by
  refine inv.of_turn (.begin inv.ordered idle may pkt) (inv.ordered.begin may) ?_ (fun _ _ _ _ => rfl)
    ?_ ?_ inv.written
  · rintro handler ⟨⟩
    rfl
  · rintro cell (payload | ⟨handler, ⟨⟩, owns⟩)
    · cases payload
    · exact absurd owns (Nat.not_lt_zero _)
  · rintro handler ⟨⟩
    trivial

theorem begin_payload (inv : run.Inv cluster) {pkt : UdpPkt} (idle : run.running core = none)
    (may : run.MayStart (mapReduce cluster) .payload msg) :
    Inv (run.begin (mapReduce cluster) core .payload msg pkt) cluster := by
  have turn := MsgRun.Turn.begin inv.ordered idle may pkt
  have payload : (run.phase msg).isPayload = true := by
    rcases may with payload | ⟨noHeader, -⟩
    · exact payload
    · cases noHeader
  refine inv.of_turn turn (inv.ordered.begin may) ?_ (fun _ _ _ _ => rfl) ?_ ?_ inv.written
  · rintro handler ⟨⟩
    rfl
  · intro cell _
    refine ⟨fun other ne => inv.alone_of_payload payload cell ne, ?_⟩
    -- the packet is counted from here on, and its words are all still to be added
    have before : run.Counts cluster msg cell := inv.counts (.inl payload)
    have total := pending_turn turn cell
    rw [idle, pendingOf_self] at total
    show run.shared cell + pending _ msg cell = cellSum cluster (_ ++ [(core, pkt)]) cell
    rw [cellSum_concat, ← before, ← add_zero (pending _ msg cell)]
    refine (congrArg (run.shared cell + ·) total).trans ?_
    rw [← add_assoc]
    congr 1
    show (if cluster core = cell then 0 + (PktHdr.pldWords pkt.mem).sum else 0) = _
    rw [zero_add, pkt.pldWords_eq]
  · rintro handler ⟨⟩
    trivial

theorem begin_completion (inv : run.Inv cluster) {pkt : UdpPkt} (idle : run.running core = none)
    (may : run.MayStart (mapReduce cluster) .completion msg) :
    Inv (run.begin (mapReduce cluster) core .completion msg pkt) cluster := by
  have turn := MsgRun.Turn.begin inv.ordered idle may pkt
  refine inv.of_turn turn (inv.ordered.begin may) ?_ (fun _ _ _ _ => rfl) ?_ ?_ inv.written
  · rintro handler ⟨⟩
    rfl
  · intro cell _
    refine ⟨fun other ne => inv.alone_of_payload may.1 cell ne, ?_⟩
    have before : run.Counts cluster msg cell := inv.counts (.inl may.1)
    have total := pending_turn turn cell
    rw [idle, pendingOf_self] at total
    have same := (add_zero _).symm.trans (total.trans (add_zero _))
    exact (congrArg (run.shared cell + ·) same).trans before
  · rintro handler ⟨⟩
    show (0 : Word) = ∑ cell with cell < 0, cellSum cluster (run.phase msg).pkts cell
    simp

/-- A handler that goes on in the scratchpads it found. -/
theorem proceed (inv : run.Inv cluster) {handler : RunningHandler Msg MapReducePos}
    (runs : run.running core = some handler) {position : MapReducePos}
    (kind : position.kind = handler.kind)
    (owns : ∀ cell, position.Owns cell → handler.position.Owns cell)
    (adds : ∀ cell, position.pending cell = handler.position.pending cell)
    (gathered : Gathered cluster (run.phase handler.msg).pkts position) :
    Inv (run.proceed core handler position run.shared) cluster := by
  have turn := MsgRun.Turn.proceed inv.ordered runs position run.shared
  refine inv.of_turn turn (inv.ordered.proceed runs position run.shared) ?_ (fun _ _ _ _ => rfl)
    ?_ ?_ inv.written
  · rintro handler' ⟨⟩
    exact kind
  · intro cell owned
    have owned' : Owns run handler.msg cell := by
      rcases owned with payload | ⟨handler', ⟨⟩, owned⟩
      · exact .inl payload
      · exact .inr ⟨core, handler, runs, rfl, owns cell owned⟩
    refine ⟨fun other ne owns' => ne (inv.exclusive owns' owned'), ?_⟩
    have before : run.Counts cluster handler.msg cell := inv.counts owned'
    have total := pending_turn turn cell
    rw [runs] at total
    -- the handler has as much to add as before
    have same : pendingOf handler.msg cell (some { handler with position := position }) =
        pendingOf handler.msg cell (some handler) := by
      rw [pendingOf, pendingOf, if_pos rfl, if_pos rfl, adds cell]
    rw [same] at total
    exact (congrArg (run.shared cell + ·) (add_right_cancel total)).trans before
  · rintro handler' ⟨⟩
    exact gathered

omit [DecidableEq Core] in
/-- The packets of a message whose header handler runs. -/
theorem pkts_eq_nil (inv : run.Inv cluster) {handler : RunningHandler Msg MapReducePos}
    (runs : run.running core = some handler) (header : handler.kind = .header) :
    (run.phase handler.msg).pkts = [] := by
  have here := inv.ordered.inPhase runs
  rw [header] at here
  cases phase : run.phase handler.msg with
  | header => rfl
  | _ => simp [phase, MsgPhase.Runs] at here

omit [DecidableEq Core] in
/-- The words up to the one a header handler zeroes. -/
theorem zeroed (inv : run.Inv cluster) {handler : RunningHandler Msg MapReducePos}
    (runs : run.running core = some handler) {i : ClusterId} (zero : handler.position = .zero i)
    (apart : ∀ other, other ≠ handler.msg → ¬Owns run other i) {cell : ClusterId}
    (upTo : cell ≤ i) : (∀ other, other ≠ handler.msg → ¬Owns run other cell) ∧
      Function.update run.shared i 0 cell = 0 := by
  have header : handler.kind = .header := by
    rw [← inv.kinds runs, zero]
    rfl
  by_cases here : cell = i
  · subst here
    exact ⟨apart, Function.update_self _ _ _⟩
  · have owns : Owns run handler.msg cell :=
      .inr ⟨core, handler, runs, rfl, by rw [zero]; exact lt_of_le_of_ne upTo here⟩
    have counts := inv.counts owns
    rw [Counts, inv.pending_eq_zero runs (by simp [header]) cell,
      inv.pkts_eq_nil runs header] at counts
    refine ⟨fun other ne owns' => ne (inv.exclusive owns' owns), ?_⟩
    rw [Function.update_of_ne here]
    exact (add_zero _).symm.trans counts

/-- A header handler zeroes a word, whether it goes on or returns. -/
theorem zero_step (inv : run.Inv cluster) {handler : RunningHandler Msg MapReducePos}
    (runs : run.running core = some handler) {i : ClusterId} (zero : handler.position = .zero i)
    (apart : ∀ other, other ≠ handler.msg → ¬Owns run other i)
    (turn : MsgRun.Turn run run' core handler.msg after phase) (ordered : run'.Ordered)
    (kinds : ∀ next ∈ after, next.position.kind = next.kind)
    (shared : run'.shared = Function.update run.shared i 0) (written : run'.written = run.written)
    (none : phase.pkts = []) (adds : ∀ cell, pendingOf handler.msg cell after = 0)
    (upTo : ∀ cell, (phase.isPayload = true ∨ ∃ next ∈ after, next.position.Owns cell) → cell ≤ i)
    (gathered : ∀ next ∈ after, Gathered cluster phase.pkts next.position) :
    run'.Inv cluster := by
  have header : handler.kind ≠ .payload := by
    rw [← inv.kinds runs, zero]
    simp [MapReducePos.kind]
  refine inv.of_turn turn ordered kinds ?_ ?_ gathered (written ▸ inv.written)
  · intro other cell ne owns
    rw [shared, Function.update_of_ne]
    rintro rfl
    exact apart other ne owns
  · intro cell owned
    obtain ⟨own, isZero⟩ := inv.zeroed runs zero apart (upTo cell owned)
    -- nobody has anything to add before the payload phase
    have pending : run'.pending handler.msg cell = 0 := by
      have total := pending_turn turn cell
      have old : pendingOf handler.msg cell (run.running core) = 0 := by
        rw [runs, pendingOf, if_pos rfl, zero]
        rfl
      rw [old, adds, inv.pending_eq_zero runs header cell] at total
      simpa using total
    refine ⟨own, ?_⟩
    rw [shared, isZero, pending, none]
    rfl

theorem advance_zero (inv : run.Inv cluster) {handler : RunningHandler Msg MapReducePos}
    (runs : run.running core = some handler) {i : ClusterId} (zero : handler.position = .zero i)
    (apart : ∀ other, other ≠ handler.msg → ¬Owns run other i) :
    Inv (run.advance (mapReduce cluster) core) cluster := by
  have header : handler.kind = .header := by
    rw [← inv.kinds runs, zero]
    rfl
  by_cases inside : i.val + 1 < numClusters
  · rw [MsgRun.advance_next (.zero ⟨i.val + 1, inside⟩) (Function.update run.shared i 0) runs (by
        rw [zero]
        simp [mapReduce, MapReducePos.act, nextTurn, inside])]
    refine inv.zero_step runs zero apart (.proceed inv.ordered runs _ _)
      (inv.ordered.proceed runs _ _) ?_ rfl rfl (inv.pkts_eq_nil runs header) ?_ ?_ ?_
    · rintro next ⟨⟩
      exact header.symm
    · intro cell
      exact pendingOf_self _ _ _
    · rintro cell (payload | ⟨next, ⟨⟩, owns⟩)
      · have here := inv.ordered.inPhase runs
        cases phase : run.phase handler.msg <;> simp_all [MsgPhase.isPayload, MsgPhase.Runs]
      · exact Nat.le_of_lt_succ owns
    · rintro next ⟨⟩
      trivial
  -- the last word is zeroed: the message may be mapped from here on
  · rw [MsgRun.advance_done none (Function.update run.shared i 0) runs (by
        rw [zero]
        simp [mapReduce, MapReducePos.act, nextTurn, inside])]
    refine inv.zero_step runs zero apart (.finish inv.ordered runs none _)
      (inv.ordered.finish runs none _) ?_ rfl ?_ ?_ ?_ ?_ ?_
    · rintro next ⟨⟩
    · simp [MsgRun.finish]
    · rw [header]
      rfl
    · intro cell
      rfl
    · intro cell _
      have last := cell.isLt
      exact Fin.mk_le_mk.mpr (by omega)
    · rintro next ⟨⟩

theorem advance_map (inv : run.Inv cluster) {handler : RunningHandler Msg MapReducePos}
    (runs : run.running core = some handler) {cell : ClusterId} {words : List Word}
    {localSum : Word} (map : handler.position = .map cell words localSum) :
    Inv (run.advance (mapReduce cluster) core) cluster := by
  have payload : handler.kind = .payload := by
    rw [← inv.kinds runs, map]
    rfl
  cases words with
  | cons word words =>
    rw [MsgRun.advance_next (.map cell words (localSum + word)) run.shared runs (by rw [map]; rfl)]
    refine inv.proceed runs payload.symm (fun _ owns => owns.elim) (fun other => ?_) trivial
    rw [map, MapReducePos.pending, MapReducePos.pending, List.sum_cons, add_assoc]
  | nil =>
    rw [MsgRun.advance_done none (Function.update run.shared cell (amoAdd (run.shared cell) localSum).2) runs
      (by rw [map]; rfl)]
    have turn := MsgRun.Turn.finish inv.ordered runs none
      (Function.update run.shared cell (amoAdd (run.shared cell) localSum).2)
    have isPayload : (run.phase handler.msg).isPayload = true := by
      have here := inv.ordered.inPhase runs
      cases phase : run.phase handler.msg <;> simp_all [MsgPhase.isPayload, MsgPhase.Runs]
    rw [payload] at turn
    refine inv.of_turn turn (inv.ordered.finish runs none _) ?_ ?_ ?_ ?_ ?_
    · rintro next ⟨⟩
    · intro other cell' ne owns
      exact absurd owns (inv.alone_of_payload isPayload cell' ne)
    · intro other _
      refine ⟨fun _ ne => inv.alone_of_payload isPayload other ne, ?_⟩
      have before : run.Counts cluster handler.msg other := inv.counts (.inl isPayload)
      have total := pending_turn turn other
      have old : pendingOf handler.msg other (run.running core) =
          if cell = other then localSum else 0 := by
        rw [runs, pendingOf, if_pos rfl, map, MapReducePos.pending]
        simp
      rw [old] at total
      -- what the handler had still to add goes into the word
      show Function.update run.shared cell (run.shared cell + localSum) other + _ =
        cellSum cluster (run.phase handler.msg).pkts other
      rw [← before, (add_zero (pending run handler.msg other)).symm.trans total.symm]
      by_cases here : cell = other
      · subst here
        rw [Function.update_self, if_pos rfl]
        ac_rfl
      · rw [Function.update_of_ne (Ne.symm here), if_neg here, add_zero]
    · rintro next ⟨⟩
    · simpa [MsgRun.finish] using inv.written

theorem advance_gather (inv : run.Inv cluster) {handler : RunningHandler Msg MapReducePos}
    (runs : run.running core = some handler) {i : ClusterId} {result : Word}
    (gather : handler.position = .gather i result) :
    Inv (run.advance (mapReduce cluster) core) cluster := by
  have completion : handler.kind = .completion := by
    rw [← inv.kinds runs, gather]
    rfl
  have owns : Owns run handler.msg i :=
    .inr ⟨core, handler, runs, rfl, by rw [gather]; exact le_refl i⟩
  -- nothing is pending, so the word is all there is of its cluster
  have word : run.shared i = cellSum cluster (run.phase handler.msg).pkts i := by
    have counts := inv.counts owns
    rw [Counts, inv.pending_eq_zero runs (by simp [completion]) i] at counts
    exact (add_zero _).symm.trans counts
  have before := inv.gathered runs
  rw [gather] at before
  by_cases inside : i.val + 1 < numClusters
  · rw [MsgRun.advance_next (.gather ⟨i.val + 1, inside⟩ (result + run.shared i)) run.shared runs (by
        rw [gather]
        exact congrArg (fun next => (HandlerStep.next next, run.shared)) (nextTurn_turn inside))]
    refine inv.proceed runs completion.symm ?_ (fun cell => by rw [gather]; rfl) ?_
    · intro cell owned
      rw [gather]
      exact (Nat.le_succ i.val).trans owned
    · rw [Gathered, sum_lt_next _ inside, ← word, ← before]
  · rw [MsgRun.advance_next (.write (result + run.shared i)) run.shared runs (by
        rw [gather]
        exact congrArg (fun next => (HandlerStep.next next, run.shared)) (nextTurn_exit inside))]
    refine inv.proceed runs completion.symm (fun _ owned => owned.elim)
      (fun cell => by rw [gather]; rfl) ?_
    rw [Gathered, ← sum_cellSum cluster, sum_lt_last _ inside, ← word, ← before]

theorem advance_write (inv : run.Inv cluster) {handler : RunningHandler Msg MapReducePos}
    (runs : run.running core = some handler) {result : Word}
    (write : handler.position = .write result) :
    Inv (run.advance (mapReduce cluster) core) cluster := by
  have completion : handler.kind = .completion := by
    rw [← inv.kinds runs, write]
    rfl
  rw [MsgRun.advance_done (some (result.setWidth 64)) run.shared runs
    (by rw [write]; rfl)]
  have turn := MsgRun.Turn.finish inv.ordered runs (some (result.setWidth 64)) run.shared
  rw [completion] at turn
  refine inv.of_turn turn (inv.ordered.finish runs _ _) ?_ (fun _ _ _ _ => rfl) ?_ ?_ ?_
  · rintro next ⟨⟩
  · rintro cell (payload | ⟨next, ⟨⟩, -⟩)
    cases payload
  · rintro next ⟨⟩
  · intro written among
    have gathered := inv.gathered runs
    rw [write] at gathered
    rcases List.mem_append.mp among with was | now
    · exact inv.written written was
    · obtain rfl := List.mem_singleton.mp now
      exact congrArg (BitVec.setWidth 64) gathered

/-- One step of the handlers, when header handlers keep to words that no other message owns. -/
theorem happen (inv : run.Inv cluster) {event : MsgEvent Core Msg UdpPkt}
    (permitted : run.Permits (mapReduce cluster) event) (apart : Apart run event) :
    Inv (run.happen (mapReduce cluster) event) cluster := by
  cases event with
  | start core kind msg pkt =>
    obtain ⟨idle, may⟩ := permitted
    cases kind with
    | header => exact inv.begin_header idle may
    | payload => exact inv.begin_payload idle may
    | completion => exact inv.begin_completion idle may
  | step core =>
    obtain ⟨handler, runs⟩ := Option.ne_none_iff_exists'.mp permitted
    cases position : handler.position with
    | zero i => exact inv.advance_zero runs position (apart handler runs i position)
    | map cell words localSum => exact inv.advance_map runs position
    | gather i result => exact inv.advance_gather runs position
    | write result => exact inv.advance_write runs position

theorem reset (scratchpad : Scratchpads) :
    Inv (msgRun (mapReduce cluster) scratchpad : Machine (MapReduceRun Core Msg) _).reset cluster where
  ordered := .reset scratchpad
  kinds := by
    intro core handler runs
    cases runs
  exclusive := by
    rintro msg msg' cell (payload | ⟨core, handler, ⟨⟩, -⟩)
    cases payload
  counts := by
    rintro msg cell (payload | ⟨core, handler, ⟨⟩, -⟩)
    cases payload
  gathered := by
    intro core handler runs
    cases runs
  written := by
    intro written among
    cases among

end Inv

/-! ## Whole runs -/

omit [DecidableEq Core] in
/-- While one message is active, its header handler meets words that nobody owns. -/
theorem Inv.apart_of_alone (inv : run.Inv cluster) (one : run.OneActive)
    (event : MsgEvent Core Msg UdpPkt) : Apart run event := by
  cases event with
  | start core kind msg pkt => trivial
  | step core =>
    intro handler runs i _ other ne owns
    have free := one.others (inv.ordered.active runs) ne
    rcases owns with payload | ⟨core', handler', runs', rfl, -⟩
    · cases phase : run.phase other <;> simp_all [MsgPhase.isPayload, MsgPhase.isFree]
    · exact inv.ordered.not_running free runs' rfl

end MapReduceRun

section Runs

variable {Core Msg : Type} [Fintype Core] [DecidableEq Core] [DecidableEq Msg]
  (cluster : Core → ClusterId) (scratchpad : Scratchpads)

/-- What a message that is active alone sends is the sum of its words. -/
theorem mapReduce_sum {events : List (MsgEvent Core Msg UdpPkt)}
    (admitted : (msgRun (mapReduce cluster) scratchpad).Admits
      (fun run event => run.Permits (mapReduce cluster) event ∧ run.Alone event) events) :
    ∀ written ∈ ((msgRun (mapReduce cluster) scratchpad).run events).written,
      written.value = (sumOf written.pkts).setWidth 64 := by
  have inv : MapReduceRun.Inv _ cluster ∧ MsgRun.OneActive _ :=
    admitted.invariant (fun run => MapReduceRun.Inv run cluster ∧ run.OneActive)
      ⟨.reset scratchpad, fun active => by cases active⟩
      fun _ event ⟨inv, one⟩ ⟨permitted, alone⟩ =>
        ⟨inv.happen permitted (inv.apart_of_alone one event),
          one.happen inv.ordered permitted alone⟩
  exact inv.1.written

end Runs

/-- A message of three packets on two clusters, two of them at once. -/
def threePkts : List (MsgEvent ClusterId Bool UdpPkt) :=
  .start 0 .header false (wordPkt 1) :: stepsOf 0 4 ++
  .start 0 .payload false (wordPkt 1) :: .start 3 .payload false (wordPkt 2) ::
  stepsOf 3 1 ++ stepsOf 0 2 ++ stepsOf 3 1 ++
  .start 3 .payload false (wordPkt 4) :: stepsOf 3 2 ++
  .start 1 .completion false (wordPkt 1) :: stepsOf 1 5

theorem mapReduce_sum_threePkts :
    ∃ written ∈ ((msgRun (mapReduce id) fun _ => 0).run threePkts).written,
      written.value = (sumOf written.pkts).setWidth 64 :=
  have sent := List.head_mem (List.ne_nil_of_length_pos (by decide +kernel))
  ⟨_, sent, mapReduce_sum id _ (by decide +kernel) _ sent⟩

example : ((msgRun (mapReduce id) fun _ => 0).run threePkts).written.map (·.value) = [7] := by
  decide +kernel

section Runs

variable {Core Msg : Type} [Fintype Core] [DecidableEq Core] [DecidableEq Msg]
  (cluster : Core → ClusterId) (scratchpad : Scratchpads)

/-- What a message sends is the sum of its own words, as long as header handlers zero only
    words that no other message owns. -/
theorem mapReduce_isolated {events : List (MsgEvent Core Msg UdpPkt)}
    (admitted : (msgRun (mapReduce cluster) scratchpad).Admits
      (fun run event => run.Permits (mapReduce cluster) event ∧ MapReduceRun.Apart run event)
      events) :
    ∀ written ∈ ((msgRun (mapReduce cluster) scratchpad).run events).written,
      written.value = (sumOf written.pkts).setWidth 64 := by
  have inv : MapReduceRun.Inv _ cluster := admitted.invariant (MapReduceRun.Inv · cluster)
    (.reset scratchpad) fun _ _ inv permitted => inv.happen permitted.1 permitted.2
  exact inv.written

end Runs

/-- A message whose header handler follows the completion handler of another word by word. -/
def handover : List (MsgEvent ClusterId Bool UdpPkt) :=
  .start 0 .header false (wordPkt 1) :: stepsOf 0 4 ++
  .start 0 .payload false (wordPkt 1) :: stepsOf 0 2 ++
  .start 0 .completion false (wordPkt 1) :: stepsOf 0 1 ++
  .start 1 .header true (wordPkt 2) :: stepsOf 1 1 ++ stepsOf 0 4 ++ stepsOf 1 3 ++
  .start 2 .payload true (wordPkt 2) :: stepsOf 2 2 ++
  .start 1 .completion true (wordPkt 2) :: stepsOf 1 5

theorem mapReduce_isolated_handover :
    ∃ written ∈ ((msgRun (mapReduce id) fun _ => 0).run handover).written,
      written.value = (sumOf written.pkts).setWidth 64 :=
  have sent := List.head_mem (List.ne_nil_of_length_pos (by decide +kernel))
  ⟨_, sent, mapReduce_isolated id _ (by decide +kernel) _ sent⟩

def overlap : List (MsgEvent ClusterId Bool UdpPkt) :=
  .start 0 .header false (wordPkt 1) :: stepsOf 0 4 ++
  .start 0 .payload false (wordPkt 1) :: stepsOf 0 2 ++
  .start 1 .header true (wordPkt 2) :: stepsOf 1 4 ++
  .start 0 .completion false (wordPkt 1) :: stepsOf 0 5

/-- The scratchpads belong to the execution context: a header handler zeroes what another
    message has added. -/
theorem mapReduce_overlap : ∃ events : List (MsgEvent ClusterId Bool UdpPkt),
    (msgRun (mapReduce id) fun _ => 0).Admits
      (fun run event => run.Permits (mapReduce id) event) events ∧
    ¬∀ written ∈ ((msgRun (mapReduce id) fun _ => 0).run events).written,
      written.value = (sumOf written.pkts).setWidth 64 :=
  ⟨overlap, by decide +kernel, by decide +kernel⟩

end Pspin
