import Pspin.Clocked.Threads

/-! # Handlers in message order

Cores run the handlers of messages, each one step at a time and in any interleaving.
The scheduler orders the handlers of one message only: the header handler runs first and
alone, then the payload handlers of its packets, and when these have returned the
completion handler.  A program says where each handler starts and what one step of it does;
a step is at most one access to the memory that the handlers share.
-/

namespace Pspin

open Clocked

inductive HandlerKind where
  | header
  | payload
  | completion
deriving DecidableEq, Repr

/-- A handler goes on or returns, with what it sent to the host. -/
inductive HandlerStep (Position Out : Type) where
  | next (position : Position)
  | done (out : Option Out)

structure HandlerProgram (Core Pkt Position Shared Out : Type) where
  hasHeader : Bool
  start : HandlerKind → Core → Pkt → Position
  act : Position → Shared → HandlerStep Position Out × Shared

/-- Where the handlers of a message are.  The packets are those whose payload handlers were
    started, with the cores they were started on. -/
inductive MsgPhase (Core Pkt : Type) where
  | free
  | header
  | payload (pkts : List (Core × Pkt))
  | completion (pkts : List (Core × Pkt))

namespace MsgPhase

variable {Core Pkt : Type}

def pkts : MsgPhase Core Pkt → List (Core × Pkt)
  | payload pkts => pkts
  | completion pkts => pkts
  | _ => []

def isFree : MsgPhase Core Pkt → Bool
  | free => true
  | _ => false

def isPayload : MsgPhase Core Pkt → Bool
  | payload _ => true
  | _ => false

/-- The phase in which handlers of a kind run. -/
def Runs : HandlerKind → MsgPhase Core Pkt → Prop
  | .header, header => True
  | .payload, payload _ => True
  | .completion, completion _ => True
  | _, _ => False

/-- The phase after a handler starts. -/
def started (core : Core) (pkt : Pkt) : HandlerKind → MsgPhase Core Pkt → MsgPhase Core Pkt
  | .header, _ => header
  | .payload, phase => payload (phase.pkts ++ [(core, pkt)])
  | .completion, phase => completion phase.pkts

/-- The phase after a handler returns. -/
def ended : HandlerKind → MsgPhase Core Pkt → MsgPhase Core Pkt
  | .header, _ => payload []
  | .payload, phase => phase
  | .completion, _ => free

end MsgPhase

structure RunningHandler (Msg Position : Type) where
  msg : Msg
  kind : HandlerKind
  position : Position

/-- What the completion handler of a message sent to the host, with the message's packets. -/
structure Written (Core Msg Pkt Out : Type) where
  msg : Msg
  pkts : List (Core × Pkt)
  value : Out

structure MsgRun (Core Msg Pkt Position Shared Out : Type) where
  shared : Shared
  running : Core → Option (RunningHandler Msg Position)
  phase : Msg → MsgPhase Core Pkt
  written : List (Written Core Msg Pkt Out)

/-- A core starts a handler, or takes the next step of the one it runs. -/
inductive MsgEvent (Core Msg Pkt : Type) where
  | start (core : Core) (kind : HandlerKind) (msg : Msg) (pkt : Pkt)
  | step (core : Core)

/-- Several steps of a core. -/
def stepsOf {Core Msg Pkt : Type} (core : Core) (count : Nat) : List (MsgEvent Core Msg Pkt) :=
  List.replicate count (.step core)

namespace MsgRun

variable {Core Msg Pkt Position Shared Out : Type} [DecidableEq Core] [DecidableEq Msg]

def begin (program : HandlerProgram Core Pkt Position Shared Out)
    (run : MsgRun Core Msg Pkt Position Shared Out) (core : Core) (kind : HandlerKind)
    (msg : Msg) (pkt : Pkt) : MsgRun Core Msg Pkt Position Shared Out :=
  { run with
    running := Function.update run.running core (some ⟨msg, kind, program.start kind core pkt⟩)
    phase := Function.update run.phase msg ((run.phase msg).started core pkt kind) }

/-- A handler that goes on. -/
def proceed (run : MsgRun Core Msg Pkt Position Shared Out) (core : Core)
    (handler : RunningHandler Msg Position) (position : Position) (shared : Shared) :
    MsgRun Core Msg Pkt Position Shared Out :=
  { run with
    shared := shared
    running := Function.update run.running core (some { handler with position := position }) }

/-- A handler that returns. -/
def finish (run : MsgRun Core Msg Pkt Position Shared Out) (core : Core)
    (handler : RunningHandler Msg Position) (out : Option Out) (shared : Shared) :
    MsgRun Core Msg Pkt Position Shared Out where
  shared := shared
  running := Function.update run.running core none
  phase := Function.update run.phase handler.msg ((run.phase handler.msg).ended handler.kind)
  written := run.written ++
    (out.map fun value => ⟨handler.msg, (run.phase handler.msg).pkts, value⟩).toList

def advance (program : HandlerProgram Core Pkt Position Shared Out)
    (run : MsgRun Core Msg Pkt Position Shared Out) (core : Core) :
    MsgRun Core Msg Pkt Position Shared Out :=
  match run.running core with
  | none => run
  | some handler =>
    match program.act handler.position run.shared with
    | (.next position, shared) => run.proceed core handler position shared
    | (.done out, shared) => run.finish core handler out shared

def happen (program : HandlerProgram Core Pkt Position Shared Out)
    (run : MsgRun Core Msg Pkt Position Shared Out) :
    MsgEvent Core Msg Pkt → MsgRun Core Msg Pkt Position Shared Out
  | .start core kind msg pkt => run.begin program core kind msg pkt
  | .step core => run.advance program core

/-- What the scheduler allows a message to start. -/
def MayStart (program : HandlerProgram Core Pkt Position Shared Out)
    (run : MsgRun Core Msg Pkt Position Shared Out) : HandlerKind → Msg → Prop
  | .header, msg => program.hasHeader = true ∧ (run.phase msg).isFree = true
  | .payload, msg => (run.phase msg).isPayload = true ∨
    program.hasHeader = false ∧ (run.phase msg).isFree = true
  | .completion, msg => (run.phase msg).isPayload = true ∧
    ∀ core, ∀ handler ∈ run.running core, handler.msg ≠ msg

/-- A core without a handler starts one that the scheduler allows; one with a handler goes on. -/
def Permits (program : HandlerProgram Core Pkt Position Shared Out)
    (run : MsgRun Core Msg Pkt Position Shared Out) : MsgEvent Core Msg Pkt → Prop
  | .start core kind msg _ => run.running core = none ∧ run.MayStart program kind msg
  | .step core => run.running core ≠ none

/-- Handlers of a message start while every other message is free. -/
def Alone (run : MsgRun Core Msg Pkt Position Shared Out) : MsgEvent Core Msg Pkt → Prop
  | .start _ _ msg _ => ∀ other, other ≠ msg → (run.phase other).isFree = true
  | .step _ => True

section Decidable

variable [Fintype Core] (program : HandlerProgram Core Pkt Position Shared Out)
  (run : MsgRun Core Msg Pkt Position Shared Out)

instance : (kind : HandlerKind) → (msg : Msg) → Decidable (run.MayStart program kind msg)
  | .header, _ => inferInstanceAs (Decidable (_ ∧ _))
  | .payload, _ => inferInstanceAs (Decidable (_ ∨ _ ∧ _))
  | .completion, msg => inferInstanceAs (Decidable (_ ∧ ∀ core, ∀ handler ∈ run.running core,
      handler.msg ≠ msg))

instance : (event : MsgEvent Core Msg Pkt) → Decidable (run.Permits program event)
  | .start core kind msg _ =>
    have : Decidable (run.running core = none) := decidable_of_iff (run.running core).isNone (by simp)
    inferInstanceAs (Decidable (_ ∧ run.MayStart program kind msg))
  | .step core => decidable_of_iff (run.running core).isSome (by
      simp [Permits, Option.isSome_iff_ne_none])

instance [Fintype Msg] (run : MsgRun Core Msg Pkt Position Shared Out) :
    (event : MsgEvent Core Msg Pkt) → Decidable (run.Alone event)
  | .start _ _ msg _ => inferInstanceAs (Decidable (∀ other, other ≠ msg → _))
  | .step _ => isTrue trivial

end Decidable

end MsgRun

/-- The handlers of a program, from a memory and with no message active. -/
def msgRun {Core Msg Pkt Position Shared Out : Type} [DecidableEq Core] [DecidableEq Msg]
    (program : HandlerProgram Core Pkt Position Shared Out) (shared : Shared) :
    Machine (MsgRun Core Msg Pkt Position Shared Out) (MsgEvent Core Msg Pkt) where
  reset := ⟨shared, fun _ => none, fun _ => .free, []⟩
  step := MsgRun.happen program

namespace MsgRun

variable {Core Msg Pkt Position Shared Out : Type}
  {program : HandlerProgram Core Pkt Position Shared Out}
  {run : MsgRun Core Msg Pkt Position Shared Out}

section Advance

variable [DecidableEq Core] [DecidableEq Msg] {core : Core} {handler : RunningHandler Msg Position}

theorem advance_next (position : Position) (shared : Shared) (runs : run.running core = some handler)
    (acts : program.act handler.position run.shared = (.next position, shared)) :
    run.advance program core = run.proceed core handler position shared := by
  simp [advance, runs, acts]

theorem advance_done (out : Option Out) (shared : Shared) (runs : run.running core = some handler)
    (acts : program.act handler.position run.shared = (.done out, shared)) :
    run.advance program core = run.finish core handler out shared := by
  simp [advance, runs, acts]

/-- A step of a handler goes on or returns. -/
theorem advance_cases (program : HandlerProgram Core Pkt Position Shared Out)
    (busy : run.running core ≠ none) :
    ∃ handler, run.running core = some handler ∧
      ((∃ position shared, run.advance program core = run.proceed core handler position shared) ∨
        ∃ out shared, run.advance program core = run.finish core handler out shared) := by
  obtain ⟨handler, runs⟩ := Option.ne_none_iff_exists'.mp busy
  refine ⟨handler, runs, ?_⟩
  cases acts : program.act handler.position run.shared with
  | mk outcome shared =>
    cases outcome with
    | next position => exact .inl ⟨position, shared, advance_next position shared runs acts⟩
    | done out => exact .inr ⟨out, shared, advance_done out shared runs acts⟩

end Advance

/-! ## What the handlers keep on their own -/

/-- Facts about where a handler is, about the memory and about what is sent that hold whatever
    order the handlers run in. -/
structure Keeps (program : HandlerProgram Core Pkt Position Shared Out) (AtPosition : Position → Prop)
    (OfShared : Shared → Prop) (OfOut : Out → Prop) : Prop where
  start : ∀ kind core pkt, AtPosition (program.start kind core pkt)
  next : ∀ {position position' shared shared'}, AtPosition position → OfShared shared →
    program.act position shared = (.next position', shared') →
    AtPosition position' ∧ OfShared shared'
  done : ∀ {position out shared shared'}, AtPosition position → OfShared shared →
    program.act position shared = (.done out, shared') →
    OfShared shared' ∧ ∀ value ∈ out, OfOut value

/-- The facts hold of every handler, of the memory and of everything sent. -/
structure Kept (AtPosition : Position → Prop) (OfShared : Shared → Prop) (OfOut : Out → Prop)
    (run : MsgRun Core Msg Pkt Position Shared Out) : Prop where
  running : ∀ {core handler}, run.running core = some handler → AtPosition handler.position
  shared : OfShared run.shared
  written : ∀ written ∈ run.written, OfOut written.value

section Keeps

variable [DecidableEq Core] {AtPosition : Position → Prop} {OfShared : Shared → Prop}
  {OfOut : Out → Prop}

/-- The other cores run what they ran. -/
theorem Kept.running_update (kept : Kept AtPosition OfShared OfOut run) {core other : Core}
    {after : Option (RunningHandler Msg Position)} {handler : RunningHandler Msg Position}
    (runs : Function.update run.running core after other = some handler)
    (mine : ∀ handler ∈ after, AtPosition handler.position) : AtPosition handler.position := by
  rw [Function.update_apply] at runs
  split at runs
  · exact mine handler runs
  · exact kept.running runs

variable [DecidableEq Msg]

theorem Kept.happen (kept : Kept AtPosition OfShared OfOut run)
    (keeps : Keeps program AtPosition OfShared OfOut) (event : MsgEvent Core Msg Pkt) :
    Kept AtPosition OfShared OfOut (run.happen program event) := by
  cases event with
  | start core kind msg pkt =>
    refine ⟨fun runs => kept.running_update runs ?_, kept.shared, kept.written⟩
    rintro handler ⟨⟩
    exact keeps.start kind core pkt
  | step core =>
    show Kept AtPosition OfShared OfOut (run.advance program core)
    cases runs : run.running core with
    | none => simpa [advance, runs] using kept
    | some handler =>
      cases acts : program.act handler.position run.shared with
      | mk outcome shared =>
        -- a step of a handler either goes on or returns, perhaps with an output
        cases outcome with
        | next position =>
          obtain ⟨atNext, ofShared⟩ := keeps.next (kept.running runs) kept.shared acts
          rw [advance_next position shared runs acts]
          refine ⟨fun runs' => kept.running_update runs' ?_, ofShared, kept.written⟩
          rintro handler' ⟨⟩
          exact atNext
        | done out =>
          obtain ⟨ofShared, sent⟩ := keeps.done (kept.running runs) kept.shared acts
          rw [advance_done out shared runs acts]
          refine ⟨fun runs' => kept.running_update runs' (by simp), ofShared, fun written among => ?_⟩
          rcases List.mem_append.mp among with was | now
          · exact kept.written written was
          · simp only [Option.mem_toList, Option.map_eq_some_iff] at now
            obtain ⟨value, sends, rfl⟩ := now
            exact sent value sends

theorem Keeps.reset (_keeps : Keeps program AtPosition OfShared OfOut) {shared : Shared}
    (initial : OfShared shared) : Kept AtPosition OfShared OfOut
      (msgRun program shared : Machine (MsgRun Core Msg Pkt Position Shared Out) _).reset where
  running := by
    intro core handler runs
    cases runs
  shared := initial
  written := by
    intro written among
    cases among

/-- What the handlers keep holds after every run. -/
theorem Keeps.kept (keeps : Keeps program AtPosition OfShared OfOut) (shared : Shared)
    (initial : OfShared shared) (events : List (MsgEvent Core Msg Pkt)) :
    Kept AtPosition OfShared OfOut ((msgRun program shared).run events) :=
  (Machine.admits_true _ events).invariant (Kept AtPosition OfShared OfOut)
    (keeps.reset initial) fun _ event kept _ => kept.happen keeps event

end Keeps

/-! ## The order of a message's handlers -/

/-- Handlers run in the phase of their message, and but for payload handlers alone. -/
structure Ordered (run : MsgRun Core Msg Pkt Position Shared Out) : Prop where
  inPhase : ∀ {core handler}, run.running core = some handler →
    MsgPhase.Runs handler.kind (run.phase handler.msg)
  alone : ∀ {core core' handler handler'}, run.running core = some handler →
    run.running core' = some handler' → handler.msg = handler'.msg → handler.kind ≠ .payload →
    core = core'

namespace Ordered

/-- Nothing runs for a free message. -/
theorem not_running (ordered : run.Ordered) {msg : Msg} (free : (run.phase msg).isFree = true)
    {core : Core} {handler : RunningHandler Msg Position} (runs : run.running core = some handler) :
    handler.msg ≠ msg := by
  rintro rfl
  have here := ordered.inPhase runs
  cases phase : run.phase handler.msg with
  | free => cases kind : handler.kind <;> simp [phase, kind, MsgPhase.Runs] at here
  | _ => simp [phase, MsgPhase.isFree] at free

/-- Only payload handlers run for a message in the payload phase. -/
theorem kind_eq_payload (ordered : run.Ordered) {msg : Msg}
    (payload : (run.phase msg).isPayload = true) {core : Core}
    {handler : RunningHandler Msg Position} (runs : run.running core = some handler)
    (same : handler.msg = msg) : handler.kind = .payload := by
  subst same
  have here := ordered.inPhase runs
  cases phase : run.phase handler.msg with
  | payload pkts => cases kind : handler.kind <;> simp [phase, kind, MsgPhase.Runs] at here ⊢
  | _ => simp [phase, MsgPhase.isPayload] at payload

/-- A handler that may start starts beside payload handlers only, and a payload handler beside
    nothing else. -/
theorem beside (ordered : run.Ordered) {kind : HandlerKind} {msg : Msg}
    (may : run.MayStart program kind msg) {core : Core} {handler : RunningHandler Msg Position}
    (runs : run.running core = some handler) (same : handler.msg = msg) :
    kind = .payload ∧ handler.kind = .payload := by
  cases kind with
  | header => exact absurd same (ordered.not_running may.2 runs)
  | payload =>
    rcases may with open' | ⟨-, free⟩
    · exact ⟨rfl, ordered.kind_eq_payload open' runs same⟩
    · exact absurd same (ordered.not_running free runs)
  | completion => exact absurd same (may.2 core handler runs)

/-- Nothing but payload handlers runs beside a handler of the same message. -/
theorem company (ordered : run.Ordered) {core other : Core}
    {handler beside : RunningHandler Msg Position} (runs : run.running core = some handler)
    (apart : other ≠ core) (runs' : run.running other = some beside)
    (same : beside.msg = handler.msg) : beside.kind = .payload := by
  by_contra notPayload
  exact apart (ordered.alone runs' runs same notPayload)

variable [DecidableEq Core]

theorem proceed (ordered : run.Ordered) {core : Core} {handler : RunningHandler Msg Position}
    (runs : run.running core = some handler) (position : Position) (shared : Shared) :
    (run.proceed core handler position shared).Ordered where
  inPhase := by
    intro other handler' runs'
    simp only [MsgRun.proceed, Function.update_apply] at runs' ⊢
    split at runs'
    · obtain rfl := Option.some.inj runs'
      have before := ordered.inPhase runs
      exact before
    · exact ordered.inPhase runs'
  alone := by
    intro one other handler₁ handler₂ runs₁ runs₂ same notPayload
    simp only [MsgRun.proceed, Function.update_apply] at runs₁ runs₂
    split at runs₁ <;> split at runs₂
    next first second => exact first.trans second.symm
    next first second =>
      obtain rfl := Option.some.inj runs₁
      exact first.trans (ordered.alone runs runs₂ same notPayload)
    next first second =>
      obtain rfl := Option.some.inj runs₂
      exact (ordered.alone runs₁ runs same notPayload).trans second.symm
    next => exact ordered.alone runs₁ runs₂ same notPayload

variable [DecidableEq Msg]

theorem begin (ordered : run.Ordered) {core : Core} {kind : HandlerKind} {msg : Msg} {pkt : Pkt}
    (may : run.MayStart program kind msg) :
    (run.begin program core kind msg pkt).Ordered where
  inPhase := by
    intro other handler runs
    simp only [MsgRun.begin, Function.update_apply] at runs ⊢
    split at runs
    · obtain rfl := Option.some.inj runs
      rw [if_pos rfl]
      cases kind <;> trivial
    · have before := ordered.inPhase runs
      split
      next same =>
        obtain ⟨rfl, payload⟩ := ordered.beside may runs same
        rw [payload]
        trivial
      next => exact before
  alone := by
    intro one other handler handler' runs runs' same notPayload
    simp only [MsgRun.begin, Function.update_apply] at runs runs'
    split at runs <;> split at runs'
    next first second => exact first.trans second.symm
    next first second =>
      obtain rfl := Option.some.inj runs
      exact absurd (ordered.beside may runs' same.symm).1 notPayload
    next first second =>
      obtain rfl := Option.some.inj runs'
      exact absurd (ordered.beside may runs same).2 notPayload
    next => exact ordered.alone runs runs' same notPayload

theorem finish (ordered : run.Ordered) {core : Core} {handler : RunningHandler Msg Position}
    (runs : run.running core = some handler) (out : Option Out) (shared : Shared) :
    (run.finish core handler out shared).Ordered where
  inPhase := by
    intro other handler' runs'
    simp only [MsgRun.finish, Function.update_apply] at runs' ⊢
    split at runs'
    · cases runs'
    next apart =>
      split
      next same =>
        -- only payload handlers had company
        have payload : handler.kind = .payload := by
          by_contra notPayload
          exact apart (ordered.alone runs runs' same.symm notPayload).symm
        rw [payload, ← same]
        exact ordered.inPhase runs'
      next => exact ordered.inPhase runs'
  alone := by
    intro one other handler₁ handler₂ runs₁ runs₂ same notPayload
    simp only [MsgRun.finish, Function.update_apply] at runs₁ runs₂
    split at runs₁
    · cases runs₁
    · split at runs₂
      · cases runs₂
      · exact ordered.alone runs₁ runs₂ same notPayload

theorem happen (ordered : run.Ordered) {event : MsgEvent Core Msg Pkt}
    (permitted : run.Permits program event) : (run.happen program event).Ordered := by
  cases event with
  | start core kind msg pkt => exact ordered.begin permitted.2
  | step core =>
    obtain ⟨handler, runs, ⟨position, shared, next⟩ | ⟨out, shared, next⟩⟩ :=
      advance_cases program permitted
    · show (run.advance program core).Ordered
      rw [next]
      exact ordered.proceed runs position shared
    · show (run.advance program core).Ordered
      rw [next]
      exact ordered.finish runs out shared

theorem reset (shared : Shared) :
    (msgRun program shared : Machine (MsgRun Core Msg Pkt Position Shared Out) _).reset.Ordered where
  inPhase := by
    intro core handler runs
    cases runs
  alone := by
    intro core core' handler handler' runs
    cases runs

end Ordered

/-! ## One message at a time -/

def OneActive (run : MsgRun Core Msg Pkt Position Shared Out) : Prop :=
  ∀ {msg msg'}, (run.phase msg).isFree = false → (run.phase msg').isFree = false → msg = msg'

/-- A message whose handler runs is active. -/
theorem Ordered.active (ordered : run.Ordered) {core : Core} {handler : RunningHandler Msg Position}
    (runs : run.running core = some handler) : (run.phase handler.msg).isFree = false := by
  by_contra free
  exact ordered.not_running (by simpa using free) runs rfl

/-! ## What a step changes -/

/-- A step of a core for a message: the core's handler and the phase of the message change, and
    beside the core only payload handlers run for the message. -/
structure Turn [DecidableEq Core] [DecidableEq Msg]
    (run run' : MsgRun Core Msg Pkt Position Shared Out) (core : Core) (msg : Msg)
    (after : Option (RunningHandler Msg Position)) (phase : MsgPhase Core Pkt) : Prop where
  running : run'.running = Function.update run.running core after
  phases : run'.phase = Function.update run.phase msg phase
  before_msg : ∀ handler ∈ run.running core, handler.msg = msg
  after_msg : ∀ handler ∈ after, handler.msg = msg
  company : ∀ {other handler}, other ≠ core → run.running other = some handler →
    handler.msg = msg → handler.kind = .payload

namespace Turn

variable [DecidableEq Core] [DecidableEq Msg] {run' : MsgRun Core Msg Pkt Position Shared Out}
  {core : Core} {msg : Msg} {after : Option (RunningHandler Msg Position)}
  {phase : MsgPhase Core Pkt}

theorem begin (ordered : run.Ordered) {kind : HandlerKind} (idle : run.running core = none)
    (may : run.MayStart program kind msg) (pkt : Pkt) :
    Turn run (run.begin program core kind msg pkt) core msg
      (some ⟨msg, kind, program.start kind core pkt⟩) ((run.phase msg).started core pkt kind) where
  running := rfl
  phases := rfl
  before_msg := by simp [idle]
  after_msg := by simp
  company := fun _ runs same => (ordered.beside may runs same).2

theorem proceed (ordered : run.Ordered) {handler : RunningHandler Msg Position}
    (runs : run.running core = some handler) (position : Position) (shared : Shared) :
    Turn run (run.proceed core handler position shared) core handler.msg
      (some { handler with position := position }) (run.phase handler.msg) where
  running := rfl
  phases := (Function.update_eq_self _ _).symm
  before_msg := by simp [runs]
  after_msg := by simp
  company := ordered.company runs

theorem finish (ordered : run.Ordered) {handler : RunningHandler Msg Position}
    (runs : run.running core = some handler) (out : Option Out) (shared : Shared) :
    Turn run (run.finish core handler out shared) core handler.msg none
      ((run.phase handler.msg).ended handler.kind) where
  running := rfl
  phases := rfl
  before_msg := by simp [runs]
  after_msg := by simp
  company := ordered.company runs

theorem phase_self (turn : Turn run run' core msg after phase) : run'.phase msg = phase := by
  rw [turn.phases, Function.update_self]

theorem phase_other (turn : Turn run run' core msg after phase) {other : Msg} (ne : other ≠ msg) :
    run'.phase other = run.phase other := by
  rw [turn.phases, Function.update_of_ne ne]

theorem running_self (turn : Turn run run' core msg after phase) : run'.running core = after := by
  rw [turn.running, Function.update_self]

theorem running_other (turn : Turn run run' core msg after phase) {other : Core}
    (ne : other ≠ core) : run'.running other = run.running other := by
  rw [turn.running, Function.update_of_ne ne]

/-- The handlers of other messages are the ones there were. -/
theorem runs_iff (turn : Turn run run' core msg after phase)
    {handler : RunningHandler Msg Position} (ne : handler.msg ≠ msg) (other : Core) :
    run'.running other = some handler ↔ run.running other = some handler := by
  by_cases same : other = core
  · subst same
    rw [turn.running_self]
    exact ⟨fun now => absurd (turn.after_msg handler now) ne,
      fun was => absurd (turn.before_msg handler was) ne⟩
  · rw [turn.running_other same]

/-- What a step does to a sum over the cores. -/
theorem sum_running {M : Type*} [AddCommMonoid M] [Fintype Core]
    (turn : Turn run run' core msg after phase)
    (f : Option (RunningHandler Msg Position) → M) :
    (∑ other, f (run'.running other)) + f (run.running core) =
      (∑ other, f (run.running other)) + f after := by
  rw [turn.running]
  exact Threads.sum_update (fun _ => f) run.running core after

/-- A step of the active message, or of one that becomes active alone. -/
theorem oneActive (turn : Turn run run' core msg after phase) (one : run.OneActive)
    (active : phase.isFree = false → ∀ other, other ≠ msg → (run.phase other).isFree = true) :
    run'.OneActive := by
  intro one' other active₁ active₂
  by_cases first : one' = msg
  · subst first
    by_contra differ
    rw [turn.phase_self] at active₁
    rw [turn.phase_other (Ne.symm differ), active active₁ other (Ne.symm differ)] at active₂
    cases active₂
  · rw [turn.phase_other first] at active₁
    by_cases second : other = msg
    · subst second
      rw [turn.phase_self] at active₂
      rw [active active₂ one' first] at active₁
      cases active₁
    · rw [turn.phase_other second] at active₂
      exact one active₁ active₂

end Turn

theorem OneActive.others (one : run.OneActive) {msg : Msg} (active : (run.phase msg).isFree = false)
    {other : Msg} (ne : other ≠ msg) : (run.phase other).isFree = true := by
  by_contra free
  exact ne (one (by simpa using free) active)

theorem OneActive.happen [DecidableEq Core] [DecidableEq Msg] (one : run.OneActive)
    (ordered : run.Ordered) {event : MsgEvent Core Msg Pkt}
    (permitted : run.Permits program event) (alone : run.Alone event) :
    (run.happen program event).OneActive := by
  cases event with
  | start core kind msg pkt =>
    exact (Turn.begin ordered permitted.1 permitted.2 pkt).oneActive one fun _ => alone
  | step core =>
    obtain ⟨handler, runs, ⟨position, shared, next⟩ | ⟨out, shared, next⟩⟩ :=
      advance_cases program permitted
    · show (run.advance program core).OneActive
      rw [next]
      exact (Turn.proceed ordered runs position shared).oneActive one fun _ other =>
        one.others (ordered.active runs)
    · show (run.advance program core).OneActive
      rw [next]
      exact (Turn.finish ordered runs out shared).oneActive one fun _ other =>
        one.others (ordered.active runs)

end MsgRun

end Pspin
