import Pspin.Handlers.MsgRun
import Pspin.Handlers.Packets
import Pspin.Runtime.Atomics

/-! # `ALLReduce`

The payload handlers add the gradients of their packets to those of the model, which they all
share, with a load and a store for each.  An addition is lost when another handler loads
between the two; nothing is lost as long as that never happens.
-/

namespace Pspin

open Clocked

def modelSizeFloats : Nat := 4096

instance : NeZero modelSizeFloats := ⟨by decide⟩

/-- `model_gradients` -/
abbrev Gradients (α : Type) := Fin modelSizeFloats → α

/-! ## The handlers -/

/-- Where a handler is: the next gradient to load with the gradients of the packet left to add,
    the store of a gradient that was loaded, or the next gradient to report. -/
inductive AllReducePos (α : Type) where
  | load (i : Nat) (incoming : List α)
  | store (i : Fin modelSizeFloats) (loaded grad : α) (incoming : List α)
  | report (i : Nat) (sent : List α)

namespace AllReducePos

variable {α : Type} [Add α]

def act : AllReducePos α → Gradients α → HandlerStep (AllReducePos α) (List α) × Gradients α
  | load _ [], model => (.done none, model)
  | load i (grad :: incoming), model =>
    if inside : i < modelSizeFloats then (.next (store ⟨i, inside⟩ (model ⟨i, inside⟩) grad incoming), model)
    else (.next (load (i + 1) incoming), model)
  | store i loaded grad incoming, model =>
    (.next (load (i + 1) incoming), Function.update model i (loaded + grad))
  | report i sent, model =>
    if inside : i < modelSizeFloats then (.next (report (i + 1) (sent ++ [model ⟨i, inside⟩])), model)
    else (.done (some sent), model)

end AllReducePos

/-- The gradients of a packet, as the values its words stand for. -/
def incomingGrads {α : Type} (value : Word → α) (pkt : ByteMem) : List α :=
  (PktHdr.pldWords pkt).map value

/-- `allreduce_ph` and `allreduce_th` -/
def allReduce {Core α : Type} [Add α] (value : Word → α) :
    HandlerProgram Core ByteMem (AllReducePos α) (Gradients α) (List α) where
  hasHeader := false
  start
    | .completion, _, _ => .report 0 []
    | _, _, pkt => .load 0 (incomingGrads value pkt)
  act := AllReducePos.act

abbrev AllReduceRun (Core Msg α : Type) :=
  MsgRun Core Msg ByteMem (AllReducePos α) (Gradients α) (List α)

namespace AllReducePos

variable {α : Type}

/-- The gradient that the next step loads. -/
def loads : AllReducePos α → Option (Fin modelSizeFloats)
  | load i (_ :: _) => if inside : i < modelSizeFloats then some ⟨i, inside⟩ else none
  | _ => none

/-- A gradient was loaded and not yet stored. -/
def Stores (i : Fin modelSizeFloats) : AllReducePos α → Prop
  | store j .. => j = i
  | _ => False

instance (i : Fin modelSizeFloats) : (position : AllReducePos α) → Decidable (position.Stores i)
  | store j .. => inferInstanceAs (Decidable (j = i))
  | load .. => isFalse id
  | report .. => isFalse id

variable [Zero α]

/-- What gradients that start at an index add to another one. -/
def remaining (j : Nat) (incoming : List α) (i : Fin modelSizeFloats) : α :=
  if j ≤ i.val then incoming[i.val - j]?.getD 0 else 0

/-- What a handler still adds to a gradient. -/
def pending : AllReducePos α → Gradients α
  | load j incoming, i => remaining j incoming i
  | store j _ grad incoming, i => remaining j (grad :: incoming) i
  | report .., _ => 0

@[simp] theorem remaining_nil (j : Nat) (i : Fin modelSizeFloats) :
    remaining j ([] : List α) i = 0 := by
  simp [remaining]

theorem remaining_cons_self (i : Fin modelSizeFloats) (grad : α) (incoming : List α) :
    remaining i.val (grad :: incoming) i = grad ∧ remaining (i.val + 1) incoming i = 0 := by
  simp [remaining]

theorem remaining_cons_ne {j : Nat} {i : Fin modelSizeFloats} (ne : j ≠ i.val) (grad : α)
    (incoming : List α) : remaining j (grad :: incoming) i = remaining (j + 1) incoming i := by
  by_cases before : j < i.val
  · have offset : i.val - j = (i.val - (j + 1)) + 1 := by omega
    rw [remaining, remaining, if_pos before.le, if_pos (Nat.succ_le_of_lt before), offset,
      List.getElem?_cons_succ]
  · rw [remaining, remaining, if_neg (by omega), if_neg (by omega)]

end AllReducePos

/-- What a packet adds to a gradient. -/
def contribution {α : Type} [Zero α] (value : Word → α) (pkt : ByteMem)
    (i : Fin modelSizeFloats) : α :=
  (incomingGrads value pkt)[i.val]?.getD 0

/-- The packets whose payload handlers were started. -/
def payloadPkts {Core Msg Pkt : Type} (events : List (MsgEvent Core Msg Pkt)) : List Pkt :=
  events.filterMap fun
    | .start _ .payload _ pkt => some pkt
    | _ => none

namespace AllReduceRun

variable {Core Msg α : Type} (run : AllReduceRun Core Msg α)

/-- A gradient is loaded while no other handler is between its load and its store. -/
def Exclusive : MsgEvent Core Msg ByteMem → Prop
  | .step core => ∀ handler ∈ run.running core, ∀ i ∈ handler.position.loads,
    ∀ other, ∀ beside ∈ run.running other, ¬beside.position.Stores i
  | .start .. => True

/-- No payload handler runs. -/
def Quiet : Prop := ∀ core, ∀ handler ∈ run.running core, handler.kind ≠ .payload

section Decidable

variable [Fintype Core]

instance : (event : MsgEvent Core Msg ByteMem) → Decidable (Exclusive run event)
  | .step core =>
    have : DecidablePred fun handler : RunningHandler Msg (AllReducePos α) =>
        ∀ i ∈ handler.position.loads, ∀ other, ∀ beside ∈ run.running other,
          ¬beside.position.Stores i :=
      fun handler => Option.decidableForallMem handler.position.loads
    inferInstanceAs (Decidable (∀ handler ∈ run.running core, _))
  | .start .. => isTrue trivial

instance : Decidable (Quiet run) :=
  inferInstanceAs (Decidable (∀ core, ∀ handler ∈ run.running core, handler.kind ≠ .payload))

end Decidable

variable [AddCommMonoid α]

def pendingOf (i : Fin modelSizeFloats) : Option (RunningHandler Msg (AllReducePos α)) → α
  | some handler => handler.position.pending i
  | none => 0

structure Inv [Fintype Core] (value : Word → α) (initial : Gradients α)
    (past : List (MsgEvent Core Msg ByteMem)) : Prop where
  kinds : ∀ {core handler}, run.running core = some handler → handler.kind ≠ .payload →
    ∀ i, handler.position.pending i = 0
  exclusive : ∀ {core core' handler handler' i}, run.running core = some handler →
    run.running core' = some handler' → handler.position.Stores i → handler'.position.Stores i →
    core = core'
  fresh : ∀ {core handler i loaded grad incoming}, run.running core = some handler →
    handler.position = .store i loaded grad incoming → loaded = run.shared i
  counts : ∀ i, run.shared i + ∑ core, pendingOf i (run.running core) =
    initial i + ((payloadPkts past).map (contribution value · i)).sum

variable {run} {run' : AllReduceRun Core Msg α} [Fintype Core] [DecidableEq Core]
  {value : Word → α} {initial : Gradients α} {past : List (MsgEvent Core Msg ByteMem)}
  {event : MsgEvent Core Msg ByteMem} {core : Core}
  {after : Option (RunningHandler Msg (AllReducePos α))}

/-- A step of a core, in what it does to the core's handler and to the gradients. -/
theorem Inv.of_update (inv : run.Inv value initial past)
    (running : run'.running = Function.update run.running core after)
    (kinds : ∀ handler ∈ after, handler.kind ≠ .payload → ∀ i, handler.position.pending i = 0)
    (exclusive : ∀ handler ∈ after, ∀ i, handler.position.Stores i → ∀ other ≠ core,
      ∀ beside ∈ run.running other, ¬beside.position.Stores i)
    (fresh : ∀ handler ∈ after, ∀ i loaded grad incoming,
      handler.position = .store i loaded grad incoming → loaded = run'.shared i)
    (others : ∀ other ≠ core, ∀ beside ∈ run.running other, ∀ i, beside.position.Stores i →
      run'.shared i = run.shared i)
    (counts : ∀ i, run'.shared i + pendingOf i after = run.shared i +
      pendingOf i (run.running core) + ((payloadPkts [event]).map (contribution value · i)).sum) :
    run'.Inv value initial (past ++ [event]) where
  kinds := by
    intro other handler runs
    rw [running, Function.update_apply] at runs
    split at runs
    · exact kinds handler runs
    · exact inv.kinds runs
  exclusive := by
    intro one two handler handler' i runs runs' stores stores'
    rw [running, Function.update_apply] at runs runs'
    split at runs <;> split at runs'
    next first second => exact first.trans second.symm
    next first second => exact absurd stores' (exclusive handler runs i stores two second handler' runs')
    next first second => exact absurd stores (exclusive handler' runs' i stores' one first handler runs)
    next => exact inv.exclusive runs runs' stores stores'
  fresh := by
    intro other handler i loaded grad incoming runs position
    rw [running, Function.update_apply] at runs
    split at runs
    · exact fresh handler runs i loaded grad incoming position
    next apart =>
      rw [others other apart handler runs i (by rw [position]; rfl)]
      exact inv.fresh runs position
  counts := by
    intro i
    -- the handlers of the other cores have pending what they had
    obtain ⟨rest, total⟩ := Threads.exists_rest (fun _ => pendingOf i) run.running core
    have before := inv.counts i
    rw [← Function.update_eq_self core run.running, total] at before
    rw [running, total, payloadPkts, List.filterMap_append, List.map_append, List.sum_append,
      ← add_assoc (initial i)]
    show run'.shared i + (rest + pendingOf i after) = initial i +
      ((payloadPkts past).map _).sum + ((payloadPkts [event]).map _).sum
    rw [← before, add_left_comm, counts i]
    ac_rfl

omit [DecidableEq Core] in
/-- With no payload handler running, every gradient counts every packet. -/
theorem Inv.quiet (inv : run.Inv value initial past) (quiet : Quiet run) (i : Fin modelSizeFloats) :
    run.shared i = initial i + ((payloadPkts past).map (contribution value · i)).sum := by
  have none : ∑ core, pendingOf i (run.running core) = 0 := by
    refine Finset.sum_eq_zero fun core _ => ?_
    cases runs : run.running core with
    | none => rfl
    | some handler => exact inv.kinds runs (quiet core handler runs) i
  rw [← inv.counts i, none, add_zero]

/-- A handler that goes on without a store. -/
theorem Inv.proceed (inv : run.Inv value initial past)
    {handler : RunningHandler Msg (AllReducePos α)} (runs : run.running core = some handler)
    {position : AllReducePos α}
    (pending : ∀ i, position.pending i = handler.position.pending i)
    (exclusive : ∀ i, position.Stores i → ∀ other, ∀ beside ∈ run.running other,
      ¬beside.position.Stores i)
    (fresh : ∀ i loaded grad incoming, position = .store i loaded grad incoming →
      loaded = run.shared i) :
    Inv (run.proceed core handler position run.shared) value initial (past ++ [.step core]) := by
  refine inv.of_update rfl ?_ ?_ ?_ (fun _ _ _ _ _ _ => rfl) ?_
  · rintro next ⟨⟩ notPayload i
    exact (pending i).trans (inv.kinds runs notPayload i)
  · rintro next ⟨⟩ i stores other _
    exact exclusive i stores other
  · rintro next ⟨⟩
    exact fresh
  · intro i
    rw [runs]
    show run.shared i + position.pending i = run.shared i + handler.position.pending i + 0
    rw [pending, add_zero]

/-- The store of a gradient that nobody has stored since it was loaded. -/
theorem Inv.store (inv : run.Inv value initial past)
    {handler : RunningHandler Msg (AllReducePos α)} (runs : run.running core = some handler)
    {i : Fin modelSizeFloats} {loaded grad : α} {incoming : List α}
    (store : handler.position = .store i loaded grad incoming) :
    Inv (run.proceed core handler (.load (i + 1) incoming)
      (Function.update run.shared i (loaded + grad))) value initial (past ++ [.step core]) := by
  refine inv.of_update rfl ?_ ?_ ?_ ?_ ?_
  · rintro next ⟨⟩ notPayload cell
    have none := inv.kinds runs notPayload cell
    rw [store] at none
    show AllReducePos.remaining (i + 1) incoming cell = 0
    by_cases here : i = cell
    · subst here
      exact (AllReducePos.remaining_cons_self i grad incoming).2
    · rw [← AllReducePos.remaining_cons_ne (Fin.val_ne_of_ne here) grad]
      exact none
  · rintro next ⟨⟩ cell ⟨⟩
  · rintro next ⟨⟩ cell loaded' grad' incoming' ⟨⟩
  · intro other apart beside runs' cell stores
    refine Function.update_of_ne ?_ _ _
    rintro rfl
    exact apart (inv.exclusive runs' runs stores (by rw [store]; rfl))
  · intro cell
    rw [runs]
    show Function.update run.shared i (loaded + grad) cell +
      AllReducePos.remaining (i + 1) incoming cell =
        run.shared cell + handler.position.pending cell + 0
    rw [add_zero, store, AllReducePos.pending]
    -- the gradient that was stored is no longer pending, and nothing else changes
    by_cases here : i = cell
    · subst here
      obtain ⟨this, rest⟩ := AllReducePos.remaining_cons_self i grad incoming
      rw [Function.update_self, this, rest, add_zero, inv.fresh runs store]
    · rw [Function.update_of_ne (Ne.symm here),
        AllReducePos.remaining_cons_ne (Fin.val_ne_of_ne here)]

variable [DecidableEq Msg] {msg : Msg}

theorem Inv.begin (inv : run.Inv value initial past) {kind : HandlerKind} {pkt : ByteMem}
    (idle : run.running core = none) (may : run.MayStart (allReduce value) kind msg) :
    Inv (run.begin (allReduce value) core kind msg pkt) value initial
      (past ++ [.start core kind msg pkt]) := by
  refine inv.of_update rfl ?_ ?_ ?_ (fun _ _ _ _ _ _ => rfl) ?_
  · rintro handler ⟨⟩ notPayload i
    cases kind with
    | header => cases may.1
    | payload => exact absurd rfl notPayload
    | completion => rfl
  · rintro handler ⟨⟩ i stores
    cases kind <;> cases stores
  · rintro handler ⟨⟩ i loaded grad incoming position
    cases kind <;> cases position
  · intro i
    rw [idle]
    cases kind with
    | header => cases may.1
    | payload =>
      show run.shared i + AllReducePos.remaining 0 _ i = run.shared i + 0 + (contribution value pkt i + 0)
      rw [add_zero, add_zero]
      rfl
    | completion =>
      show run.shared i + 0 = run.shared i + 0 + 0
      rw [add_zero, add_zero]

/-- A handler that returns with nothing left to add. -/
theorem Inv.finish (inv : run.Inv value initial past)
    {handler : RunningHandler Msg (AllReducePos α)} (runs : run.running core = some handler)
    (added : ∀ i, handler.position.pending i = 0) (out : Option (List α)) :
    Inv (run.finish core handler out run.shared) value initial (past ++ [.step core]) := by
  refine inv.of_update rfl ?_ ?_ ?_ (fun _ _ _ _ _ _ => rfl) ?_
  · rintro next ⟨⟩
  · rintro next ⟨⟩
  · rintro next ⟨⟩
  · intro i
    rw [runs]
    show run.shared i + 0 = run.shared i + handler.position.pending i + 0
    rw [added, add_zero, add_zero]

/-- One step of the handlers, when no gradient is loaded between a load and a store of it. -/
theorem Inv.happen (inv : run.Inv value initial past)
    (permitted : run.Permits (allReduce value) event) (exclusive : Exclusive run event) :
    Inv (run.happen (allReduce value) event) value initial (past ++ [event]) := by
  cases event with
  | start core kind msg pkt => exact inv.begin permitted.1 permitted.2
  | step core =>
    obtain ⟨handler, runs⟩ := Option.ne_none_iff_exists'.mp permitted
    show Inv (run.advance (allReduce value) core) value initial _
    cases position : handler.position with
    | load i incoming =>
      cases incoming with
      | nil =>
        rw [MsgRun.advance_done none run.shared runs (by rw [position]; rfl)]
        exact inv.finish runs (fun cell => by rw [position]; exact AllReducePos.remaining_nil i cell) none
      | cons grad incoming =>
        by_cases inside : i < modelSizeFloats
        · rw [MsgRun.advance_next (.store ⟨i, inside⟩ (run.shared ⟨i, inside⟩) grad incoming) run.shared runs (by
              rw [position]
              exact dif_pos inside)]
          refine inv.proceed runs (fun cell => by rw [position]; rfl) ?_ ?_
          · rintro cell ⟨⟩
            exact exclusive handler runs ⟨i, inside⟩ (by rw [position]; exact dif_pos inside)
          · rintro cell loaded grad' incoming' ⟨⟩
            rfl
        -- what is behind the model is loaded and added nowhere
        · rw [MsgRun.advance_next (.load (i + 1) incoming) run.shared runs (by
            rw [position]
            exact dif_neg inside)]
          refine inv.proceed runs (fun cell => ?_) ?_ ?_
          · have bound := cell.isLt
            rw [position]
            exact (AllReducePos.remaining_cons_ne (by omega) grad incoming).symm
          · rintro cell ⟨⟩
          · rintro cell loaded grad' incoming' ⟨⟩
    | store i loaded grad incoming =>
      rw [MsgRun.advance_next (.load (i + 1) incoming) (Function.update run.shared i (loaded + grad))
        runs (by rw [position]; rfl)]
      exact inv.store runs position
    | report i sent =>
      by_cases inside : i < modelSizeFloats
      · rw [MsgRun.advance_next (.report (i + 1) (sent ++ [run.shared ⟨i, inside⟩])) run.shared runs (by
            rw [position]
            exact dif_pos inside)]
        refine inv.proceed runs (fun cell => by rw [position]; rfl) ?_ ?_
        · rintro cell ⟨⟩
        · rintro cell loaded grad incoming ⟨⟩
      · rw [MsgRun.advance_done (some sent) run.shared runs (by
          rw [position]
          exact dif_neg inside)]
        exact inv.finish runs (fun cell => by rw [position]; rfl) (some sent)

theorem Inv.reset : Inv (msgRun (allReduce value) initial : Machine (AllReduceRun Core Msg α) _).reset
    value initial [] where
  kinds := by
    intro core handler runs
    cases runs
  exclusive := by
    intro core core' handler handler' i runs
    cases runs
  fresh := by
    intro core handler i loaded grad incoming runs
    cases runs
  counts := by
    intro i
    show initial i + ∑ core : Core, 0 = initial i + 0
    rw [Finset.sum_const_zero]

theorem Inv.of_admitted {events : List (MsgEvent Core Msg ByteMem)}
    (admitted : (msgRun (allReduce value) initial).Admits
      (fun run event => run.Permits (allReduce value) event ∧ Exclusive run event) events) :
    Inv ((msgRun (allReduce value) initial).run events) value initial events :=
  admitted.invariantOf (fun past run => Inv run value initial past) .reset
    fun _ _ _ inv permitted => inv.happen permitted.1 permitted.2

end AllReduceRun

/-! ## Whole runs -/

/-- What the gradients gain between two points at which no payload handler runs is what the
    packets in between contribute, if no gradient is loaded between a load and a store of it. -/
theorem allReduce_accumulates {Core Msg α : Type} [Fintype Core] [DecidableEq Core]
    [DecidableEq Msg] [AddCommMonoid α] (value : Word → α) (initial : Gradients α)
    {before message : List (MsgEvent Core Msg ByteMem)}
    (admitted : (msgRun (allReduce value) initial).Admits
      (fun run event => run.Permits (allReduce value) event ∧ AllReduceRun.Exclusive run event)
      (before ++ message))
    (quiet : AllReduceRun.Quiet ((msgRun (allReduce value) initial).run before))
    (finished : AllReduceRun.Quiet ((msgRun (allReduce value) initial).run (before ++ message)))
    (i : Fin modelSizeFloats) :
    ((msgRun (allReduce value) initial).run (before ++ message)).shared i =
      ((msgRun (allReduce value) initial).run before).shared i +
        ((payloadPkts message).map (contribution value · i)).sum := by
  rw [(AllReduceRun.Inv.of_admitted admitted).quiet finished,
    (AllReduceRun.Inv.of_admitted (.of_append admitted)).quiet quiet, payloadPkts,
    List.filterMap_append, List.map_append, List.sum_append, ← add_assoc]
  rfl

/-! ### Two packets at once -/

/-- The second handler loads after the first one stored. -/
def inTurn : List (MsgEvent Bool Unit ByteMem) :=
  .start false .payload () (wordPkt 1).mem :: .start true .payload () (wordPkt 2).mem ::
  stepsOf false 2 ++ stepsOf true 2 ++ stepsOf false 1 ++ stepsOf true 1

theorem allReduce_accumulates_inTurn :
    ((msgRun (allReduce BitVec.toNat) fun _ => 0).run ([] ++ inTurn)).shared 0 =
      ((msgRun (allReduce BitVec.toNat) fun _ => 0).run
        ([] : List (MsgEvent Bool Unit ByteMem))).shared 0 +
        ((payloadPkts inTurn).map (contribution BitVec.toNat · 0)).sum :=
  allReduce_accumulates BitVec.toNat _ (by decide +kernel) (by decide +kernel) (by decide +kernel) 0

/-- Both handlers load before either stores. -/
def atOnce : List (MsgEvent Bool Unit ByteMem) :=
  .start false .payload () (wordPkt 1).mem :: .start true .payload () (wordPkt 2).mem ::
  stepsOf false 1 ++ stepsOf true 1 ++ stepsOf false 2 ++ stepsOf true 2

/-- One of the two additions is lost. -/
theorem allReduce_atOnce : ∃ events : List (MsgEvent Bool Unit ByteMem),
    (msgRun (allReduce BitVec.toNat) fun _ => 0).Admits
      (fun run event => run.Permits (allReduce BitVec.toNat) event) events ∧
    AllReduceRun.Quiet ((msgRun (allReduce BitVec.toNat) fun _ => 0).run events) ∧
    ∃ i, ((msgRun (allReduce BitVec.toNat) fun _ => 0).run events).shared i ≠
      0 + ((payloadPkts events).map (contribution BitVec.toNat · i)).sum :=
  ⟨atOnce, by decide +kernel, by decide +kernel, 0, by decide +kernel⟩

end Pspin
