import Pspin.Handlers.MsgRun
import Pspin.Handlers.Packets
import Pspin.Runtime.Atomics

/-! # `int_sum`

The payload handlers add their words to a copy of the sum that they drop, and the completion
handler conveys the address of its result instead of the result.
-/

namespace Pspin

open Clocked

/-- `intsum_state_t`, with the two words of `sum`. -/
structure IntSumState where
  totalElems : Word
  processed : Word
  sumLow : Word
  sumHigh : Word
deriving DecidableEq, Repr

def IntSumState.zeroed : IntSumState := ⟨0, 0, 0, 0⟩

/-- `intsum_result_t`, on the stack of the completion handler. -/
structure IntSumResult where
  msgId : Word
  sum : BitVec 64
deriving DecidableEq, Repr

/-- What a completion handler read and what it conveyed to the host. -/
structure IntSumReport (Core : Type) where
  core : Core
  processed : Word
  totalElems : Word
  result : Option IntSumResult
  conveyed : Option (BitVec 64)
deriving DecidableEq, Repr

/-- `hdr->msg_id` -/
def intSumMsgId (pkt : ByteMem) : Word := pkt.load32 (PktHdr.pldOffset pkt)

/-- `hdr->elem_count` -/
def intSumElemCount (pkt : ByteMem) : Word := pkt.load32 (PktHdr.pldOffset pkt + 4)

/-! ## The handlers -/

/-- Where a handler is, by the word of the state that it accesses next. -/
inductive IntSumPos (Core : Type) where
  -- `int_sum_hh`
  | checkProcessed (total : Word)
  | setTotal (total : Word)
  | clearLow
  | clearHigh
  -- `int_sum_ph`
  | copyLow (words : List Word) (n : Word)
  | copyHigh (words : List Word) (n : Word) (low : Word)
  | accumulate (words : List Word) (n : Word) (localSum : Word × Word)
  -- `int_sum_th`
  | readProcessed (core : Core) (id : Word)
  | readTotal (core : Core) (id processed : Word)
  | readLow (core : Core) (id processed total : Word)
  | readHigh (core : Core) (id processed total low : Word)
  | convey (core : Core) (processed total : Word) (res : IntSumResult)
deriving DecidableEq, Repr

namespace IntSumPos

variable {Core : Type}

/-- `resAddr` is where the completion handler of a core keeps `res`. -/
def act (resAddr : Core → Word) : IntSumPos Core → IntSumState →
    HandlerStep (IntSumPos Core) (IntSumReport Core) × IntSumState
  | checkProcessed total, st =>
    (if st.processed = 0 then .next (setTotal total) else .done none, st)
  | setTotal total, st => (.next clearLow, { st with totalElems := total })
  | clearLow, st => (.next clearHigh, { st with sumLow := 0 })
  | clearHigh, st => (.done none, { st with sumHigh := 0 })
  | copyLow words n, st => (.next (copyHigh words n st.sumLow), st)
  | copyHigh words n low, st => (.next (accumulate words n (low, st.sumHigh)), st)
  -- the `amo_add` on `local_sum` is to its low word
  | accumulate (word :: words) n (low, high), st =>
    (.next (accumulate words n ((amoAdd low word).2, high)), st)
  | accumulate [] n _, st => (.done none, { st with processed := (amoAdd st.processed n).2 })
  | readProcessed core id, st => (.next (readTotal core id st.processed), st)
  | readTotal core id processed, st =>
    (if processed = st.totalElems then .next (readLow core id processed st.totalElems)
      else .done (some ⟨core, processed, st.totalElems, none, none⟩), st)
  | readLow core id processed total, st => (.next (readHigh core id processed total st.sumLow), st)
  | readHigh core id processed total low, st =>
    (.next (convey core processed total ⟨id, st.sumHigh ++ low⟩), st)
  | convey core processed total res, st =>
    (.done (some ⟨core, processed, total, some res, some ((resAddr core).signExtend 64)⟩), st)

end IntSumPos

/-- `int_sum_hh`, `int_sum_ph` and `int_sum_th`. -/
def intSum {Core : Type} (resAddr : Core → Word) :
    HandlerProgram Core ByteMem (IntSumPos Core) IntSumState (IntSumReport Core) where
  hasHeader := true
  start
    | .header, _, pkt => .checkProcessed (intSumElemCount pkt)
    | .payload, _, pkt => .copyLow (PktHdr.pldWords pkt) (PktHdr.pldLen pkt / 4)
    | .completion, core, pkt => .readProcessed core (intSumMsgId pkt)
  act := IntSumPos.act resAddr

/-- The 64-bit sum of the words that the payload handlers of a message processed. -/
def intSumOf {Core : Type} (pkts : List (Core × ByteMem)) : BitVec 64 :=
  (pkts.map fun sent => ((PktHdr.pldWords sent.2).map (·.signExtend 64)).sum).sum

/-! ## What is conveyed -/

section Conveyed

variable {Core : Type} (resAddr : Core → Word)

/-- A completion handler is past its check only when it passed it, and finds an empty sum. -/
def IntSumPos.Passed : IntSumPos Core → Prop
  | readLow _ _ processed total => processed = total
  | readHigh _ _ processed total low => processed = total ∧ low = 0
  | convey _ processed total res => processed = total ∧ res.sum = 0
  | _ => True

namespace IntSumReport

variable (report : IntSumReport Core)

/-- All elements were counted when the completion handler looked. -/
def Reached : Prop := report.processed = report.totalElems

/-- What a completion handler conveys. -/
structure Conveys : Prop where
  address : report.Reached → report.conveyed = some ((resAddr report.core).signExtend 64)
  empty : ∀ res ∈ report.result, res.sum = 0
  nothing : ¬report.Reached → report.conveyed = none

end IntSumReport

/-- No handler adds to the sum, and the address of the result is conveyed. -/
theorem intSum_keeps : MsgRun.Keeps (intSum resAddr) IntSumPos.Passed
    (fun st => st.sumLow = 0 ∧ st.sumHigh = 0) (IntSumReport.Conveys resAddr) where
  start := by
    intro kind core pkt
    cases kind <;> trivial
  next := by
    intro position position' st st' passed zero acts
    cases position with
    | checkProcessed total =>
      simp only [intSum, IntSumPos.act] at acts
      split at acts <;> cases acts
      exact ⟨trivial, zero⟩
    | setTotal total =>
      cases acts
      exact ⟨trivial, zero⟩
    -- the only stores to the sum are those of the header handler
    | clearLow =>
      cases acts
      exact ⟨trivial, rfl, zero.2⟩
    | clearHigh => cases acts
    | copyLow words n =>
      cases acts
      exact ⟨trivial, zero⟩
    | copyHigh words n low =>
      cases acts
      exact ⟨trivial, zero⟩
    | accumulate words n localSum =>
      cases words with
      | nil => cases acts
      | cons word words =>
        cases acts
        exact ⟨trivial, zero⟩
    | readProcessed core id =>
      cases acts
      exact ⟨trivial, zero⟩
    | readTotal core id processed =>
      simp only [intSum, IntSumPos.act] at acts
      split at acts
      next reached =>
        cases acts
        exact ⟨reached, zero⟩
      next => cases acts
    | readLow core id processed total =>
      cases acts
      exact ⟨⟨passed, zero.1⟩, zero⟩
    | readHigh core id processed total low =>
      cases acts
      obtain ⟨reached, rfl⟩ := passed
      refine ⟨⟨reached, ?_⟩, zero⟩
      rw [zero.2]
      rfl
    | convey core processed total res => cases acts
  done := by
    intro position out st st' passed zero acts
    cases position with
    | checkProcessed total =>
      simp only [intSum, IntSumPos.act] at acts
      split at acts <;> cases acts
      exact ⟨zero, by simp⟩
    | clearHigh =>
      cases acts
      exact ⟨⟨zero.1, rfl⟩, by simp⟩
    | accumulate words n localSum =>
      cases words with
      | nil =>
        cases acts
        exact ⟨zero, by simp⟩
      | cons word words => cases acts
    | readTotal core id processed =>
      simp only [intSum, IntSumPos.act] at acts
      split at acts
      next => cases acts
      next missed =>
        cases acts
        refine ⟨zero, ?_⟩
        rintro report ⟨⟩
        exact ⟨fun reached => absurd reached missed, by simp, fun _ => rfl⟩
    | convey core processed total res =>
      cases acts
      refine ⟨zero, ?_⟩
      rintro report ⟨⟩
      refine ⟨fun _ => rfl, ?_, fun missed => absurd passed.1 missed⟩
      rintro res' ⟨⟩
      exact passed.2
    | _ => cases acts

variable {Msg : Type} [DecidableEq Core] [DecidableEq Msg]

/-- A completion handler that finds all elements counted conveys the sum of its message exactly
    when the address of its result happens to be the sum. -/
theorem intSum_conveys_iff (events : List (MsgEvent Core Msg ByteMem)) :
    ∀ written ∈ ((msgRun (intSum resAddr) .zeroed).run events).written,
      ((written.value.Reached → written.value.conveyed = some (intSumOf written.pkts)) ↔
        (written.value.Reached →
          (resAddr written.value.core).signExtend 64 = intSumOf written.pkts)) := by
  have kept := (intSum_keeps resAddr).kept .zeroed ⟨rfl, rfl⟩ events
  intro written among
  have conveys := kept.written written among
  refine forall_congr' fun reached => ?_
  rw [conveys.address reached, Option.some_inj]

end Conveyed

/-! ### One message -/

/-- A packet of two words: message 0 of two elements. -/
def twoWords : ByteMem := (UdpPkt.ofPayload [0, 0, 0, 0, 2, 0, 0, 0] (by decide)).mem

def oneMessage : List (MsgEvent Bool Unit ByteMem) :=
  .start false .header () twoWords :: stepsOf false 4 ++
  .start true .payload () twoWords :: stepsOf true 5 ++
  .start false .completion () twoWords :: stepsOf false 5

/-- Where the stacks of two cores may be. -/
def stackTop (core : Bool) : Word := if core then 0x10000800 else 0x10000400

theorem intSum_conveys_iff_oneMessage :
    ∃ written ∈ ((msgRun (intSum stackTop) .zeroed).run oneMessage).written,
      ((written.value.Reached → written.value.conveyed = some (intSumOf written.pkts)) ↔
        (written.value.Reached →
          (stackTop written.value.core).signExtend 64 = intSumOf written.pkts)) :=
  have sent := List.head_mem (List.ne_nil_of_length_pos (by decide +kernel))
  ⟨_, sent, intSum_conveys_iff stackTop oneMessage _ sent⟩

/-- The words 0 and 2 are counted, and an address is conveyed. -/
theorem intSum_conveys_address : ∃ events : List (MsgEvent Bool Unit ByteMem),
    (msgRun (intSum stackTop) .zeroed).Admits
      (fun run event => run.Permits (intSum stackTop) event) events ∧
    ∃ written ∈ ((msgRun (intSum stackTop) .zeroed).run events).written,
      written.value.processed = written.value.totalElems ∧
        written.value.conveyed ≠ some (intSumOf written.pkts) :=
  ⟨oneMessage, by decide +kernel, by decide +kernel⟩

end Pspin
