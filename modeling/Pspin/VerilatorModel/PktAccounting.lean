import Pspin.VerilatorModel.PktPath
import Pspin.VerilatorModel.PktRingReclaim

/-! # What `NICInbound` frees is what it granted

A packet that has a place is in one of four: its HER waits for the engine, it is queued there, a
task that will give it back is on offer, or the feedback of that task is owed.  So each feedback
that comes has the address of a packet that was granted, but its size is that of the transfer.
-/

namespace Pspin

open Clocked MpqPlan

namespace IncomingHer

variable (incoming : IncomingHer)

/-- The packet as it was granted. -/
def granted : Pkt where
  addr := incoming.her.herAddr.toNat
  size := incoming.pktLen

/-- What is copied to L1 takes as many segments as the packet. -/
def SameSegments : Prop :=
  PktRing.roundedSize incoming.her.xferSize.toNat = PktRing.roundedSize incoming.pktLen.toNat

instance : Decidable incoming.SameSegments := inferInstanceAs (Decidable (_ = _))

/-- Address and size of a feedback round to the region that was granted. -/
def SameRegion (feedback : FeedbackDescr) : Prop :=
  feedback.pktAddr = incoming.her.herAddr ∧
    PktRing.roundedSize feedback.pktSize.toNat = PktRing.roundedSize incoming.pktLen.toNat

end IncomingHer

namespace PktPathTrace

variable {params : PktPathParams} (trace : PktPathTrace params) (inp : PktPathIn)

def step : PktPathTrace params := (trace.1.step inp, PktPathHistory.record trace.1 trace.2 inp)

/-- A packet is not empty, nor is what is copied of it; the engine accepts the HERs of packets
    that have a place, and feedbacks answer tasks handed out, each once. -/
def Permits : Prop :=
  (∀ incoming ∈ inp.incoming, 0 < incoming.her.xferSize.toNat ∧
    incoming.her.xferSize.toNat ≤ incoming.pktLen.toNat) ∧
  (trace.1.engine.herNew inp.engineIn = true → inp.engineIn.herI ∈ trace.2.waiting) ∧
  (MpqEngine.feedbackTaken inp.engineIn = true → inp.engineIn.feedbackI ∈ trace.2.owed)

instance : Decidable (trace.Permits inp) :=
  inferInstanceAs (Decidable ((∀ _ ∈ inp.incoming, _) ∧ _))

/-- The transfer of each packet takes as many segments as the packet. -/
def Alike (_ : PktPathTrace params) (inp : PktPathIn) : Prop :=
  ∀ incoming ∈ inp.incoming, incoming.SameSegments

instance : Decidable (trace.Alike inp) :=
  inferInstanceAs (Decidable (∀ _ ∈ inp.incoming, _))

/-- No packet is granted whose size cannot be rounded in 32 bits, and none moves the tail to the
    start of an empty ring. -/
def Fits : Prop :=
  ∀ incoming ∈ inp.incoming,
    (incoming.pktLen.toNat ≤ 2 ^ 32 - 64 ∨ trace.1.ring.Full) ∧
      ¬trace.1.ring.WrapsEmpty params.ring (PktRing.roundedSize incoming.pktLen.toNat)

instance : Decidable (trace.Fits inp) :=
  inferInstanceAs (Decidable (∀ _ ∈ inp.incoming, _))

/-- Each packet was freed as it was granted, those that are not freed do not overlap, and once all
    are freed the ring is empty. -/
structure Accounts : Prop where
  regions : ∀ entry ∈ trace.2.freed, ∃ incoming, entry.1 = some incoming ∧
    incoming.SameRegion entry.2
  apart : (trace.2.live.map fun incoming => incoming.granted.region params.ring).Pairwise
    Region.Apart
  empties : trace.2.live = [] → trace.1.ring.freeReqQueue = [] ∧
    trace.1.ring.inFlightPackets = 0 ∧ trace.1.ring.tailPtr = trace.1.ring.headPtr

/-! ## Where the packets are -/

/-- The packets that wait, are queued or will be given back are those that are live. -/
structure Located : Prop where
  places : ∃ queued : List (params.mpq.Idx × MpqPkt),
    trace.1.engine.Supplied (fun i => ofKey i queued) ∧
    (trace.2.live.map fun incoming => pktOf incoming.her).Perm (trace.2.waiting.map pktOf ++
      queued.map Prod.snd ++
      givenBack (trace.1.engine.offer.map HandlerTask.feedback ++ trace.2.owed))
  answered : ∀ entry ∈ trace.2.freed, ∃ incoming, entry.1 = some incoming ∧
    pktOf incoming.her = entry.2.pkt

variable {trace inp}

theorem located_reset (cells : Nat → MpqPkt) (metas : params.mpq.Idx → MpqMeta) :
    Located (pktPathTrace params cells metas).reset where
  places := ⟨[], MpqEngine.supplied_reset cells metas, .nil⟩
  answered _ member := by cases member

/-- A HER that is accepted waited. -/
theorem waiting_step (permits : trace.Permits inp) :
    ((trace.step inp).2.waiting.map pktOf ++
      if trace.1.engine.herNew inp.engineIn then [MpqEngine.newPkt inp.engineIn] else []).Perm
    ((trace.1.placed inp).map (fun incoming => pktOf incoming.her) ++
      trace.2.waiting.map pktOf) := by
  have waiting : (trace.step inp).2.waiting = (trace.1.placed inp).map IncomingHer.her ++
    if trace.1.engine.herNew inp.engineIn then trace.2.waiting.erase inp.engineIn.herI
    else trace.2.waiting := rfl
  rw [waiting, List.map_append, List.map_map, List.append_assoc]
  refine List.Perm.append_left _ ?_
  cases arrives : trace.1.engine.herNew inp.engineIn with
  | false => simp
  | true =>
    have taken := (List.perm_cons_erase (permits.2.1 arrives)).map pktOf
    exact (List.perm_append_singleton _ _).trans taken.symm

/-- A feedback that is taken was owed, and one is owed for each task handed out. -/
theorem owed_step (permits : trace.Permits inp) :
    ((trace.step inp).1.engine.offer.map HandlerTask.feedback ++ (trace.step inp).2.owed ++
      if MpqEngine.feedbackTaken inp.engineIn then [inp.engineIn.feedbackI] else []).Perm
    (trace.1.engine.offer.map HandlerTask.feedback ++ trace.2.owed ++
      if trace.1.engine.taskSent inp.engineIn
      then [(trace.1.engine.step inp.engineIn).newTask.feedback] else []) := by
  have offers := congrArg (List.map HandlerTask.feedback)
    (trace.1.engine.offer_step inp.engineIn)
  have owed : (trace.step inp).2.owed =
    (if MpqEngine.feedbackTaken inp.engineIn then trace.2.owed.erase inp.engineIn.feedbackI
      else trace.2.owed) ++
    if inp.engineIn.taskReadyI then trace.1.engine.offer.map HandlerTask.feedback else [] := rfl
  -- the feedback that is taken is one of those owed
  have kept : ((if MpqEngine.feedbackTaken inp.engineIn
      then trace.2.owed.erase inp.engineIn.feedbackI else trace.2.owed) ++
      if MpqEngine.feedbackTaken inp.engineIn then [inp.engineIn.feedbackI] else []).Perm
      trace.2.owed := by
    cases taken : MpqEngine.feedbackTaken inp.engineIn with
    | false => simp
    | true =>
      exact (List.perm_append_singleton _ _).trans (List.perm_cons_erase (permits.2.2 taken)).symm
  have next : (trace.step inp).1.engine = trace.1.engine.step inp.engineIn := rfl
  rw [List.map_append, List.map_append, apply_ite (List.map HandlerTask.feedback),
    apply_ite (List.map HandlerTask.feedback), List.map_nil, List.map_singleton] at offers
  -- both sides have each feedback as often
  refine List.perm_iff_count.mpr fun feedback => ?_
  have kept := kept.count_eq feedback
  have offers := congrArg (List.count feedback) offers
  rw [owed, next]
  simp only [List.count_append] at kept offers ⊢
  omega

theorem returned_eq (inp : PktPathIn) : inp.feedback.toList.map FeedbackDescr.pkt =
    givenBack (if MpqEngine.feedbackTaken inp.engineIn then [inp.engineIn.feedbackI] else []) := by
  rw [PktPathIn.feedback, MpqEngine.nicFeedback_eq, MpqEngine.nicFeedbackO]
  cases MpqEngine.feedbackTaken inp.engineIn with
  | false => rfl
  | true =>
    rw [if_pos rfl, givenBack_singleton, Bool.true_and]
    split
    · rfl
    · rfl

theorem answered_some {history : PktPathHistory} {feedback : FeedbackDescr}
    {incoming : IncomingHer} (found : history.answered feedback = some incoming) :
    incoming ∈ history.live ∧ pktOf incoming.her = feedback.pkt := by
  rw [PktPathHistory.answered] at found
  have same := List.find?_some found
  exact ⟨List.mem_of_find?_eq_some found, of_decide_eq_true same⟩

/-- The packet that a feedback answers is live. -/
theorem Located.answered_eq (located : trace.Located) (permits : trace.Permits inp)
    {feedback : FeedbackDescr} (comes : inp.feedback = some feedback) :
    ∃ incoming ∈ trace.2.live, trace.2.answered feedback = some incoming ∧
      pktOf incoming.her = feedback.pkt := by
  obtain ⟨queued, -, places⟩ := located.places
  have owes : feedback.pkt ∈ givenBack trace.2.owed := by
    rw [PktPathIn.feedback, MpqEngine.nicFeedback_eq] at comes
    split at comes
    next forwards =>
      cases comes
      obtain ⟨taken, triggers⟩ := Bool.and_eq_true_iff.mp forwards
      exact mem_givenBack (permits.2.2 taken) triggers
    next => cases comes
  have isLive : feedback.pkt ∈ trace.2.live.map fun incoming => pktOf incoming.her := by
    rw [places.mem_iff, givenBack_append]
    exact List.mem_append_right _ (List.mem_append_right _ owes)
  obtain ⟨incoming, member, same⟩ := List.mem_map.mp isLive
  -- the first live packet that fits is one, if any is
  cases found : trace.2.answered feedback with
  | none => exact absurd (decide_eq_true same) (List.find?_eq_none.mp found incoming member)
  | some incoming =>
    obtain ⟨member, same⟩ := answered_some found
    exact ⟨incoming, member, rfl, same⟩

theorem live_step (located : trace.Located) (permits : trace.Permits inp) :
    ((trace.step inp).2.live.map (fun incoming => pktOf incoming.her) ++
      inp.feedback.toList.map FeedbackDescr.pkt).Perm
    ((trace.1.placed inp).map (fun incoming => pktOf incoming.her) ++
      trace.2.live.map fun incoming => pktOf incoming.her) := by
  have live : (trace.step inp).2.live =
    trace.1.placed inp ++ trace.2.unanswered inp.feedback := rfl
  rw [live, List.map_append, List.append_assoc]
  refine List.Perm.append_left _ ?_
  cases comes : inp.feedback with
  | none => simp [PktPathHistory.unanswered]
  | some feedback =>
    obtain ⟨incoming, member, answered, same⟩ := located.answered_eq permits comes
    have erased := (List.perm_cons_erase member).map fun incoming => pktOf incoming.her
    rw [List.map_cons, same] at erased
    simp only [PktPathHistory.unanswered, answered]
    exact (List.perm_append_singleton _ _).trans erased.symm

theorem answered_step (located : trace.Located) (permits : trace.Permits inp)
    (entry : Option IncomingHer × FeedbackDescr) (member : entry ∈ (trace.step inp).2.freed) :
    ∃ incoming, entry.1 = some incoming ∧ pktOf incoming.her = entry.2.pkt := by
  rcases List.mem_append.mp member with before | now
  · exact located.answered entry before
  · obtain ⟨feedback, comes, rfl⟩ := List.mem_map.mp now
    obtain ⟨incoming, -, answered, same⟩ :=
      located.answered_eq permits (Option.mem_toList.mp comes)
    exact ⟨incoming, answered, same⟩

theorem Located.step (located : trace.Located) (permits : trace.Permits inp) :
    (trace.step inp).Located := by
  obtain ⟨queued, supplied, places⟩ := located.places
  refine ⟨⟨_, supplied.queuedNext inp.engineIn, ?_⟩, answered_step located permits⟩
  · have waiting := waiting_step permits
    have queues := supplied.queued_perm inp.engineIn
    have owed := givenBack_perm (owed_step permits)
    have live := live_step located permits
    rw [returned_eq] at live
    refine List.perm_iff_count.mpr fun pkt => ?_
    have waiting := waiting.count_eq pkt
    have queues := queues.count_eq pkt
    have owed := owed.count_eq pkt
    have live := live.count_eq pkt
    have places := places.count_eq pkt
    simp only [List.count_append, givenBack_append] at *
    omega

/-! ## What the ring holds -/

theorem allocatePktSpace_lt {ring granted : PktRing} {size addr : Nat}
    (found : ring.allocatePktSpace params.ring size = some (addr, granted)) : addr < 2 ^ 32 := by
  rw [PktRing.allocatePktSpace, Option.map_eq_some_iff] at found
  obtain ⟨placed, -, same⟩ := found
  obtain ⟨rfl, -⟩ := Prod.mk.inj same
  exact Nat.mod_lt _ (Nat.two_pow_pos 32)

/-- `free_pkt_space` reads a size in whole segments only. -/
theorem freePktSpace_congr (ring : PktRing) (addr : Nat) {size size' : Nat}
    (same : PktRing.roundedSize size = PktRing.roundedSize size') :
    ring.freePktSpace params.ring addr size = ring.freePktSpace params.ring addr size' := by
  rw [PktRing.freePktSpace, PktRing.freePktSpace, PktRing.park, PktRing.park, same]

section Ring

variable {ring : PktRing} {history : PktHistory}
  (reclaims : PktTrace.Reclaims params.ring (ring, history))

include reclaims

/-- A packet that is processed is granted, if there is a place for it. -/
theorem processed_reclaims (engine : MpqEngine params.mpq) (inp : PktPathIn)
    (nonempty : ∀ incoming ∈ inp.incoming, 0 < incoming.pktLen.toNat)
    (fits : ∀ incoming ∈ inp.incoming, (incoming.pktLen.toNat ≤ 2 ^ 32 - 64 ∨ ring.Full) ∧
      ¬ring.WrapsEmpty params.ring (PktRing.roundedSize incoming.pktLen.toNat)) :
    let path : PktPath params := ⟨ring, engine⟩
    ∃ history' : PktHistory,
      history'.live = (path.placed inp).map IncomingHer.granted ++ history.live ∧
      PktTrace.Reclaims params.ring (path.ringProcessed inp, history') := by
  intro path
  cases comes : inp.incoming with
  | none =>
    have none : path.processed inp = none := by rw [PktPath.processed, comes, Option.bind_none]
    rw [PktPath.placed, PktPath.ringProcessed, none]
    exact ⟨history, rfl, reclaims⟩
  | some incoming =>
    have processed : path.processed inp = ring.processPacket params.ring incoming := by
      rw [PktPath.processed, comes, Option.bind_some]
    rw [PktPath.placed, PktPath.ringProcessed, processed, PktRing.processPacket]
    cases found : ring.allocatePktSpace params.ring incoming.pktLen.toNat with
    | none => exact ⟨history, rfl, reclaims⟩
    | some granted =>
      -- the ring alone, in a step of its own runs
      have place := fits incoming comes
      have permits : PktTrace.Permits (ring, history) (.allocate incoming.pktLen) :=
        nonempty incoming comes
      have next := reclaims.step permits place.1 place.2
      have stepped : PktTrace.step params.ring (ring, history) (.allocate incoming.pktLen) =
          (granted.2, { history with live := ⟨granted.1, incoming.pktLen⟩ :: history.live }) := by
        simp only [PktTrace.step, PktRing.step, PktHistory.record, found]
      have addr : (BitVec.ofNat 32 granted.1).toNat = granted.1 :=
        Nat.mod_eq_of_lt (allocatePktSpace_lt found)
      rw [stepped] at next
      refine ⟨_, ?_, next⟩
      simp [IncomingHer.granted, addr]

/-- A packet whose transfer takes as many segments is freed as it was granted. -/
theorem freed_reclaims {incoming : IncomingHer} {feedback : FeedbackDescr}
    (member : incoming.granted ∈ history.live) (alike : incoming.SameSegments)
    (packet : pktOf incoming.her = feedback.pkt) :
    ∃ history' : PktHistory, history'.live = history.live.erase incoming.granted ∧
      PktTrace.Reclaims params.ring (ring.feedbackProgress params.ring feedback, history') := by
  have permits : PktTrace.Permits (ring, history) (.free incoming.granted) := member
  have next := reclaims.step permits trivial trivial
  obtain ⟨offset, found, -⟩ := reclaims.toInv.park member
  have freed : ring.feedbackProgress params.ring feedback =
      ring.step params.ring (.free incoming.granted) := by
    have addr : feedback.pktAddr = incoming.her.herAddr := (congrArg MpqPkt.pktAddr packet).symm
    have size : feedback.pktSize = incoming.her.xferSize := (congrArg MpqPkt.pktSize packet).symm
    rw [PktRing.feedbackProgress, PktRing.step, addr, size, freePktSpace_congr ring _ alike]
    rfl
  rw [freed]
  exact ⟨_, congrArg (fun trace => trace.2.live) (PktTrace.step_freed found), next⟩

end Ring

/-- The invariant: the ring holds the packets that are live. -/
structure Kept (trace : PktPathTrace params) : Prop where
  ring : ∃ history : PktHistory,
    history.live.Perm (trace.2.live.map IncomingHer.granted) ∧
    PktTrace.Reclaims params.ring (trace.1.ring, history)
  alike : ∀ incoming ∈ trace.2.live, incoming.SameSegments

theorem kept_reset (cells : Nat → MpqPkt) (metas : params.mpq.Idx → MpqMeta) :
    Kept (pktPathTrace params cells metas).reset where
  ring := ⟨PktHistory.empty, .nil, PktTrace.Reclaims.reset⟩
  alike _ member := by cases member

theorem placed_alike (alike : trace.Alike inp) (incoming : IncomingHer)
    (member : incoming ∈ trace.1.placed inp) : incoming.SameSegments := by
  simp only [PktPath.placed, PktPath.processed, PktRing.processPacket, Option.mem_toList,
    Option.map_eq_some_iff, Option.bind_eq_some_iff] at member
  obtain ⟨-, ⟨arrived, comes, granted, -, rfl⟩, rfl⟩ := member
  exact alike arrived comes

/-- A packet that stays was live before. -/
theorem mem_of_unanswered {history : PktPathHistory} {feedback : Option FeedbackDescr}
    {incoming : IncomingHer} (member : incoming ∈ history.unanswered feedback) :
    incoming ∈ history.live := by
  cases feedback with
  | none => exact member
  | some feedback =>
    rw [PktPathHistory.unanswered] at member
    split at member
    · exact member
    · exact List.mem_of_mem_erase member

theorem Kept.step (kept : trace.Kept) (located : trace.Located) (permits : trace.Permits inp)
    (alike : trace.Alike inp) (fits : trace.Fits inp) : (trace.step inp).Kept := by
  obtain ⟨history, same, reclaims⟩ := kept.ring
  obtain ⟨history, live, processed⟩ := processed_reclaims reclaims trace.1.engine inp
    (fun incoming comes => (permits.1 incoming comes).1.trans_le (permits.1 incoming comes).2) fits
  have holds : history.live.Perm
      ((trace.1.placed inp).map IncomingHer.granted ++ trace.2.live.map IncomingHer.granted) :=
    live ▸ same.append_left _
  have next : (trace.step inp).2.live =
    trace.1.placed inp ++ trace.2.unanswered inp.feedback := rfl
  refine ⟨?_, fun incoming member => ?_⟩
  · rw [next, List.map_append]
    -- the ring frees a packet after it has placed the one that comes
    cases comes : inp.feedback with
    | none =>
      have ring : (trace.step inp).1.ring = trace.1.ringProcessed inp := by
        simp only [PktPathTrace.step, PktPath.step, comes]
      exact ⟨history, holds, ring ▸ processed⟩
    | some feedback =>
      obtain ⟨incoming, member, answered, packet⟩ := located.answered_eq permits comes
      have granted : incoming.granted ∈ history.live :=
        holds.mem_iff.mpr (List.mem_append_right _ (List.mem_map_of_mem member))
      obtain ⟨history', live', freed⟩ :=
        freed_reclaims processed granted (kept.alike incoming member) packet
      have ring : (trace.step inp).1.ring =
          (trace.1.ringProcessed inp).feedbackProgress params.ring feedback := by
        simp only [PktPathTrace.step, PktPath.step, comes]
      refine ⟨history', ?_, ring ▸ freed⟩
      simp only [PktPathHistory.unanswered, answered]
      rw [live']
      -- what the ring still holds is what it held, less the packet that is answered
      refine List.Perm.cons_inv (a := incoming.granted) ?_
      have rest := (List.perm_cons_erase member).map IncomingHer.granted
      exact (List.perm_cons_erase granted).symm.trans
        (holds.trans ((rest.append_left _).trans List.perm_middle))
  · rw [next] at member
    rcases List.mem_append.mp member with placed | stays
    · exact placed_alike alike incoming placed
    · exact kept.alike incoming (mem_of_unanswered stays)

/-- A feedback has the address of its packet, and the size of its transfer. -/
theorem sameRegion_iff {incoming : IncomingHer} {feedback : FeedbackDescr}
    (packet : pktOf incoming.her = feedback.pkt) :
    incoming.SameRegion feedback ↔ incoming.SameSegments := by
  have addr : feedback.pktAddr = incoming.her.herAddr := (congrArg MpqPkt.pktAddr packet).symm
  have size : feedback.pktSize = incoming.her.xferSize := (congrArg MpqPkt.pktSize packet).symm
  rw [IncomingHer.SameRegion, IncomingHer.SameSegments, addr, size]
  exact and_iff_right rfl

/-- The packets freed took as many segments as their transfers. -/
def FreedAlike (trace : PktPathTrace params) : Prop :=
  ∀ entry ∈ trace.2.freed, ∀ incoming ∈ entry.1, incoming.SameSegments

theorem freedAlike_step (freed : trace.FreedAlike) (kept : trace.Kept) :
    (trace.step inp).FreedAlike := by
  intro entry member incoming answered
  rcases List.mem_append.mp member with before | now
  · exact freed entry before incoming answered
  · obtain ⟨feedback, -, rfl⟩ := List.mem_map.mp now
    exact kept.alike incoming (answered_some answered).1

theorem accounts (located : trace.Located) (kept : trace.Kept) (freed : trace.FreedAlike) :
    trace.Accounts := by
  obtain ⟨history, same, reclaims⟩ := kept.ring
  refine ⟨fun entry member => ?_, ?_, fun none => ?_⟩
  · obtain ⟨incoming, answered, packet⟩ := located.answered entry member
    exact ⟨incoming, answered,
      (sameRegion_iff packet).mpr (freed entry member incoming answered)⟩
  · have regions := same.map (Pkt.region params.ring)
    rw [List.map_map] at regions
    exact (regions.pairwise_iff Region.Apart.symm).mp reclaims.toInv.safe.apart
  · rw [none] at same
    exact reclaims.empty same.eq_nil

end PktPathTrace

open PktPathTrace in
/-- Each feedback frees its packet at the address that was granted, and as much as was granted if
    and only if the transfer takes as many segments as the packet.  While that is so of all packets,
    and none is placed where the ring loses it, the ring is empty once all are freed. -/
theorem pktPath_accounts_iff (params : PktPathParams) (cells : Nat → MpqPkt)
    (metas : params.mpq.Idx → MpqMeta) (inputs : List PktPathIn)
    (permitted : (pktPathTrace params cells metas).Admits Permits inputs) :
    let trace := (pktPathTrace params cells metas).run inputs
    (∀ entry ∈ trace.2.freed, ∃ incoming, entry.1 = some incoming ∧
      entry.2.pktAddr = incoming.her.herAddr ∧
      (incoming.SameRegion entry.2 ↔ incoming.SameSegments)) ∧
    ((pktPathTrace params cells metas).Admits Alike inputs →
      (pktPathTrace params cells metas).Admits Fits inputs → trace.Accounts) := by
  intro trace
  have located : trace.Located :=
    permitted.invariant Located (located_reset cells metas)
      fun _ _ located permits => located.step permits
  refine ⟨fun entry member => ?_, fun alike fits => ?_⟩
  · obtain ⟨incoming, answered, packet⟩ := located.answered entry member
    exact ⟨incoming, answered, (congrArg MpqPkt.pktAddr packet).symm, sameRegion_iff packet⟩
  · have all : trace.Located ∧ trace.Kept ∧ trace.FreedAlike := by
      refine ((permitted.and alike).and fits).invariant
        (fun trace => Located trace ∧ Kept trace ∧ FreedAlike trace)
        ⟨located_reset cells metas, kept_reset cells metas, fun _ member => by cases member⟩ ?_
      rintro trace inp ⟨located, kept, freed⟩ ⟨⟨permits, alike⟩, fits⟩
      exact ⟨located.step permits, kept.step located permits alike fits,
        freedAlike_step freed kept⟩
    exact accounts all.1 all.2.1 all.2.2

/-- One packet at the start of the buffer, from its arrival to its feedback. -/
def onePacket (xferSize : MemSize) (pktLen : BitVec 32) : List PktPathIn :=
  let quiet : PktPathIn := ⟨none, ⟨false, default, false, default, true, true⟩⟩
  let her : HerDescr := ⟨0, true, 0, xferSize, { (default : MpqMeta) with phAddr := 0x40 }⟩
  let accepted := { quiet.engineIn with herValidI := true, herI := { her with herAddr := 0x1c400000 } }
  let answered := { quiet.engineIn with
    feedbackValidI := true, feedbackI := ⟨0x1c400000, xferSize, 0, true⟩ }
  [{ quiet with incoming := some ⟨her, pktLen⟩ }, { quiet with engineIn := accepted }, quiet, quiet,
    { quiet with engineIn := answered }]

/-- Of a packet of 128 bytes 100 are copied to L1: it is freed as a whole. -/
theorem pktPath_accounts_iff_whole :
    let params : PktPathParams := ⟨⟨0x1c400000, 256, by decide, by decide⟩,
      ⟨2, 2, by decide, by decide, by decide⟩⟩
    let trace := (pktPathTrace params (fun _ => default) fun _ => default).run (onePacket 100 128)
    (trace.2.freed.length = 1 ∧ trace.2.live = [] ∧ trace.1.ring.headPtr = 128) ∧
      trace.Accounts := by
  intro params trace
  have accounts := pktPath_accounts_iff params (fun _ => default) (fun _ => default)
    (onePacket 100 128) (by decide +kernel)
  exact ⟨by decide +kernel, accounts.2 (by decide +kernel) (by decide +kernel)⟩

/-- Of a packet of 128 bytes 64 are copied to L1: only these are freed, and the others are lost. -/
theorem pktPath_frees_less :
    let params : PktPathParams := ⟨⟨0x1c400000, 256, by decide, by decide⟩,
      ⟨2, 2, by decide, by decide, by decide⟩⟩
    let machine := pktPathTrace params (fun _ => default) fun _ => default
    let trace := machine.run (onePacket 64 128)
    machine.Admits PktPathTrace.Permits (onePacket 64 128) ∧
      machine.Admits PktPathTrace.Fits (onePacket 64 128) ∧ trace.2.live = [] ∧
      trace.1.ring.headPtr = 64 ∧ trace.1.ring.tailPtr = 128 ∧ ¬trace.Accounts := by
  intro params machine trace
  have freed : trace.2.live = [] := by decide +kernel
  have head : trace.1.ring.headPtr = 64 := by decide +kernel
  have tail : trace.1.ring.tailPtr = 128 := by decide +kernel
  refine ⟨by decide +kernel, by decide +kernel, freed, head, tail, fun accounts => ?_⟩
  have empty := (accounts.empties freed).2.2
  rw [head, tail] at empty
  exact absurd empty (by decide)

end Pspin
