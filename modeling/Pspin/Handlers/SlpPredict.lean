import Pspin.Handlers.SlpL1
import Pspin.Runtime.SpinCmd

/-! # Predictions of `slp_l1`

The handler writes the predictions over the samples that they are made from, and turns the packet
into its own reply.  A sample is at least as long as its prediction, so that no sample is
written before it is read.  The size of the results is handed on as a byte.
-/

namespace Pspin

open Clocked

/-! ## Headers

The UDP header is where `ihl` says.
-/

/-- Offset of `udp_hdr` in the packet. -/
def udpHdr (pkt : ByteMem) : Nat := (PktHdr.ihl pkt).toNat * 4

def udpSrcPort (pkt : ByteMem) : BitVec 16 := pkt.load16 (udpHdr pkt)

def udpDstPort (pkt : ByteMem) : BitVec 16 := pkt.load16 (udpHdr pkt + 2)

def udpLength (pkt : ByteMem) : BitVec 16 := pkt.load16 (udpHdr pkt + 4)

/-! ## The handler -/

/-- A reply: the packet and the command that sends it. -/
structure SlpReply where
  mem : ByteMem
  put : SpinCmdCall

/-- `send_return`, for a packet at an address. -/
def sendReturn (addr : Word) (pktMem : ByteMem) (payloadSize : BitVec 8) : SlpReply :=
  let udp := udpHdr pktMem
  let mem := pktMem.store16 2 (BitVec.ofNat 16 (udp + sizeofUdpHdr + payloadSize.toNat))
  let mem := mem.store16 (udp + 4) (BitVec.ofNat 16 (sizeofUdpHdr + payloadSize.toNat))
  let srcId := mem.load32 12
  let mem := mem.store32 12 (mem.load32 16)
  let mem := mem.store32 16 srcId
  let srcPort := mem.load16 udp
  let mem := mem.store16 udp (mem.load16 (udp + 2))
  let mem := mem.store16 (udp + 2) srcPort
  ⟨mem, .sendPacket addr ((PktHdr.length mem).setWidth 32)⟩

section Handler

variable (vectorLen : Nat)

/-- `predict` without a lock. -/
def predict (input weight : Nat → Word) : Word :=
  let dot := (List.range vectorLen).foldl (fun dot i => dot + input i * weight i) 0
  Sample.activationFn (dot + weight vectorLen)

/-- One turn of the loop over the samples. -/
def predictTurn (weight : Nat → Word) (inputPtr : Nat) (pkt : ByteMem) (i : Nat) : ByteMem :=
  pkt.store32 (inputPtr + 4 * i)
    (predict vectorLen (slpInput pkt inputPtr (slpPredictIndex vectorLen i)) weight)

/-- `slp_l1_ph` on a packet at an address that asks for predictions. -/
def slpL1PhPredict (scratchpad : ByteMem) (addr : Word) (pkt : ByteMem) : Option SlpReply :=
  if slpType pkt = tyPredict then
    let weight (k : Nat) := scratchpad.load32 (4 * k)
    let mem := (List.range (slpCount pkt).toNat).foldl
      (predictTurn vectorLen weight (slpInputPtr pkt)) pkt
    let pldSize : Word := BitVec.ofNat 32 sizeofSlpFrameHdr + 4 * slpCount mem
    some (sendReturn addr mem (pldSize.setWidth 8))
  else none

/-! ## What is replied -/

/-- A packet that carries the samples it asks predictions for, behind headers that do not
    overlap. -/
structure PredictPkt where
  mem : ByteMem
  predicts : slpType mem = tyPredict
  headers : sizeofIpHdr ≤ udpHdr mem
  carries : slpInputPtr mem + 4 * (vectorLen * (slpCount mem).toNat) ≤ (PktHdr.length mem).toNat

namespace PredictPkt

variable {vectorLen} (pkt : PredictPkt vectorLen)

def count : Nat := (slpCount pkt.mem).toNat

/-- A sample as it was received. -/
def sample (i : Nat) : Nat → Word := slpInput pkt.mem (slpInputPtr pkt.mem) (i * vectorLen)

/-- The size of a packet with a word for each sample. -/
def replySize : Nat := slpInputPtr pkt.mem + 4 * pkt.count

/-- The reply to a packet: its headers with source and destination swapped, and behind them the
    predictions and nothing else. -/
structure Answers (weight : Nat → Word) (addr : Word) (reply : SlpReply) : Prop where
  ihl : PktHdr.ihl reply.mem = PktHdr.ihl pkt.mem
  frame : slpType reply.mem = tyPredict ∧ slpCount reply.mem = slpCount pkt.mem
  results : ∀ i < pkt.count, reply.mem.load32 (slpInputPtr pkt.mem + 4 * i) =
    predict vectorLen (pkt.sample i) weight
  ipLength : (PktHdr.length reply.mem).toNat = pkt.replySize
  udpLength : udpHdr pkt.mem + (Pspin.udpLength reply.mem).toNat = pkt.replySize
  sent : reply.put = .sendPacket addr (BitVec.ofNat 32 pkt.replySize)
  ids : PktHdr.sourceId reply.mem = PktHdr.destId pkt.mem ∧
    PktHdr.destId reply.mem = PktHdr.sourceId pkt.mem
  ports : udpSrcPort reply.mem = udpDstPort pkt.mem ∧ udpDstPort reply.mem = udpSrcPort pkt.mem

end PredictPkt

/-! ## Predictions over samples -/

variable {vectorLen}

theorem predict_congr {input input' weight : Nat → Word}
    (same : ∀ k < vectorLen, input k = input' k) :
    predict vectorLen input weight = predict vectorLen input' weight := by
  rw [predict, predict]
  congr 2
  refine List.foldl_ext _ _ _ fun dot k member => ?_
  rw [same k (List.mem_range.mp member)]

/-- What a handler that trains finds by its steps. -/
theorem predict_eq_dotOf (sample : Sample vectorLen) (weight : Nat → Word) :
    predict vectorLen (fun k => if inside : k < vectorLen then sample.input ⟨k, inside⟩ else 0) weight =
      Sample.activationFn (sample.dotOf fun k => weight k) := by
  have sum (f : Nat → Word) (turns : Nat) :
      (List.range turns).foldl (fun dot i => dot + f i) 0 = ∑ i ∈ Finset.range turns, f i := by
    induction turns with
    | zero => rfl
    | succ turns inductionHypothesis =>
      rw [List.range_succ, List.foldl_append, inductionHypothesis, Finset.sum_range_succ]
      rfl
  rw [predict, sum, Finset.sum_range, Sample.dotOf, Fin.sum_univ_castSucc]
  congr 2
  · refine Finset.sum_congr rfl fun k _ => ?_
    simp [Sample.factor]
  · simp [Sample.factor]

namespace PredictPkt

/-- After some turns of the loop: the first words are predictions, and those from there on are
    the samples that were received. -/
structure Predicted (pkt : PredictPkt vectorLen) (weight : Nat → Word) (turns : Nat)
    (mem : ByteMem) : Prop where
  before : ∀ offset < slpInputPtr pkt.mem, mem offset = pkt.mem offset
  results : ∀ i < turns, mem.load32 (slpInputPtr pkt.mem + 4 * i) =
    predict vectorLen (pkt.sample i) weight
  samples : ∀ offset, slpInputPtr pkt.mem + 4 * turns ≤ offset → mem offset = pkt.mem offset

variable {pkt : PredictPkt vectorLen} {weight : Nat → Word} {turns : Nat} {mem : ByteMem}

/-- A sample that is still to be read starts at or behind its prediction. -/
theorem Predicted.turn (predicted : pkt.Predicted weight turns mem) (positive : 0 < vectorLen)
    (more : turns < pkt.count) :
    pkt.Predicted weight (turns + 1)
      (predictTurn vectorLen weight (slpInputPtr pkt.mem) mem turns) := by
  have carries := pkt.carries
  have small := (PktHdr.length pkt.mem).isLt
  have ahead : turns ≤ turns * vectorLen := Nat.le_mul_of_pos_right _ positive
  have inside : turns * vectorLen ≤ vectorLen * pkt.count := by
    rw [Nat.mul_comm]
    exact Nat.mul_le_mul_left _ more.le
  have index : slpPredictIndex vectorLen turns = turns * vectorLen := by
    refine Nat.mod_eq_of_lt ?_
    rw [count] at inside
    omega
  -- the results so far stop before the samples that are still to be read
  have read : predict vectorLen (slpInput mem (slpInputPtr pkt.mem) (turns * vectorLen)) weight =
      predict vectorLen (pkt.sample turns) weight :=
    predict_congr fun k _ => ByteMem.load32_congr fun i _ =>
      predicted.samples _ (by rw [slpInputWord]; omega)
  rw [predictTurn, index, read]
  refine ⟨fun offset less => ?_, fun i less => ?_, fun offset beyond => ?_⟩
  · rw [ByteMem.store32, ByteMem.storeBytes_outside (by omega)]
    exact predicted.before offset less
  · rcases Nat.lt_succ_iff_lt_or_eq.mp less with earlier | rfl
    · rw [ByteMem.load32_store32_apart (by omega)]
      exact predicted.results i earlier
    · rw [ByteMem.load32_store32]
  · rw [ByteMem.store32, ByteMem.storeBytes_outside (by omega)]
    exact predicted.samples offset (by omega)

/-- The loop makes the predictions of the samples that were received. -/
theorem predicted_loop (positive : 0 < vectorLen) (pkt : PredictPkt vectorLen)
    (weight : Nat → Word) : pkt.Predicted weight pkt.count
      ((List.range pkt.count).foldl (predictTurn vectorLen weight (slpInputPtr pkt.mem)) pkt.mem) := by
  suffices upTo : ∀ turns ≤ pkt.count, pkt.Predicted weight turns
      ((List.range turns).foldl (predictTurn vectorLen weight (slpInputPtr pkt.mem)) pkt.mem) from
    upTo _ le_rfl
  intro turns within
  induction turns with
  | zero => exact ⟨fun _ _ => rfl, fun _ none_ => absurd none_ (Nat.not_lt_zero _), fun _ _ => rfl⟩
  | succ turns inductionHypothesis =>
    rw [List.range_succ, List.foldl_append]
    exact (inductionHypothesis (Nat.le_of_succ_le within)).turn positive within

end PredictPkt

end Handler

/-! ## The packet that is sent back -/

section SendReturn

open ByteMem

variable (addr : Word) (payloadSize : BitVec 8) {mem : ByteMem} (headers : sizeofIpHdr ≤ udpHdr mem)

include headers

/-- What is neither a length nor an address stays as it is. -/
theorem sendReturn_apart {offset : Nat}
    (apart : offset < 2 ∨ 4 ≤ offset ∧ offset < 12 ∨ udpHdr mem + 6 ≤ offset) :
    (sendReturn addr mem payloadSize).mem offset = mem offset := by
  have after : 20 ≤ udpHdr mem := headers
  simp only [sendReturn, store16, store32]
  rw [storeBytes_outside (by omega), storeBytes_outside (by omega), storeBytes_outside (by omega),
    storeBytes_outside (by omega), storeBytes_outside (by omega), storeBytes_outside (by omega)]

theorem udpHdr_sendReturn : udpHdr (sendReturn addr mem payloadSize).mem = udpHdr mem := by
  rw [udpHdr, PktHdr.ihl, sendReturn_apart addr payloadSize headers (.inl Nat.two_pos)]
  rfl

theorem length_sendReturn : PktHdr.length (sendReturn addr mem payloadSize).mem =
    BitVec.ofNat 16 (udpHdr mem + sizeofUdpHdr + payloadSize.toNat) := by
  have after : 20 ≤ udpHdr mem := headers
  simp (disch := omega) [sendReturn, PktHdr.length, load16_store16_apart, load16_store32_apart]

theorem udpLength_sendReturn : udpLength (sendReturn addr mem payloadSize).mem =
    BitVec.ofNat 16 (sizeofUdpHdr + payloadSize.toNat) := by
  have after : 20 ≤ udpHdr mem := headers
  rw [udpLength, udpHdr_sendReturn addr payloadSize headers]
  simp (disch := omega) [sendReturn, load16_store16_apart, load16_store32_apart]

theorem ids_sendReturn :
    PktHdr.sourceId (sendReturn addr mem payloadSize).mem = PktHdr.destId mem ∧
      PktHdr.destId (sendReturn addr mem payloadSize).mem = PktHdr.sourceId mem := by
  have after : 20 ≤ udpHdr mem := headers
  simp (disch := omega) [sendReturn, PktHdr.sourceId, PktHdr.destId, load32_store16_apart,
    load32_store32_apart]

theorem ports_sendReturn :
    udpSrcPort (sendReturn addr mem payloadSize).mem = udpDstPort mem ∧
      udpDstPort (sendReturn addr mem payloadSize).mem = udpSrcPort mem := by
  have after : 20 ≤ udpHdr mem := headers
  constructor
  · rw [udpSrcPort, udpHdr_sendReturn addr payloadSize headers]
    simp (disch := omega) [sendReturn, udpDstPort, load16_store16_apart, load16_store32_apart]
  · rw [udpDstPort, udpHdr_sendReturn addr payloadSize headers]
    simp (disch := omega) [sendReturn, udpSrcPort, load16_store16_apart, load16_store32_apart]

end SendReturn

/-! ## Replies -/

namespace PredictPkt

variable {vectorLen : Nat} {pkt : PredictPkt vectorLen} {weight : Nat → Word} {turns : Nat}
  {mem : ByteMem}

theorem replySize_eq (pkt : PredictPkt vectorLen) : pkt.replySize =
    udpHdr pkt.mem + sizeofUdpHdr + (sizeofSlpFrameHdr + 4 * pkt.count) :=
  Nat.add_assoc _ _ _

theorem replySize_lt (pkt : PredictPkt vectorLen) (positive : 0 < vectorLen) :
    pkt.replySize < 2 ^ 16 := by
  have carries := pkt.carries
  have small := (PktHdr.length pkt.mem).isLt
  have fewer : pkt.count ≤ vectorLen * pkt.count := Nat.le_mul_of_pos_left _ positive
  rw [replySize]
  rw [count] at *
  omega

/-! ### The headers behind the loop -/

namespace Predicted

variable (predicted : pkt.Predicted weight turns mem)

include predicted

theorem load16_eq {offset : Nat} (inside : offset + 2 ≤ slpInputPtr pkt.mem) :
    mem.load16 offset = pkt.mem.load16 offset :=
  ByteMem.load16_congr fun _ less => predicted.before _ (by omega)

theorem load32_eq {offset : Nat} (inside : offset + 4 ≤ slpInputPtr pkt.mem) :
    mem.load32 offset = pkt.mem.load32 offset :=
  ByteMem.load32_congr fun _ less => predicted.before _ (by omega)

theorem ihl_eq : PktHdr.ihl mem = PktHdr.ihl pkt.mem := by
  rw [PktHdr.ihl, PktHdr.ihl, predicted.before 0 (Nat.succ_pos _)]

theorem udpHdr_eq : udpHdr mem = udpHdr pkt.mem := by
  rw [udpHdr, udpHdr, predicted.ihl_eq]

theorem pldOffset_eq : PktHdr.pldOffset mem = PktHdr.pldOffset pkt.mem := by
  rw [PktHdr.pldOffset, PktHdr.pldOffset, predicted.ihl_eq]

theorem slpCount_eq : slpCount mem = slpCount pkt.mem := by
  rw [slpCount, slpCount, predicted.pldOffset_eq]
  exact predicted.load32_eq (Nat.le_refl _)

end Predicted

/-- The handler sends the packet that the loop leaves, with the size of its payload as a byte. -/
theorem slpL1PhPredict_eq (pkt : PredictPkt vectorLen) (positive : 0 < vectorLen)
    (scratchpad : ByteMem) (addr : Word) :
    ∃ mem, pkt.Predicted (fun k => scratchpad.load32 (4 * k)) pkt.count mem ∧
      slpL1PhPredict vectorLen scratchpad addr pkt.mem =
        some (sendReturn addr mem (BitVec.ofNat 8 (sizeofSlpFrameHdr + 4 * pkt.count))) := by
  have predicted := pkt.predicted_loop positive fun k => scratchpad.load32 (4 * k)
  refine ⟨_, predicted, ?_⟩
  -- the sum is made in 32 bits and stored in 8
  have size : (BitVec.ofNat 32 sizeofSlpFrameHdr + 4 * slpCount pkt.mem).setWidth 8 =
      BitVec.ofNat 8 (sizeofSlpFrameHdr + 4 * pkt.count) := by
    apply BitVec.eq_of_toNat_eq
    simp [count, Nat.mod_mod_of_dvd, Nat.add_mod, Nat.mul_mod]
  have counted : (slpCount pkt.mem).toNat = pkt.count := rfl
  simp only [slpL1PhPredict, if_pos pkt.predicts]
  rw [counted, predicted.slpCount_eq, size]

/-- With the size of the frame that the loop leaves, the packet is the reply. -/
theorem Predicted.answers (predicted : pkt.Predicted weight pkt.count mem) (addr : Word)
    (headers : sizeofIpHdr ≤ udpHdr mem) {payloadSize : BitVec 8}
    (size : payloadSize.toNat = sizeofSlpFrameHdr + 4 * pkt.count)
    (small : pkt.replySize < 2 ^ 16) :
    pkt.Answers weight addr (sendReturn addr mem payloadSize) := by
  have after : 20 ≤ udpHdr mem := headers
  have total : pkt.replySize =
      udpHdr mem + sizeofUdpHdr + (sizeofSlpFrameHdr + 4 * pkt.count) := by
    rw [predicted.udpHdr_eq, replySize_eq]
  have pldOffset : PktHdr.pldOffset mem = udpHdr mem + 8 := rfl
  have inputPtr : slpInputPtr pkt.mem = udpHdr mem + 16 := by
    rw [predicted.udpHdr_eq]
    rfl
  have ihl : PktHdr.ihl (sendReturn addr mem payloadSize).mem = PktHdr.ihl mem := by
    rw [PktHdr.ihl, sendReturn_apart addr payloadSize headers (.inl Nat.two_pos)]
    rfl
  have payload : PktHdr.pldOffset (sendReturn addr mem payloadSize).mem = PktHdr.pldOffset mem := by
    rw [PktHdr.pldOffset, ihl]
    rfl
  -- the send rewrites the headers before the payload and nothing behind them
  have load32 : ∀ offset, udpHdr mem + 6 ≤ offset →
      (sendReturn addr mem payloadSize).mem.load32 offset = mem.load32 offset :=
    fun offset behind => ByteMem.load32_congr fun i _ =>
      sendReturn_apart addr payloadSize headers (.inr (.inr (by omega)))
  have ipLength := length_sendReturn addr payloadSize headers
  rw [size, ← total] at ipLength
  obtain ⟨source, dest⟩ := ids_sendReturn addr payloadSize headers
  obtain ⟨srcPort, dstPort⟩ := ports_sendReturn addr payloadSize headers
  refine ⟨ihl.trans predicted.ihl_eq, ⟨?_, ?_⟩, fun i less => ?_, ?_, ?_, ?_,
    ⟨source.trans ?_, dest.trans ?_⟩, srcPort.trans ?_, dstPort.trans ?_⟩
  -- the frame header is the one of the request
  · rw [slpType, payload, sendReturn_apart addr payloadSize headers (.inr (.inr (by omega))),
      predicted.pldOffset_eq, predicted.before _ (by rw [inputPtr, ← predicted.pldOffset_eq]; omega)]
    exact pkt.predicts
  · rw [slpCount, payload, load32 _ (by omega)]
    exact predicted.slpCount_eq
  · rw [load32 _ (by omega)]
    exact predicted.results i less
  -- the lengths
  · rw [ipLength, BitVec.toNat_ofNat, Nat.mod_eq_of_lt small]
  · rw [udpLength_sendReturn addr payloadSize headers, BitVec.toNat_ofNat, size,
      Nat.mod_eq_of_lt (by omega), ← predicted.udpHdr_eq]
    omega
  · show SpinCmdCall.sendPacket addr
      ((PktHdr.length (sendReturn addr mem payloadSize).mem).setWidth 32) = _
    rw [ipLength]
    congr 1
    apply BitVec.eq_of_toNat_eq
    simp only [BitVec.toNat_setWidth, BitVec.toNat_ofNat]
    omega
  -- the addresses and the ports, exchanged
  · exact predicted.load32_eq (by omega)
  · exact predicted.load32_eq (by omega)
  · rw [udpDstPort, predicted.udpHdr_eq]
    exact predicted.load16_eq (by rw [inputPtr, predicted.udpHdr_eq]; omega)
  · rw [udpSrcPort, predicted.udpHdr_eq]
    exact predicted.load16_eq (by rw [inputPtr, predicted.udpHdr_eq]; omega)

end PredictPkt

/-- The results that the size of a byte can count. -/
theorem slpL1Ph_answers_iff (vectorLen : Nat) (positive : 0 < vectorLen)
    (scratchpad : ByteMem) (addr : Word) (pkt : PredictPkt vectorLen) :
    (∃ reply ∈ slpL1PhPredict vectorLen scratchpad addr pkt.mem,
        pkt.Answers (fun k => scratchpad.load32 (4 * k)) addr reply) ↔
      sizeofSlpFrameHdr + 4 * pkt.count < 2 ^ 8 := by
  obtain ⟨mem, predicted, handled⟩ := pkt.slpL1PhPredict_eq positive scratchpad addr
  have headers : sizeofIpHdr ≤ udpHdr mem := predicted.udpHdr_eq ▸ pkt.headers
  have after : 20 ≤ udpHdr pkt.mem := pkt.headers
  have size := pkt.replySize_eq
  have small := pkt.replySize_lt positive
  have ipLength := length_sendReturn addr
    (BitVec.ofNat 8 (sizeofSlpFrameHdr + 4 * pkt.count)) headers
  rw [predicted.udpHdr_eq, BitVec.toNat_ofNat] at ipLength
  rw [handled]
  constructor
  · rintro ⟨reply, ⟨⟩, answers⟩
    -- the length sent counts the size of the payload as a byte
    have length := answers.ipLength
    rw [ipLength, BitVec.toNat_ofNat] at length
    have least := Nat.mod_le (udpHdr pkt.mem + sizeofUdpHdr +
      (sizeofSlpFrameHdr + 4 * pkt.count) % 2 ^ 8) (2 ^ 16)
    exact Nat.lt_of_le_of_lt (by omega) (Nat.mod_lt (sizeofSlpFrameHdr + 4 * pkt.count)
      (show 0 < 2 ^ 8 by decide))
  · intro few
    have bytes : (BitVec.ofNat 8 (sizeofSlpFrameHdr + 4 * pkt.count)).toNat =
        sizeofSlpFrameHdr + 4 * pkt.count := Nat.mod_eq_of_lt few
    exact ⟨_, rfl, predicted.answers addr headers bytes small⟩

/-! ### Packets of samples -/

/-- The header of a packet, that of a frame that asks for predictions, and its samples; the rest is
    zero. -/
def predictMem (length : BitVec 16) (count : BitVec 8) (samples : List (BitVec 8)) : ByteMem :=
  .ofList ([0x54, 0, length.extractLsb' 0 8, length.extractLsb' 8 8] ++ List.replicate 24 0 ++
    [1, 0, 0, 0, count, 0, 0, 0] ++ samples) fun _ => 0

/-- The samples `(1, 2)`, `(-1, 0)` and `(5, -5)`. -/
def threeQueries : PredictPkt 2 where
  mem := predictMem 60 3 [1, 0, 0, 0, 2, 0, 0, 0, 0xff, 0xff, 0xff, 0xff, 0, 0, 0, 0, 5, 0, 0, 0,
    0xfb, 0xff, 0xff, 0xff]
  predicts := by decide +kernel
  headers := by decide +kernel
  carries := by decide +kernel

/-- Both inputs weigh 1. -/
def sumScratchpad : ByteMem := .ofList [1, 0, 0, 0, 1, 0, 0, 0] fun _ => 0

/-- The second and the third result overwrite words of the first two samples. -/
theorem slpL1Ph_answers_iff_threeQueries :
    ((∃ reply ∈ slpL1PhPredict 2 sumScratchpad 0x10000000 threeQueries.mem,
        threeQueries.Answers (fun k => sumScratchpad.load32 (4 * k)) 0x10000000 reply) ↔
      sizeofSlpFrameHdr + 4 * threeQueries.count < 2 ^ 8) ∧
    (slpL1PhPredict 2 sumScratchpad 0x10000000 threeQueries.mem).map (fun reply =>
      (List.range 4).map fun i => reply.mem.load32 (slpInputPtr threeQueries.mem + 4 * i)) =
        some [1, 0, 1, 0] :=
  ⟨slpL1Ph_answers_iff 2 (by decide) sumScratchpad 0x10000000 threeQueries, by decide +kernel⟩

/-- A packet of 2020 bytes. -/
def manySamples : PredictPkt 8 where
  mem := predictMem 2020 62 []
  predicts := by decide +kernel
  headers := by decide +kernel
  carries := by decide +kernel

/-- The results of 62 samples and the header of their frame have 256 bytes, and none is sent. -/
theorem slpL1Ph_truncates : ¬∀ vectorLen, 0 < vectorLen → ∀ (scratchpad : ByteMem) (addr : Word)
    (pkt : PredictPkt vectorLen),
      ∃ reply ∈ slpL1PhPredict vectorLen scratchpad addr pkt.mem,
        pkt.Answers (fun k => scratchpad.load32 (4 * k)) addr reply := by
  intro answers
  obtain ⟨reply, sent, answer⟩ := answers 8 (by decide) (fun _ => 0) 0x10000000 manySamples
  have length : (slpL1PhPredict 8 (fun _ => 0) 0x10000000 manySamples.mem).map
      (fun reply => (PktHdr.length reply.mem).toNat) = some 28 := by decide +kernel
  rw [Option.mem_def.mp sent, Option.map_some, answer.ipLength] at length
  exact absurd length (by decide +kernel)

end Pspin
