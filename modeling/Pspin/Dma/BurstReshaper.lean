import Pspin.Clocked.Bits
import Mathlib.Data.Nat.ModEq
import Mathlib.Tactic.Ring

/-! # `axi_dma_burst_reshaper`

The first stage of a DMA backend.  It holds one transfer at a time and cuts it into bursts that the
bus allows: none crosses a page, and with `deburst` none is longer than a beat.  A transfer whose reads
and writes are decoupled is cut for each channel on its own, any other one is cut at the pages of both.

The two channels do the same, so a channel is one structure with one function for what it sends.
-/

namespace Pspin

open Clocked

/-- The parameters of `axi_dma_backend`.  The width of the data is given by `OffsetWidth`, and the
    bounds are the assertions of the source. -/
structure AxiDmaParams where
  offsetWidth : Nat
  addrWidth : Nat
  axReqFifoDepth : Nat
  transFifoDepth : Nat
  bufferDepth : Nat
  offsetWidth_pos : 0 < offsetWidth
  offsetWidth_le : offsetWidth ≤ 7
  addrWidth_ge : 32 ≤ addrWidth
  axReqFifoDepth_pos : 0 < axReqFifoDepth
  transFifoDepth_pos : 0 < transFifoDepth
  bufferDepth_pos : 0 < bufferDepth

namespace AxiDmaParams

variable (params : AxiDmaParams)

def strbWidth : Nat := 2 ^ params.offsetWidth

def pageSize : Nat := if 256 * params.strbWidth > 4096 then 4096 else 256 * params.strbWidth

def lastQueueDepth : Nat := params.axReqFifoDepth + params.bufferDepth + 1

theorem lastQueueDepth_pos : 0 < params.lastQueueDepth := Nat.succ_pos _

theorem strbWidth_pos : 0 < params.strbWidth := Nat.two_pow_pos _

theorem strbWidth_le : params.strbWidth ≤ 128 :=
  Nat.pow_le_pow_right Nat.two_pos params.offsetWidth_le

/-- A page has a power of two bytes, as its parameter `PageAddrWidth` says. -/
theorem pageSize_eq : params.pageSize = 2 ^ min 12 (8 + params.offsetWidth) := by
  have split : 256 * params.strbWidth = 2 ^ (8 + params.offsetWidth) := by
    rw [strbWidth, pow_add]
    rfl
  rw [pageSize, split]
  split
  next more =>
    have large : 12 < 8 + params.offsetWidth := by
      by_contra small
      exact absurd (Nat.pow_le_pow_right Nat.two_pos (Nat.not_lt.mp small)) (Nat.not_le.mpr more)
    rw [Nat.min_eq_left (Nat.le_of_lt large)]
    rfl
  next less =>
    have small : 8 + params.offsetWidth ≤ 12 := by
      by_contra large
      have more := Nat.pow_lt_pow_right Nat.one_lt_two (Nat.not_le.mp large)
      exact less more
    rw [Nat.min_eq_right small]

theorem pageSize_pos : 0 < params.pageSize := by
  rw [pageSize_eq]
  exact Nat.two_pow_pos _

theorem pageSize_le : params.pageSize ≤ 4096 := by
  unfold pageSize
  split <;> omega

theorem pageSize_dvd_4096 : params.pageSize ∣ 4096 := by
  rw [pageSize_eq]
  exact Nat.pow_dvd_pow 2 (Nat.min_le_left 12 _)

theorem pageSize_le_beats : params.pageSize ≤ 256 * params.strbWidth := by
  unfold pageSize
  split <;> omega

theorem strbWidth_dvd_pageSize : params.strbWidth ∣ params.pageSize := by
  rw [pageSize_eq]
  have small := params.offsetWidth_le
  exact Nat.pow_dvd_pow 2 (by omega)

theorem pageSize_dvd : params.pageSize ∣ 2 ^ params.addrWidth := by
  rw [pageSize_eq]
  have large := params.addrWidth_ge
  exact Nat.pow_dvd_pow 2 (by omega)

end AxiDmaParams

/-- `axi_pkg::BURST_INCR` -/
def burstIncr : BitVec 2 := 0b01

/-- `burst_req_t` -/
structure BurstReq where
  id : Nat
  src : Nat
  dst : Nat
  numBytes : Nat
  cacheSrc : BitVec 4
  cacheDst : BitVec 4
  burstSrc : BitVec 2
  burstDst : BitVec 2
  decoupleRw : Bool
  deburst : Bool
  serialize : Bool
deriving DecidableEq, Inhabited, Repr

/-- `burst_chan_t` -/
structure BurstChan where
  id : Nat
  addr : Nat
  numBytes : Nat
  cache : BitVec 4
  burst : BitVec 2
  valid : Bool
deriving DecidableEq, Repr

/-- `desc_ax_t` -/
structure DescAx where
  id : Nat
  last : Bool
  addr : Nat
  len : Nat
  size : Nat
  burst : BitVec 2
  cache : BitVec 4
deriving DecidableEq, Inhabited, Repr

/-- `desc_r_t` -/
structure DescR where
  offset : Nat
  tailer : Nat
  shift : Nat
deriving DecidableEq, Inhabited, Repr

/-- `desc_w_t` -/
structure DescW where
  offset : Nat
  tailer : Nat
  numBeats : Nat
  isSingle : Bool
deriving DecidableEq, Inhabited, Repr

/-- `read_req_t` -/
structure ReadReq where
  ar : DescAx
  r : DescR
deriving DecidableEq, Inhabited, Repr

/-- `write_req_t` -/
structure WriteReq where
  aw : DescAx
  w : DescW
deriving DecidableEq, Inhabited, Repr

/-! ## A channel -/

namespace BurstChan

/-- All fields 0, at reset and when a transfer is finished. -/
def zero : BurstChan where
  id := 0
  addr := 0
  numBytes := 0
  cache := 0
  burst := 0
  valid := false

variable (params : AxiDmaParams) (chan : BurstChan) (deburst : Bool) (possible : Nat)

/-- `r_page_offset`, `w_page_offset` -/
def pageOffset : Nat :=
  if deburst then chan.addr % params.strbWidth else chan.addr % params.pageSize

/-- `r_num_bytes_to_pb`, `w_num_bytes_to_pb` -/
def numBytesToPb : Nat :=
  if deburst then (params.strbWidth - chan.pageOffset params deburst) % (2 * params.strbWidth)
  else params.pageSize - chan.pageOffset params deburst

/-- `r_finish`, `w_finish`: the bytes that remain fit in one burst. -/
def finish : Bool := !decide (possible < chan.numBytes)

/-- `r_num_bytes`, `w_num_bytes` -/
def burstBytes : Nat :=
  if possible < chan.numBytes then possible else chan.numBytes % (2 * params.pageSize)

/-- The channel behind the burst, in `burst_d`. -/
def next : BurstChan :=
  if possible < chan.numBytes then
    { chan with
      numBytes := chan.numBytes - possible
      addr := if chan.burst = burstIncr then truncate params.addrWidth (chan.addr + possible)
        else chan.addr }
  else zero

/-- `r_addr_offset`, `w_addr_offset` -/
def addrOffset : Nat := chan.addr % params.strbWidth

/-- `read_req_o.ar`, `write_req_o.aw` -/
def ax : DescAx where
  id := chan.id
  last := chan.finish possible
  addr := chan.addr / params.strbWidth * params.strbWidth
  len := truncate 8 (truncate 32 (chan.burstBytes params possible + chan.addrOffset params +
    (2 ^ 32 - 1)) / params.strbWidth)
  size := truncate 3 params.offsetWidth
  burst := chan.burst
  cache := chan.cache

/-- `read_req_o.r.tailer`, `write_req_o.w.tailer` -/
def tailer : Nat := (chan.burstBytes params possible + chan.addrOffset params) % params.strbWidth

end BurstChan

/-! ## The unit -/

/-- `burst_decoupled_t`, the state of the unit. -/
structure BurstDecoupled where
  src : BurstChan
  dst : BurstChan
  shift : Nat
  decoupleRw : Bool
  deburst : Bool
deriving DecidableEq, Repr

namespace BurstDecoupled

def reset : BurstDecoupled where
  src := BurstChan.zero
  dst := BurstChan.zero
  shift := 0
  decoupleRw := false
  deburst := false

variable (params : AxiDmaParams) (burst : BurstDecoupled)

def rNumBytesToPb : Nat := burst.src.numBytesToPb params burst.deburst

def wNumBytesToPb : Nat := burst.dst.numBytesToPb params burst.deburst

/-- The closer of the two boundaries. -/
def cNumBytesToPb : Nat :=
  if burst.rNumBytesToPb params > burst.wNumBytesToPb params then burst.wNumBytesToPb params
  else burst.rNumBytesToPb params

def rNumBytesPossible : Nat :=
  if burst.decoupleRw then burst.rNumBytesToPb params else burst.cNumBytesToPb params

def wNumBytesPossible : Nat :=
  if burst.decoupleRw then burst.wNumBytesToPb params else burst.cNumBytesToPb params

def rFinish : Bool := burst.src.finish (burst.rNumBytesPossible params)

def wFinish : Bool := burst.dst.finish (burst.wNumBytesPossible params)

def readReqO : ReadReq where
  ar := burst.src.ax params (burst.rNumBytesPossible params)
  r :=
    { offset := burst.src.addrOffset params
      tailer := burst.src.tailer params (burst.rNumBytesPossible params)
      shift := burst.shift }

def writeReqO : WriteReq :=
  let aw := burst.dst.ax params (burst.wNumBytesPossible params)
  { aw := aw
    w :=
      { offset := burst.dst.addrOffset params
        tailer := burst.dst.tailer params (burst.wNumBytesPossible params)
        numBeats := aw.len
        isSingle := aw.len == 0 } }

/-- The handshakes of the unit, and the request it may take. -/
structure In where
  burstReqI : BurstReq
  validI : Bool
  rReadyI : Bool
  wReadyI : Bool
deriving DecidableEq, Inhabited, Repr

variable (inp : In)

def rValidO : Bool := if burst.decoupleRw then burst.src.valid else burst.src.valid && inp.wReadyI

def wValidO : Bool := if burst.decoupleRw then burst.dst.valid else burst.dst.valid && inp.rReadyI

def readyO : Bool :=
  burst.rFinish params && burst.wFinish params && inp.validI && inp.rReadyI && inp.wReadyI

/-- The transfer of a request; one without bytes is not possible. -/
def refill (req : BurstReq) (validI : Bool) : BurstDecoupled where
  src :=
    { id := req.id
      addr := req.src
      numBytes := req.numBytes
      cache := req.cacheSrc
      burst := req.burstSrc
      valid := decide (req.numBytes ≠ 0) && validI }
  dst :=
    { id := req.id
      addr := req.dst
      numBytes := req.numBytes
      cache := req.cacheDst
      burst := req.burstDst
      valid := decide (req.numBytes ≠ 0) && validI }
  shift := (req.src % params.strbWidth + params.strbWidth - req.dst % params.strbWidth) %
    params.strbWidth
  decoupleRw := req.decoupleRw
  deburst := req.deburst

/-- `burst_d` -/
def burstD : BurstDecoupled :=
  if burst.readyO params inp then refill params inp.burstReqI inp.validI
  else
    { burst with
      src := burst.src.next params (burst.rNumBytesPossible params)
      dst := burst.dst.next params (burst.wNumBytesPossible params) }

/-- One clock edge: each channel moves on by itself, or both of them if they are coupled. -/
def step : BurstDecoupled :=
  let burstD := burst.burstD params inp
  { burstD with
    src := if (if burstD.decoupleRw then inp.rReadyI else inp.rReadyI && inp.wReadyI) then burstD.src
      else burst.src
    dst := if (if burstD.decoupleRw then inp.wReadyI else inp.wReadyI && inp.rReadyI) then burstD.dst
      else burst.dst }

end BurstDecoupled

end Pspin
