import Mathlib.Logic.Function.Basic

/-! # `tc_sram`

The memory macro of `tech_cells_generic` with a latency of one cycle and the two
ports its users wire up: port 0 only reads, port 1 only writes.  The read value is
latched before a write of the same cycle lands, and without a request port 0
repeats its last address.  Reset does not touch the array.
-/

namespace Pspin

structure TcSram (Addr : Type) (α : Type) where
  sram : Addr → α
  rAddrQ : Addr
  rdataQ : α

namespace TcSram

variable {Addr α : Type} [DecidableEq Addr]

/-- After reset with some contents of the array. -/
def reset (sram : Addr → α) (zero : Addr) : TcSram Addr α where
  sram := sram
  rAddrQ := zero
  rdataQ := sram zero

/-- One clock edge: a read request on port 0, a write request on port 1. -/
def step (memory : TcSram Addr α) (readReq : Bool) (readAddr : Addr) (writeReq : Bool)
    (writeAddr : Addr) (wdata : α) : TcSram Addr α where
  sram := if writeReq then Function.update memory.sram writeAddr wdata else memory.sram
  rAddrQ := if readReq then readAddr else memory.rAddrQ
  rdataQ := if readReq then memory.sram readAddr else memory.sram memory.rAddrQ

variable (memory : TcSram Addr α) (readReq : Bool) (readAddr : Addr) (writeReq : Bool)
  (writeAddr : Addr) (wdata : α)

@[simp] theorem step_sram : (memory.step readReq readAddr writeReq writeAddr wdata).sram =
    if writeReq then Function.update memory.sram writeAddr wdata else memory.sram := rfl

@[simp] theorem step_rdataQ_of_read :
    (memory.step true readAddr writeReq writeAddr wdata).rdataQ = memory.sram readAddr := rfl

end TcSram

end Pspin
