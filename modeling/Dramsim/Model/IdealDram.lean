import Dramsim.Model.Common

/-!
# Ideal memory

`class IdealDRAMSystem` of `dram_system.cc`: a memory without banks, which answers after a fixed
latency.  The calls of `read_callback_` and `write_callback_` are kept in a log, each with the
cycle of its tick.

`AddTransaction` with an address alone, which does nothing here, is left out.
-/

namespace Dramsim

/-- A call of `read_callback_` or `write_callback_`. -/
structure IdealCallback where
  clk : Nat
  addr : Nat
  isWrite : Bool
deriving DecidableEq, Repr

/-- `class IdealDRAMSystem`, with the log of its callbacks. -/
structure IdealDRAMSystem where
  clk : Nat := 0
  infiniteBufferQ : List Transaction := []
  callbacks : List IdealCallback := []
deriving DecidableEq, Repr

namespace IdealDRAMSystem

/-- `IdealDRAMSystem::AddTransaction`. -/
def addTransaction (s : IdealDRAMSystem) (hexAddr : Nat) (isWrite : Bool) :
    Bool × IdealDRAMSystem :=
  let trans : Transaction := { addr := hexAddr, isWrite := isWrite, addedCycle := s.clk }
  (true, { s with infiniteBufferQ := s.infiniteBufferQ ++ [trans] })

/-- The loop over `infinite_buffer_q_`: the transactions that are answered, and those that stay.
After `erase` the iterator stands at the next transaction, and is moved on once more. -/
def serve (due : Transaction → Bool) : List Transaction → List Transaction × List Transaction
  | [] => ([], [])
  | t :: rest =>
      if due t then
        match rest with
        | [] => ([t], [])
        | next :: rest => (t :: (serve due rest).1, next :: (serve due rest).2)
      else ((serve due rest).1, t :: (serve due rest).2)

/-- `IdealDRAMSystem::ClockTick`. -/
def clockTick (latency : Nat) (s : IdealDRAMSystem) : IdealDRAMSystem :=
  let served := serve (fun t => latency ≤ s.clk - t.addedCycle) s.infiniteBufferQ
  { clk := s.clk + 1
    infiniteBufferQ := served.2
    callbacks := s.callbacks ++ served.1.map fun t => ⟨s.clk, t.addr, t.isWrite⟩ }

end IdealDRAMSystem

end Dramsim
