import Dramsim.Library.InputStream
import Dramsim.Model.DramSystem

/-!
# Trace-driven requests

`TraceBasedCPU` of `cpu.cc`, with the extraction of a transaction from `common.cc`.  A trace has a
line `<hex addr> <op> <cycle>` for each transaction.  The next line is read when the transaction
of the last one has been accepted.

The memory system is a parameter.  `MemoryInterface.jedec` is that of `dram_system.cc`, with the
exit of the process as a state in which nothing is accepted any more.
-/

namespace Dramsim

open Library (InputStream)

/-- The operations of a memory system that a CPU uses. -/
structure MemoryInterface (μ : Type) where
  clockTick : μ → μ
  willAcceptTransaction : μ → Nat → Bool → Bool
  addTransaction : μ → Nat → Bool → μ
  willAcceptPim : μ → Bool
  addPim : μ → Nat → μ

/-- The memory system of JEDEC devices. -/
def MemoryInterface.jedec (config : Config) :
    MemoryInterface (Except Exit (JedecDRAMSystem config)) where
  clockTick m := m >>= JedecDRAMSystem.clockTick
  willAcceptTransaction m addr isWrite :=
    m.toOption.any fun s => s.willAcceptTransaction addr isWrite
  addTransaction m addr isWrite := m.map fun s => s.addTransaction addr isWrite
  willAcceptPim m := m.toOption.any fun s => s.willAcceptPim
  addPim m addr := m.map fun s => s.addPim addr

/-- The members of a `Transaction` that its extraction sets. -/
structure TraceTransaction where
  addr : Nat := 0
  addedCycle : Nat := 0
  isWrite : Bool := false
  isPim : Bool := false
  active : Bool := false
deriving DecidableEq, Repr

namespace TraceTransaction

def writeTypes : List (List Char) :=
  [['W', 'R', 'I', 'T', 'E'], ['w', 'r', 'i', 't', 'e'], ['P', '_', 'M', 'E', 'M', '_', 'W', 'R'],
    ['B', 'O', 'F', 'F']]

def pimTypes : List (List Char) := [['P', 'I', 'M']]

/-- `operator>>` for a transaction. -/
def extract (stream : InputStream) (trans : TraceTransaction) : InputStream × TraceTransaction :=
  let (addr, stream) := stream.readUnsigned 16 64 trans.addr
  let (memOp, stream) := stream.readWord []
  let (addedCycle, stream) := stream.readUnsigned 10 64 trans.addedCycle
  let isWrite := writeTypes.contains memOp
  let isPim := pimTypes.contains memOp
  (stream, { addr, addedCycle, isWrite, isPim, active := isWrite || isPim })

end TraceTransaction

/-- The kinds of transactions. -/
inductive TraceOp where
  | read
  | write
  | pim
deriving DecidableEq, Repr

/-- `class TraceBasedCPU`, with a record of the transactions that it has added. -/
structure TraceBasedCPU (μ : Type) where
  memory : μ
  traceFile : InputStream
  clk : Nat := 0
  trans : TraceTransaction := {}
  getNext : Bool := true
  submitted : List (Nat × TraceOp) := []

namespace TraceBasedCPU

variable {μ : Type} (mem : MemoryInterface μ)

/-- The next line is read if there is need of one. -/
def fetch (cpu : TraceBasedCPU μ) : TraceBasedCPU μ :=
  if cpu.getNext then
    let (traceFile, trans) := TraceTransaction.extract cpu.traceFile cpu.trans
    { cpu with getNext := false, traceFile := traceFile, trans := trans }
  else cpu

/-- The transaction of the last line is added if it is due and the memory system accepts it. -/
def submit (cpu : TraceBasedCPU μ) : TraceBasedCPU μ :=
  if cpu.trans.addedCycle ≤ cpu.clk ∧ cpu.trans.active then
    if !cpu.trans.isPim then
      if mem.willAcceptTransaction cpu.memory cpu.trans.addr cpu.trans.isWrite then
        { cpu with
          getNext := true
          memory := mem.addTransaction cpu.memory cpu.trans.addr cpu.trans.isWrite
          submitted := cpu.submitted ++
            [(cpu.trans.addr, if cpu.trans.isWrite then .write else .read)] }
      else { cpu with getNext := false }
    else
      if mem.willAcceptPim cpu.memory then
        { cpu with
          getNext := true
          memory := mem.addPim cpu.memory cpu.trans.addr
          submitted := cpu.submitted ++ [(cpu.trans.addr, .pim)] }
      else { cpu with getNext := false }
  else cpu

/-- `TraceBasedCPU::ClockTick`. -/
def clockTick (cpu : TraceBasedCPU μ) : TraceBasedCPU μ :=
  let cpu := { cpu with memory := mem.clockTick cpu.memory }
  let cpu := if !cpu.traceFile.eof then (cpu.fetch).submit mem else cpu
  { cpu with clk := cpu.clk + 1 }

end TraceBasedCPU

end Dramsim
