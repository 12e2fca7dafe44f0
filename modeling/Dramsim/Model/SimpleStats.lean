import Dramsim.Library.Tally
import Dramsim.Model.Config
import Mathlib.Algebra.BigOperators.Group.List.Basic
import Mathlib.Algebra.Field.Rat
import Mathlib.Data.List.AList
import Mathlib.Data.List.FinRange

/-!
# Statistics

`simple_stats.cc`.  A counter is kept twice, in a total and in a part for the current epoch.
`Increment`, `IncrementVec` and `AddValue` count in the part of the epoch, `PrintEpochStats` adds
this part to the totals and starts it again from zero, and `PrintFinalStats` adds the rest at the
end.

The counters are `uint64_t`.  Energies and averages are exact: the sums and products of `double`
values are those of rational numbers.  Where the source divides by zero there is no value.

What `j_data_` holds is returned as a `Report`.  The texts of `print_pairs_`, the same values with
their descriptions, are left out, and so are the files that `output_level` chooses.
-/

namespace Dramsim

open Library.Tally (bump merge)

/-! ## Energy -/

/-- The section `power` of a configuration file. -/
structure PowerSection where
  VDD : Rat := 12 / 10
  IDD0 : Rat := 48
  IDD2N : Rat := 34
  IDD3N : Rat := 43
  IDD4W : Rat := 123
  IDD4R : Rat := 135
  IDD5AB : Rat := 250
  IDD5PB : Rat := 5
  IDD6x : Rat := 31

/-- The energy of a command, or of a cycle in standby, and the other parameters of the
statistics. -/
structure PowerParams where
  actEnergyInc : Rat
  readEnergyInc : Rat
  writeEnergyInc : Rat
  lhReadEnergyInc : Rat
  ghReadEnergyInc : Rat
  pimWriteEnergyInc : Rat
  refEnergyInc : Rat
  refbEnergyInc : Rat
  actStbEnergyInc : Rat
  preStbEnergyInc : Rat
  srefEnergyInc : Rat
  tCK : Rat
  requestSizeBytes : Nat

/-- `Config::InitPowerParams`. -/
def Config.initPowerParams (config : Config) (power : PowerSection) (devices : Rat) (tCK : Rat)
    (requestSizeBytes : Nat) : PowerParams where
  actEnergyInc := power.VDD * (power.IDD0 * config.tRC -
    (power.IDD3N * config.tRAS + power.IDD2N * config.tRP)) * devices
  readEnergyInc := power.VDD * (power.IDD4R - power.IDD3N) * config.burstCycle * devices
  writeEnergyInc := power.VDD * (power.IDD4W - power.IDD3N) * config.burstCycle * devices
  lhReadEnergyInc :=
    power.VDD * (55 / 100) * (power.IDD4R - power.IDD3N) * config.burstCycle * devices
  ghReadEnergyInc := power.VDD * (power.IDD4R - power.IDD3N) * config.burstCycle * devices
  pimWriteEnergyInc := power.VDD * (power.IDD4W - power.IDD3N) * config.burstCycle * devices
  refEnergyInc := power.VDD * (power.IDD5AB - power.IDD3N) * config.tRFC * devices
  refbEnergyInc := power.VDD * (power.IDD5PB - power.IDD3N) * config.tRFCb * devices
  actStbEnergyInc := power.VDD * power.IDD3N * devices
  preStbEnergyInc := power.VDD * power.IDD2N * devices
  srefEnergyInc := power.VDD * power.IDD6x * devices
  tCK := tCK
  requestSizeBytes := requestSizeBytes

namespace SimpleStats

/-! ## Names -/

/-- The counters. -/
inductive Counter where
  | numCycles | epochNum | numReadsDone | numWritesDone | numWriteBufHits
  | numReadRowHits | numWriteRowHits | numReadCmds | numWriteCmds
  | numPimWriteBufHits | numLhReadRowHits | numGhReadRowHits | numPimWriteRowHits
  | numLhReadCmds | numGhReadCmds | numPimWriteCmds
  | numActCmds | numPreCmds | numOndemandPres | numRefCmds | numRefbCmds
  | numSrefeCmds | numSrefxCmds | hbmDualCmds
deriving DecidableEq, Repr

/-- The counters with an entry for each rank. -/
inductive VecCounter where
  | allBankIdleCycles | rankActiveCycles | srefCycles
deriving DecidableEq, Repr

/-- The energies in `doubles_`. -/
inductive Energy where
  | act | read | write | lhRead | ghRead | pimWrite | ref | refb
deriving DecidableEq, Repr

/-- The energies in `vec_doubles_`. -/
inductive Standby where
  | actStb | preStb | sref
deriving DecidableEq, Repr

/-- The histograms. -/
inductive Histo where
  | readLatency | writeLatency | interarrivalLatency
deriving DecidableEq, Repr

/-- The entries of `calculated_`. -/
inductive Calculated where
  | averageBandwidth | totalEnergy | averagePower | averageReadLatency | averageInterarrival
deriving DecidableEq, Repr

/-- The commands that cost an energy. -/
def Energy.counter : Energy → Counter
  | .act => .numActCmds
  | .read => .numReadCmds
  | .write => .numWriteCmds
  | .lhRead => .numLhReadCmds
  | .ghRead => .numGhReadCmds
  | .pimWrite => .numPimWriteCmds
  | .ref => .numRefCmds
  | .refb => .numRefbCmds

/-- The energy of one command. -/
def Energy.inc (p : PowerParams) : Energy → Rat
  | .act => p.actEnergyInc
  | .read => p.readEnergyInc
  | .write => p.writeEnergyInc
  | .lhRead => p.lhReadEnergyInc
  | .ghRead => p.ghReadEnergyInc
  | .pimWrite => p.pimWriteEnergyInc
  | .ref => p.refEnergyInc
  | .refb => p.refbEnergyInc

/-- The cycles that cost an energy. -/
def Standby.counter : Standby → VecCounter
  | .actStb => .rankActiveCycles
  | .preStb => .allBankIdleCycles
  | .sref => .srefCycles

/-- The energy of one cycle. -/
def Standby.inc (p : PowerParams) : Standby → Rat
  | .actStb => p.actStbEnergyInc
  | .preStb => p.preStbEnergyInc
  | .sref => p.srefEnergyInc

/-! ## Histograms -/

/-- What `InitHistoStat` is called with: the values `histo_bounds_` and the number of bins between
them. -/
structure HistoStat where
  startVal : Int
  endVal : Int
  numBins : Nat
deriving DecidableEq, Repr

/-- The calls of `InitHistoStat`. -/
def Histo.stat : Histo → HistoStat
  | .readLatency => ⟨0, 200, 10⟩
  | .writeLatency => ⟨0, 200, 10⟩
  | .interarrivalLatency => ⟨0, 100, 10⟩

/-- `bin_widths_`. -/
def HistoStat.binWidth (stat : HistoStat) : Int := (stat.endVal - stat.startVal).tdiv stat.numBins

/-- How often each value has been added. -/
abbrev HistoCount := AList fun _ : Int => Nat

/-- The number of a value. -/
def HistoCount.count (counts : HistoCount) (value : Int) : Nat := (counts.lookup value).getD 0

/-- Add to the number of a value, which is zero when the value is new. -/
def HistoCount.add (counts : HistoCount) (value : Int) (n : Nat) : HistoCount :=
  counts.insert value ((counts.count value + n) % 2 ^ 64)

/-- Add all numbers of another histogram. -/
def HistoCount.addAll (counts epoch : HistoCount) : HistoCount :=
  epoch.entries.foldl (fun counts entry => counts.add entry.1 entry.2) counts

/-- `bin_idx`. -/
def HistoStat.binIdx (stat : HistoStat) (value : Int) : Int :=
  if value < stat.startVal then 0
  else if stat.endVal < value then stat.numBins + 1
  else (value - stat.startVal).tdiv stat.binWidth + 1

/-- The bins of a histogram. -/
def HistoStat.bins (stat : HistoStat) (counts : HistoCount) : List Nat :=
  counts.entries.foldl (fun bins entry =>
    bins.modify (stat.binIdx entry.1).toNat fun n => (n + entry.2) % 2 ^ 64)
    (List.replicate (stat.numBins + 2) 0)

/-- What the tables of the histograms hold for one name. -/
structure Histogram where
  counts : HistoCount := ∅
  epochCounts : HistoCount := ∅
  bins : List Nat
  epochBins : List Nat

/-- The tables after `InitHistoStat`. -/
def HistoStat.init (stat : HistoStat) : Histogram where
  bins := List.replicate (stat.numBins + 2) 0
  epochBins := List.replicate (stat.numBins + 2) 0

/-- `AddValue` for one name. -/
def Histogram.addValue (hist : Histogram) (value : Int) : Histogram :=
  { hist with epochCounts := hist.epochCounts.add value 1 }

/-- `UpdateHistoBins` for one name. -/
def HistoStat.update (stat : HistoStat) (hist : Histogram) : Histogram :=
  let epochBins := stat.bins hist.epochCounts
  { hist with
    epochBins := epochBins
    counts := hist.counts.addAll hist.epochCounts
    bins := List.zipWith (fun n m => (n + m) % 2 ^ 64) hist.bins epochBins }

/-- What `PrintEpochStats` does for one name. -/
def HistoStat.endEpoch (stat : HistoStat) (hist : Histogram) : Histogram :=
  { stat.update hist with epochCounts := ∅ }

/-- `SimpleStats::GetHistoAvg`. -/
def getHistoAvg (counts : HistoCount) : Rat :=
  let accuSum : Nat := counts.entries.foldl
    (fun sum entry => (sum + toU64 entry.1 * entry.2) % 2 ^ 64) 0
  let count : Nat := counts.entries.foldl (fun sum entry => (sum + entry.2) % 2 ^ 64) 0
  if count = 0 then 0 else accuSum / count

end SimpleStats

/-! ## The statistics of a channel -/

/-- `class SimpleStats`. -/
structure SimpleStats (config : Config) where
  counters : SimpleStats.Counter → Nat := fun _ => 0
  epochCounters : SimpleStats.Counter → Nat := fun _ => 0
  vecCounters : SimpleStats.VecCounter × Fin config.ranks → Nat := fun _ => 0
  epochVecCounters : SimpleStats.VecCounter × Fin config.ranks → Nat := fun _ => 0
  doubles : SimpleStats.Energy → Rat := fun _ => 0
  vecDoubles : SimpleStats.Standby → Fin config.ranks → Rat := fun _ _ => 0
  calculated : SimpleStats.Calculated → Option Rat := fun _ => some 0
  histoCounts : SimpleStats.Histo → SimpleStats.HistoCount := fun _ => ∅
  epochHistoCounts : SimpleStats.Histo → SimpleStats.HistoCount := fun _ => ∅
  histoBins : SimpleStats.Histo → List Nat := fun h => h.stat.init.bins
  epochHistoBins : SimpleStats.Histo → List Nat := fun h => h.stat.init.epochBins

/-- What `UpdatePrints` puts into `j_data_`.  Only the final report has the histograms in full. -/
structure Report (config : Config) where
  counters : SimpleStats.Counter → Nat
  vecCounters : SimpleStats.VecCounter × Fin config.ranks → Nat
  histoBins : SimpleStats.Histo → List Nat
  histoCounts : Option (SimpleStats.Histo → SimpleStats.HistoCount)
  doubles : SimpleStats.Energy → Rat
  vecDoubles : SimpleStats.Standby → Fin config.ranks → Rat
  calculated : SimpleStats.Calculated → Option Rat

namespace SimpleStats

variable {config : Config}

/-- `SimpleStats::Increment`. -/
def increment (s : SimpleStats config) (c : Counter) : SimpleStats config :=
  { s with epochCounters := bump (2 ^ 64) s.epochCounters c }

/-- `SimpleStats::IncrementVec`. -/
def incrementVec (s : SimpleStats config) (c : VecCounter) (pos : Fin config.ranks) :
    SimpleStats config :=
  { s with epochVecCounters := bump (2 ^ 64) s.epochVecCounters (c, pos) }

/-- `SimpleStats::IncrementVecBy`. -/
def incrementVecBy (s : SimpleStats config) (c : VecCounter) (pos : Fin config.ranks) (num : Int) :
    SimpleStats config :=
  { s with
    epochVecCounters :=
      Function.update s.epochVecCounters (c, pos)
        ((s.epochVecCounters (c, pos) + toU64 num) % 2 ^ 64) }

/-- What the tables of the histograms hold for a name. -/
def histogram (s : SimpleStats config) (h : Histo) : Histogram :=
  ⟨s.histoCounts h, s.epochHistoCounts h, s.histoBins h, s.epochHistoBins h⟩

/-- `SimpleStats::AddValue`. -/
def addValue (s : SimpleStats config) (h : Histo) (value : Int) : SimpleStats config :=
  { s with
    epochHistoCounts :=
      Function.update s.epochHistoCounts h ((s.epochHistoCounts h).add value 1) }

/-- `SimpleStats::UpdateCounters`. -/
def updateCounters (s : SimpleStats config) : SimpleStats config :=
  { s with
    counters := merge (2 ^ 64) s.counters s.epochCounters
    vecCounters := merge (2 ^ 64) s.vecCounters s.epochVecCounters }

/-- `SimpleStats::UpdateHistoBins`. -/
def updateHistoBins (s : SimpleStats config) : SimpleStats config :=
  let updated (h : Histo) : Histogram := h.stat.update (s.histogram h)
  { s with
    epochHistoBins := fun h => (updated h).epochBins
    histoCounts := fun h => (updated h).counts
    histoBins := fun h => (updated h).bins }

/-- The energy of a number of commands. -/
def commandEnergy (p : PowerParams) (cmds : Counter → Nat) (e : Energy) : Rat :=
  cmds e.counter * e.inc p

/-- The energy of a rank in standby. -/
def standbyEnergy (p : PowerParams) (cycles : VecCounter × Fin config.ranks → Nat) (e : Standby)
    (i : Fin config.ranks) : Rat :=
  cycles (e.counter, i) * e.inc p

/-- `background_energy`. -/
def backgroundEnergy (vecDoubles : Standby → Fin config.ranks → Rat) : Rat :=
  ((List.finRange config.ranks).map fun i =>
    vecDoubles .actStb i + vecDoubles .preStb i + vecDoubles .sref i).sum

/-- A quotient of two `double` values, unless it is infinite or not a number. -/
def quotient (a b : Rat) : Option Rat := if b = 0 then none else some (a / b)

/-- The entries of `calculated_`, from the counters and histograms of the epoch or of the whole
run. -/
def calculate (p : PowerParams) (counters : Counter → Nat) (histoCounts : Histo → HistoCount)
    (totalEnergy : Rat) : Calculated → Option Rat
  | .averageBandwidth =>
      let totalReqs := (counters .numReadsDone + counters .numWritesDone) % 2 ^ 64
      let totalTime := counters .numCycles * p.tCK
      quotient ((totalReqs * p.requestSizeBytes % 2 ^ 64 : Nat) : Rat) totalTime
  | .totalEnergy => some totalEnergy
  | .averagePower => quotient totalEnergy (counters .numCycles)
  | .averageReadLatency => some (getHistoAvg (histoCounts .readLatency))
  | .averageInterarrival => some (getHistoAvg (histoCounts .interarrivalLatency))

/-- `SimpleStats::UpdatePrints`. -/
def updatePrints (s : SimpleStats config) (epoch : Bool) : Report config where
  counters :=
    Function.update (if epoch then s.epochCounters else s.counters) .epochNum (s.counters .epochNum)
  vecCounters := if epoch then s.epochVecCounters else s.vecCounters
  histoBins := if epoch then s.epochHistoBins else s.histoBins
  histoCounts := if epoch then none else some s.histoCounts
  doubles := s.doubles
  vecDoubles := s.vecDoubles
  calculated := s.calculated

/-- `SimpleStats::UpdateEpochStats`, with the report that it makes. -/
def updateEpochStats (p : PowerParams) (s : SimpleStats config) :
    Report config × SimpleStats config :=
  let s := s.updateCounters
  let d := commandEnergy p s.epochCounters
  let vecDoubles := standbyEnergy p s.epochVecCounters
  let s := { s with doubles := d, vecDoubles := vecDoubles }.updateHistoBins
  let totalEnergy := d .act + d .read + d .write + d .lhRead + d .ghRead + d .pimWrite + d .ref +
    d .refb + backgroundEnergy vecDoubles
  let s := { s with calculated := calculate p s.epochCounters s.epochHistoCounts totalEnergy }
  (s.updatePrints true,
    { s with
      epochCounters := fun _ => 0
      epochVecCounters := fun _ => 0
      epochHistoCounts := fun _ => ∅ })

/-- The energies that `UpdateFinalStats` puts into `doubles_`.  Those of the PIM commands are taken
from the counters of the epoch. -/
def finalEnergy (p : PowerParams) (s : SimpleStats config) : Energy → Rat
  | .act => commandEnergy p s.counters .act
  | .read => commandEnergy p s.counters .read
  | .write => commandEnergy p s.counters .write
  | .ref => commandEnergy p s.counters .ref
  | .refb => commandEnergy p s.counters .refb
  | .lhRead => commandEnergy p s.epochCounters .lhRead
  | .ghRead => commandEnergy p s.epochCounters .ghRead
  | .pimWrite => commandEnergy p s.epochCounters .pimWrite

/-- `SimpleStats::UpdateFinalStats`, with the report that it makes. -/
def updateFinalStats (p : PowerParams) (s : SimpleStats config) :
    Report config × SimpleStats config :=
  let s := s.updateCounters
  let d := s.finalEnergy p
  let vecDoubles := standbyEnergy p s.vecCounters
  let s := { s with doubles := d, vecDoubles := vecDoubles }.updateHistoBins
  let totalEnergy := d .act + d .read + d .write + d .ref + d .lhRead + d .ghRead + d .pimWrite +
    d .refb + backgroundEnergy vecDoubles
  let s := { s with calculated := calculate p s.counters s.histoCounts totalEnergy }
  (s.updatePrints false, s)

/-- The calls that change the statistics during a run. -/
inductive Event (config : Config) where
  | increment (c : Counter)
  | incrementVec (c : VecCounter) (pos : Fin config.ranks)
  | addValue (h : Histo) (value : Int)
  | printEpochStats
deriving DecidableEq, Repr

/-- One call. -/
def perform (p : PowerParams) (s : SimpleStats config) : Event config → SimpleStats config
  | .increment c => s.increment c
  | .incrementVec c pos => s.incrementVec c pos
  | .addValue h value => s.addValue h value
  | .printEpochStats => (s.updateEpochStats p).2

/-- The state after some calls. -/
def run (p : PowerParams) (events : List (Event config)) : SimpleStats config :=
  events.foldl (perform p) {}

/-- `SimpleStats::PrintFinalStats` at the end of a run. -/
def printFinalStats (p : PowerParams) (s : SimpleStats config) : Report config :=
  (s.updateFinalStats p).1

/-- `SimpleStats::Reset`.  The bins of the histograms are not among what it clears. -/
def reset (s : SimpleStats config) : SimpleStats config :=
  { s with
    counters := fun _ => 0
    epochCounters := fun _ => 0
    vecCounters := fun _ => 0
    epochVecCounters := fun _ => 0
    doubles := fun _ => 0
    vecDoubles := fun _ _ => 0
    calculated := fun _ => some 0
    histoCounts := fun _ => ∅
    epochHistoCounts := fun _ => ∅ }

/-- The calls that count something or end an epoch. -/
inductive Input (config : Config) where
  | event (e : Event config)
  | incrementVecBy (c : VecCounter) (pos : Fin config.ranks) (num : Int)
deriving DecidableEq, Repr

/-- One such call. -/
def record (p : PowerParams) (s : SimpleStats config) : Input config → SimpleStats config
  | .event e => s.perform p e
  | .incrementVecBy c pos num => s.incrementVecBy c pos num

/-- All calls. -/
inductive Call (config : Config) where
  | input (i : Input config)
  | printFinalStats
  | reset
deriving DecidableEq, Repr

/-- One call. -/
def call (p : PowerParams) (s : SimpleStats config) : Call config → SimpleStats config
  | .input i => s.record p i
  | .printFinalStats => (s.updateFinalStats p).2
  | .reset => s.reset

end SimpleStats

end Dramsim
