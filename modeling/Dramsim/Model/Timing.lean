import Dramsim.Model.Config

/-!
# Timing tables

`Timing::Timing` computes the gaps between commands from the configuration and
files them in five tables.  The table to consult depends on where the later
command goes relative to the earlier one, and its row on the type of the
earlier command.  An entry `(ty, d)` of the row says that a command of type
`ty` has to wait `d` cycles.
-/

namespace Dramsim

/-- One row of a table: later command types with their gaps. -/
abbrev TimingList := List (CommandType × Int)

/-- The five tables of `class Timing`. -/
structure Timing where
  sameBank : CommandType → TimingList
  otherBanksSameBankgroup : CommandType → TimingList
  otherBankgroupsSameRank : CommandType → TimingList
  otherRanks : CommandType → TimingList
  sameRank : CommandType → TimingList

namespace Timing

/-! ## Derived gaps -/

section Gaps

variable (config : Config)

/-- With a single bankgroup the device runs at the lower rate, and the source
overwrites the `_l` gaps by the `_s` ones. -/
def readToReadL : Int :=
  if config.bankgroups = 1 then max config.burstCycle config.tCCD_S
  else max config.burstCycle config.tCCD_L

def readToReadS : Int := max config.burstCycle config.tCCD_S

def readToReadO : Int := config.burstCycle + config.tRTRS

def readToWrite : Int := config.RL + config.burstCycle - config.WL + config.tRTRS

def readToWriteO : Int :=
  config.readDelay + config.burstCycle + config.tRTRS - config.writeDelay

def readToPrecharge : Int := config.AL + config.tRTP

def readpToAct : Int := config.AL + config.tRTP + config.tRP

def writeToReadL : Int :=
  if config.bankgroups = 1 then config.writeDelay + config.tWTR_S
  else config.writeDelay + config.tWTR_L

def writeToReadS : Int := config.writeDelay + config.tWTR_S

def writeToReadO : Int :=
  config.writeDelay + config.burstCycle + config.tRTRS - config.readDelay

def writeToWriteL : Int :=
  if config.bankgroups = 1 then max config.burstCycle config.tCCD_S
  else max config.burstCycle config.tCCD_L

def writeToWriteS : Int := max config.burstCycle config.tCCD_S

def writeToWriteO : Int := config.burstCycle

def writeToPrecharge : Int := config.WL + config.burstCycle + config.tWR

def prechargeToActivate : Int := config.tRP

def prechargeToPrecharge : Int := config.tPPD

def readToActivate : Int := readToPrecharge config + prechargeToActivate config

def writeToActivate : Int := writeToPrecharge config + prechargeToActivate config

def activateToActivate : Int := config.tRC

def activateToActivateL : Int :=
  if config.bankgroups = 1 then config.tRRD_S else config.tRRD_L

def activateToActivateS : Int := config.tRRD_S

def activateToPrecharge : Int := config.tRAS

def activateToRead : Int :=
  if config.isGDDR || config.isHBM then config.tRCDRD else config.tRCD - config.AL

def activateToWrite : Int :=
  if config.isGDDR || config.isHBM then config.tRCDWR else config.tRCD - config.AL

def activateToRefresh : Int := config.tRC

def refreshToRefresh : Int := config.tREFI

def refreshToActivate : Int := config.tRFC

def refreshToActivateBank : Int := config.tRFCb

def selfRefreshEntryToExit : Int := config.tCKESR

def selfRefreshExit : Int := config.tXS

end Gaps

/-! ## Rows shared by several command types -/

/-- Gaps to the four ordinary column commands. -/
def columnRow (toRead toWrite : Int) : TimingList :=
  [(.read, toRead), (.write, toWrite), (.readPrecharge, toRead), (.writePrecharge, toWrite)]

/-- Gaps after a command that leaves the bank precharged: `toAct` to an activate,
`toRef` to a refresh. -/
def prechargedRow (toAct toRef : Int) : TimingList :=
  [(.activate, toAct), (.pimActivate, toAct), (.refresh, toRef), (.refreshBank, toRef),
    (.srefEnter, toRef)]

/-- Gaps from a PIM read to the PIM column commands and to `PRECHARGE`. -/
def pimReadRow (config : Config) : TimingList :=
  [(.lhRead, readToReadS config), (.ghRead, readToReadS config),
    (.pimWrite, readToWrite config), (.lhReadPrecharge, readToReadS config),
    (.ghReadPrecharge, readToReadS config), (.pimWritePrecharge, readToWrite config),
    (.precharge, readToPrecharge config)]

/-- Gaps from `REFRESH_BANK` to the other banks of the rank. -/
def refreshBankRow (config : Config) : TimingList :=
  [(.activate, refreshToActivate config), (.pimActivate, refreshToActivate config),
    (.refreshBank, refreshToRefresh config)]

/-! ## The tables -/

/-- `same_bank`. -/
def sameBankOf (config : Config) : CommandType → TimingList
  | .read =>
      columnRow (readToReadL config) (readToWrite config) ++
        [(.precharge, readToPrecharge config)]
  | .write =>
      columnRow (writeToReadL config) (writeToWriteL config) ++
        [(.precharge, writeToPrecharge config)]
  | .readPrecharge => prechargedRow (readpToAct config) (readToActivate config)
  | .writePrecharge => prechargedRow (writeToActivate config) (writeToActivate config)
  | .lhRead => pimReadRow config
  | .ghRead => pimReadRow config
  | .pimWrite =>
      [(.lhRead, writeToReadS config), (.ghRead, writeToReadS config),
        (.pimWrite, writeToWriteS config), (.lhReadPrecharge, writeToReadL config),
        (.ghReadPrecharge, writeToReadL config), (.pimWritePrecharge, writeToWriteS config),
        (.precharge, writeToPrecharge config)]
  | .lhReadPrecharge => prechargedRow (readpToAct config) (readToActivate config)
  | .ghReadPrecharge => prechargedRow (readpToAct config) (readToActivate config)
  | .pimWritePrecharge => prechargedRow (writeToActivate config) (writeToActivate config)
  | .activate =>
      [(.activate, activateToActivate config), (.pimActivate, activateToActivate config)] ++
        columnRow (activateToRead config) (activateToWrite config) ++
        [(.precharge, activateToPrecharge config)]
  | .pimActivate =>
      [(.activate, activateToActivate config), (.pimActivate, activateToActivate config),
        (.lhRead, activateToRead config), (.ghRead, activateToRead config),
        (.pimWrite, activateToWrite config), (.lhReadPrecharge, activateToRead config),
        (.ghReadPrecharge, activateToRead config), (.pimWritePrecharge, activateToWrite config),
        (.precharge, activateToPrecharge config)]
  | .precharge => prechargedRow (prechargeToActivate config) (prechargeToActivate config)
  | _ => []

/-- `other_banks_same_bankgroup`. -/
def otherBanksSameBankgroupOf (config : Config) : CommandType → TimingList
  | .read => columnRow (readToReadL config) (readToWrite config)
  | .write => columnRow (writeToReadL config) (writeToWriteL config)
  | .readPrecharge => columnRow (readToReadL config) (readToWrite config)
  | .writePrecharge => columnRow (writeToReadL config) (writeToWriteL config)
  | .activate =>
      [(.activate, activateToActivateL config), (.refreshBank, activateToRefresh config)]
  | .pimActivate => [(.refreshBank, activateToRefresh config)]
  | .precharge =>
      if config.isGDDR || config.protocol = .lpddr4 then
        [(.precharge, prechargeToPrecharge config)]
      else []
  | .refreshBank => refreshBankRow config
  | _ => []

/-- `other_bankgroups_same_rank`. -/
def otherBankgroupsSameRankOf (config : Config) : CommandType → TimingList
  | .read => columnRow (readToReadS config) (readToWrite config)
  | .write => columnRow (writeToReadS config) (writeToWriteS config)
  | .readPrecharge => columnRow (readToReadS config) (readToWrite config)
  | .writePrecharge => columnRow (writeToReadS config) (writeToWriteS config)
  | .activate =>
      [(.activate, activateToActivateS config), (.refreshBank, activateToRefresh config)]
  | .pimActivate => [(.refreshBank, activateToRefresh config)]
  | .precharge =>
      if config.isGDDR || config.protocol = .lpddr4 then
        [(.precharge, prechargeToPrecharge config)]
      else []
  | .refreshBank => refreshBankRow config
  | _ => []

/-- `other_ranks`. -/
def otherRanksOf (config : Config) : CommandType → TimingList
  | .read => columnRow (readToReadO config) (readToWriteO config)
  | .write => columnRow (writeToReadO config) (writeToWriteO config)
  | .readPrecharge => columnRow (readToReadO config) (readToWriteO config)
  | .writePrecharge => columnRow (writeToReadO config) (writeToWriteO config)
  | _ => []

/-- `same_rank`. -/
def sameRankOf (config : Config) : CommandType → TimingList
  | .refreshBank =>
      prechargedRow (refreshToActivateBank config) (refreshToActivateBank config)
  | .refresh =>
      [(.activate, refreshToActivate config), (.pimActivate, refreshToActivate config),
        (.refresh, refreshToActivate config), (.srefEnter, refreshToActivate config)]
  | .srefEnter => [(.srefExit, selfRefreshEntryToExit config)]
  | .srefExit => prechargedRow (selfRefreshExit config) (selfRefreshExit config)
  | _ => []

/-- The constructor `Timing::Timing`. -/
def ofConfig (config : Config) : Timing where
  sameBank := sameBankOf config
  otherBanksSameBankgroup := otherBanksSameBankgroupOf config
  otherBankgroupsSameRank := otherBankgroupsSameRankOf config
  otherRanks := otherRanksOf config
  sameRank := sameRankOf config

/-- `SREF_EXIT` is delayed by one row only, that of `SREF_ENTER` over a rank. -/
theorem not_mem_srefExit (config : Config) (ty : CommandType) (d : Int) :
    (CommandType.srefExit, d) ∉ sameBankOf config ty ∧
      (CommandType.srefExit, d) ∉ otherBanksSameBankgroupOf config ty ∧
      (CommandType.srefExit, d) ∉ otherBankgroupsSameRankOf config ty ∧
      (CommandType.srefExit, d) ∉ otherRanksOf config ty := by
  cases ty <;>
    simp [sameBankOf, otherBanksSameBankgroupOf, otherBankgroupsSameRankOf, otherRanksOf,
      columnRow, prechargedRow, pimReadRow, refreshBankRow]

end Timing

end Dramsim
