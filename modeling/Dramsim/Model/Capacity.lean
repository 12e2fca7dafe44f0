import Dramsim.Model.AddressMapping
import Dramsim.Model.Refresh

/-!
# Capacity

`Config::CalculateSize` derives the number of ranks from the size of a channel and the geometry
of its devices, and the constructor of `Refresh` divides the refresh interval by that number.

The entries of the file are signed, and the model does not restrict them.  Products are those of
the integers: a file whose products exceed `int` is not considered.

`DeviceFile.Builds` puts the sizes together with `Config::InitDRAMParams` and
`Config::SetAddressMapping`: it says which device the constructor of `Config` makes of a file
whose entry `bankgroup_enable` is true.
-/

namespace Dramsim

/-- A division of the source.  It truncates, and a division by zero ends the process. -/
def divide (a b : Int) : Except Exit Int :=
  if b = 0 then .error .divisionByZero else .ok (a.tdiv b)

/-- The entries of the file that the sizes of a channel are computed from, in megabytes, bits and
counts. -/
structure Geometry where
  channelSize : Int := 1024
  busWidth : Int := 64
  deviceWidth : Int := 8
  columns : Int := 1024
  rows : Int := 65536
  bankgroups : Int := 2
  banksPerGroup : Int := 2
  refreshPolicy : RefreshPolicy := .rankLevelStaggered
  tREFI : Int := 7800
  tREFIb : Int := 1950

/-- What `Config::CalculateSize` sets, with the local `megs_per_rank` and the line it prints. -/
structure Sizes where
  devicesPerRank : Int
  megsPerRank : Int
  ranks : Int
  channelSize : Int
  warning : Option String
deriving DecidableEq, Repr

namespace Geometry

def banks (g : Geometry) : Int := g.bankgroups * g.banksPerGroup

/-- `page_size`, in bytes. -/
def pageSize (g : Geometry) : Int := (g.columns * g.deviceWidth).tdiv 8

/-- `megs_per_bank`. -/
def megsPerBank (g : Geometry) : Int := (g.pageSize * g.rows.tdiv 1024).tdiv 1024

/-- `Config::CalculateSize`. -/
def calculateSize (g : Geometry) : Except Exit Sizes := do
  let devicesPerRank ← divide g.busWidth g.deviceWidth
  let megsPerRank := g.megsPerBank * g.banks * devicesPerRank
  if g.channelSize < megsPerRank then
    .ok
      { devicesPerRank := devicesPerRank
        megsPerRank := megsPerRank
        ranks := 1
        channelSize := megsPerRank
        warning := some ("WARNING: Cannot create memory system of size " ++
          toString g.channelSize ++ "MB with given device choice! Using default size " ++
          toString megsPerRank ++ " instead!") }
  else do
    let ranks ← divide g.channelSize megsPerRank
    .ok
      { devicesPerRank := devicesPerRank
        megsPerRank := megsPerRank
        ranks := ranks
        channelSize := ranks * megsPerRank
        warning := none }

/-- The constructor of `Refresh`: `refresh_interval_` for a number of ranks. -/
def refreshInterval (g : Geometry) (ranks : Int) : Except Exit Int :=
  match g.refreshPolicy with
  | .rankLevelSimultaneous => .ok g.tREFI
  | .bankLevelStaggered => .ok g.tREFIb
  | .rankLevelStaggered => divide g.tREFI ranks

end Geometry

/-! ## Devices -/

/-- A file.  The constructor takes over most of its entries as they are.  It computes the ranks,
the positions of the fields and the burst cycle, which are not read from `entries`. -/
structure DeviceFile where
  entries : Config
  channelSize : Int := 1024
  busWidth : Nat := 64
  deviceWidth : Nat := 8
  blockSize : Nat := 64
  addressMapping : List Char := ['c', 'h', 'r', 'o', 'b', 'a', 'b', 'g', 'r', 'a', 'c', 'o']

namespace DeviceFile

/-- The data that is transferred in a cycle, by protocol. -/
def transfers : DRAMProtocol → Nat
  | .gddr5 => 4
  | .gddr5x => 8
  | .gddr6 => 16
  | _ => 2

/-- `Config::InitDRAMParams`: `BL`, `burst_cycle` and `columns`. -/
def initDRAMParams (file : DeviceFile) : Config :=
  let config := file.entries
  let fileBL :=
    if config.protocol = .hmc then file.blockSize * 8 / file.deviceWidth else config.BL
  let BL := if fileBL = 0 then if config.isHBM then 4 else 8 else fileBL
  { config with
    burstCycle := (fileBL / transfers config.protocol : Nat)
    BL := BL
    columns :=
      if config.isGDDR then config.columns * BL
      else if config.isHBM then config.columns * 2 else config.columns }

def geometry (file : DeviceFile) : Geometry :=
  let config := file.initDRAMParams
  { channelSize := file.channelSize
    busWidth := file.busWidth
    deviceWidth := file.deviceWidth
    columns := config.columns
    rows := config.rows
    bankgroups := config.bankgroups
    banksPerGroup := config.banksPerGroup
    refreshPolicy := config.refreshPolicy
    tREFI := config.tREFI
    tREFIb := config.tREFIb }

/-- The constructor of `Config` makes this device of the file. -/
structure Builds (file : DeviceFile) (config : Config) : Prop where
  ranks : file.geometry.calculateSize.map Sizes.ranks = .ok (config.ranks : Int)
  device : { file.initDRAMParams with
    ranks := config.ranks, ranks_pos := config.ranks_pos }.setAddressMapping file.busWidth
      file.addressMapping = .ok config

end DeviceFile

/-- `HBM2_8Gb_x128.ini` with other entries. -/
def hbm2File (entries : Config) : DeviceFile where
  entries := entries
  channelSize := 256
  deviceWidth := 64
  addressMapping := ['r', 'o', 'r', 'a', 'b', 'g', 'b', 'a', 'c', 'o', 'c', 'h']

example : DeviceFile.Builds { entries := .defaults } .defaults := ⟨rfl, rfl⟩

example : DeviceFile.Builds { entries := .defaults, channelSize := 4096 } .dualRank := ⟨rfl, rfl⟩

example : DeviceFile.Builds { entries := .shortBurst } .shortBurst := ⟨rfl, rfl⟩

example : (hbm2File { Config.hbm2Rank with columns := 128 }).Builds .hbm2Rank := ⟨rfl, rfl⟩

example : (hbm2File { Config.hbm2 with columns := 64 }).Builds .hbm2 := ⟨rfl, rfl⟩

end Dramsim
