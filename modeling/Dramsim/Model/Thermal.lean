import Dramsim.Model.AddressMapping
import Dramsim.Model.CommandTrace
import Mathlib.Algebra.Order.Field.Rat

/-!
# The thermal calculator

`ThermalCalculator` of the thermal build lays the banks out on a floorplan and adds the energy of
each command to the cells of a power map.  The constructor fixes the floorplan, `MapToVault`,
`MapToBank` and `MapToZ` place a bank on it, `SetPhyAddressMapping` reads the entry `loc_mapping`,
and `UpdateCMDPower` charges a command.

A double is a rational number, so the comparisons of aspect ratios are exact.  Divisions of the
source truncate.  The divisors it does not check are positive, as fields of the configuration.
-/

namespace Dramsim

/-- The part of the configuration that `ThermalCalculator` reads. -/
structure ThermalConfig extends Config where
  deviceWidth : Nat := 8
  devicesPerRank : Nat := 8
  numDies : Nat := 1
  /-- The entry `loc_mapping` of the file. -/
  locMapping : List Char := []
  numRowRefresh : Nat := 8
  numXGrids : Nat := 128
  numYGrids : Nat := 16
  matDimX : Nat := 512
  matDimY : Nat := 512
  rowTile : Nat := 1
  tileRowNum : Nat := 65536
  bankOrder : Int := 1
  bankLayerOrder : Int := 0
  bankAsr : Rat := 8
  actEnergyInc : Rat := 0
  readEnergyInc : Rat := 0
  writeEnergyInc : Rat := 0
  refEnergyInc : Rat := 0
  refbEnergyInc : Rat := 0
  matDimX_pos : 0 < matDimX := by decide
  matDimY_pos : 0 < matDimY := by decide
  rowTile_pos : 0 < rowTile := by decide
  tileRowNum_pos : 0 < tileRowNum := by decide
  /-- The layers of an HMC hold banks. -/
  layer_pos : protocol = .hmc → 0 < bankgroups * banksPerGroup / numDies := by decide

theorem mat_pos : 0 < 512 := by decide

theorem tile_pos : 0 < 65536 := by decide

theorem defaults_layer_pos : Config.defaults.protocol = .hmc →
    0 < Config.defaults.bankgroups * Config.defaults.banksPerGroup / 1 := by decide

/-- The default configuration of a thermal build. -/
def ThermalConfig.defaults : ThermalConfig where
  toConfig := Config.defaults
  matDimX_pos := mat_pos
  matDimY_pos := mat_pos
  rowTile_pos := Nat.one_pos
  tileRowNum_pos := tile_pos
  layer_pos := defaults_layer_pos

/-! ## The floorplan -/

/-- `asr`, the longer side of a plan over the shorter one. -/
def aspectRatio (xd yd : Rat) (x y : Nat) : Rat :=
  if x * xd ≥ y * yd then x * xd / y / yd else y * yd / x / xd

/-- The body of the loop of `determineXY` on `x_re` and `asr_re`. -/
def tryRows (xd yd : Rat) (totalGrids : Nat) (re : Nat × Rat) (y : Nat) : Nat × Rat :=
  let x := totalGrids / y
  if x * y = totalGrids ∧ aspectRatio xd yd x y < re.2 then (x, aspectRatio xd yd x y) else re

/-- `determineXY`: the first factorisation into `x` columns and `y` rows whose aspect ratio is the
smallest, as the number of its columns. -/
def determineXY (xd yd : Rat) (totalGrids : Nat) : Nat :=
  ((List.range' 1 totalGrids).foldl (tryRows xd yd totalGrids) (1, 1000)).1

namespace ThermalConfig

def isHMC (config : ThermalConfig) : Bool := config.protocol = .hmc

/-- `bank_x`. -/
def bankX (config : ThermalConfig) : Nat :=
  if config.isHMC then 1
  else if config.isHBM then 8
  else determineXY config.bankAsr 1 config.banks

/-- `bank_y`. -/
def bankY (config : ThermalConfig) : Nat :=
  if config.isHMC then 2
  else if config.isHBM then 2
  else config.banks / config.bankX

/-- `vault_x`, which is not set for the other protocols. -/
def vaultX (config : ThermalConfig) : Nat :=
  if config.isHMC then
    determineXY (config.bankX * config.bankAsr) config.bankY config.channels
  else 1

/-- `vault_y`. -/
def vaultY (config : ThermalConfig) : Nat :=
  if config.isHMC then config.channels / config.vaultX
  else if config.isHBM then 2
  else 1

/-- `numP`, the number of layers.  A stack has a logic layer. -/
def numP (config : ThermalConfig) : Nat :=
  if config.isHMC || config.isHBM then config.numDies + 1 else 1

/-- `dimX`. -/
def dimX (config : ThermalConfig) : Nat := config.vaultX * config.bankX * config.numXGrids

/-- `dimY`. -/
def dimY (config : ThermalConfig) : Nat := config.vaultY * config.bankY * config.numYGrids

/-- `MapToVault`. -/
def mapToVault (config : ThermalConfig) (channelId : Int) : Int × Int :=
  if config.isHMC then
    if config.bankOrder = 0 then
      (channelId.tmod config.vaultX, channelId.tdiv config.vaultX)
    else (channelId.tdiv config.vaultY, channelId.tmod config.vaultY)
  else if config.isHBM then (0, channelId.tmod 2)
  else (0, 0)

/-- `std::swap` of the coordinates when `bank_order` is zero. -/
def ordered (config : ThermalConfig) (xy : Int × Int) : Int × Int :=
  if config.bankOrder = 0 then xy.swap else xy

/-- The number of a bank within its rank. -/
def absBankId (config : ThermalConfig) (bankgroupId bankId : Int) : Int :=
  bankgroupId * config.banksPerGroup + bankId

/-- `num_bank_per_layer`. -/
def numBankPerLayer (config : ThermalConfig) : Int := (config.banks : Int).tdiv config.numDies

/-- `MapToBank`.  The bank is numbered within its group. -/
def mapToBank (config : ThermalConfig) (bankgroupId bankId : Int) : Int × Int :=
  let absBankId := config.absBankId bankgroupId bankId
  let bankFactor : Int := if config.bankOrder = 0 then config.bankX else config.bankY
  if config.isHMC then
    let bankSameLayer := absBankId.tmod config.numBankPerLayer
    config.ordered (bankSameLayer.tdiv bankFactor, bankSameLayer.tmod bankFactor)
  else if config.isHBM then (bankgroupId * 2 + bankId.tdiv 2, bankId.tmod 2)
  else if 1 < config.bankgroups then
    -- the banks of a group are two wide, and the groups follow each other in a line
    let xy := config.ordered (bankId.tdiv 2, bankId.tmod 2)
    if config.bankX ≤ config.bankY then (xy.1, xy.2 + bankgroupId * 2)
    else (xy.1 + bankgroupId * 2, xy.2)
  else config.ordered (absBankId.tdiv bankFactor, absBankId.tmod bankFactor)

/-- `MapToZ`. -/
def mapToZ (config : ThermalConfig) (channelId bankId : Int) : Int :=
  if config.isHMC then
    if config.bankLayerOrder = 0 then bankId.tdiv config.numBankPerLayer
    else config.numP - bankId.tdiv config.numBankPerLayer - 2
  else if config.isHBM then channelId.tdiv 2
  else 0

end ThermalConfig

/-! ## Location mapping -/

/-- The pieces that `std::getline` reads up to a delimiter.  `StringSplit` drops the empty ones. -/
def stringSplit (s : List Char) (delim : Char) : List (List Char) :=
  (s.splitOn delim).filter fun item => !item.isEmpty

/-- `GetBitInPos`. -/
def getBitInPos (bits : Nat) (pos : Nat) : Nat := (bits >>> pos) &&& 1

/-- `ModuloWidth`. -/
def moduloWidth (addr bitWidth pos : Nat) : Nat :=
  let store := addr >>> pos
  (store ^^^ ((store >>> bitWidth) <<< bitWidth)) % 2 ^ 32

/-- The ways in which `SetPhyAddressMapping` ends the process. -/
inductive LocationExit where
  /-- `loc_mapping should have 6 fields!`. -/
  | fieldCount
  /-- An exception of `std::stoi`. -/
  | stoi (error : TraceError)
deriving DecidableEq, Repr

/-- An `int` converted to `uint64_t`. -/
def toUInt64 (n : Int) : Nat := (n % 2 ^ 64).toNat

/-- `origin_pos`, with the fields of an address by their name. -/
def originPos (addr : Address) : MappingField → Int
  | .channel => addr.channel
  | .rank => addr.rank
  | .bankgroup => addr.bankgroup
  | .bank => addr.bank
  | .row => addr.row
  | .column => addr.column

/-- The positions `start:end`, both inclusive, in the direction in which they are written. -/
def expandRange (startPos endPos : Int) : List Int :=
  if startPos > endPos then
    (List.range (startPos - endPos + 1).toNat).map fun (k : Nat) => startPos - (k : Int)
  else (List.range (endPos - startPos + 1).toNat).map fun (k : Nat) => startPos + (k : Int)

/-- The positions that one of the items of a field stands for. -/
def itemPositions (item : List Char) : Except TraceError (List Int) :=
  match item.span (· ≠ ':') with
  | (_, []) => do
      let pos ← stoi item
      .ok [pos]
  | (before, _ :: after) => do
      let startPos ← stoi before
      let endPos ← stoi after
      .ok (expandRange startPos endPos)

/-- `mapped_pos[i]`. -/
def fieldPositions (bitField : List Char) : Except LocationExit (List Int) :=
  match (stringSplit bitField '-').mapM itemPositions with
  | .error error => .error (.stoi error)
  | .ok positions => .ok positions.flatten

/-- The bits of a field placed into `new_hex`.  The first position takes the highest bit. -/
def scatterField (newHex : Nat) (positions : List Int) (value : Int) : Nat :=
  positions.zipIdx.foldl
    (fun hex (pos, j) =>
      hex ||| (getBitInPos (toUInt64 value) (positions.length - j - 1) <<< pos.toNat))
    newHex

/-- `new_hex` after all fields. -/
def scatter (mappedPos : MappingField → List Int) (addr : Address) : Nat :=
  MappingField.all.foldl (fun hex f => scatterField hex (mappedPos f) (originPos addr f)) 0

/-- A `uint32_t` converted to `int`. -/
def toInt32 (n : Nat) : Int := if n < 2 ^ 31 then n else n - 2 ^ 32

/-- The value of a field read back. -/
def gatherField (newHex : Nat) (positions : List Int) (pos : Nat) : Int :=
  toInt32 (moduloWidth newHex positions.length pos)

/-- The function that `SetPhyAddressMapping` stores in `GetPhyAddress`. -/
def getPhyAddress (mappedPos : MappingField → List Int) (columnOffset : Nat) (addr : Address) :
    Address :=
  let newHex := scatter mappedPos addr
  let rowPos := columnOffset + (mappedPos .column).length
  let bankPos := rowPos + (mappedPos .row).length
  let bankgroupPos := bankPos + (mappedPos .bank).length
  let rankPos := bankgroupPos + (mappedPos .bankgroup).length
  let channelPos := rankPos + (mappedPos .rank).length
  { channel := gatherField newHex (mappedPos .channel) channelPos
    rank := gatherField newHex (mappedPos .rank) rankPos
    bankgroup := gatherField newHex (mappedPos .bankgroup) bankgroupPos
    bank := gatherField newHex (mappedPos .bank) bankPos
    row := gatherField newHex (mappedPos .row) rowPos
    column := gatherField newHex (mappedPos .column) columnOffset }

/-- `mapped_pos` by the name of the field. -/
def positionsOf (channel rank bankgroup bank row column : List Int) : MappingField → List Int
  | .channel => channel
  | .rank => rank
  | .bankgroup => bankgroup
  | .bank => bank
  | .row => row
  | .column => column

/-- `SetPhyAddressMapping`. -/
def ThermalConfig.setPhyAddressMapping (config : ThermalConfig) :
    Except LocationExit (Address → Address) :=
  if config.locMapping = [] then .ok id
  else
    match stringSplit config.locMapping ',' with
    | [channel, rank, bankgroup, bank, row, column] => do
        let channel ← fieldPositions channel
        let rank ← fieldPositions rank
        let bankgroup ← fieldPositions bankgroup
        let bank ← fieldPositions bank
        let row ← fieldPositions row
        let column ← fieldPositions column
        .ok (getPhyAddress (positionsOf channel rank bankgroup bank row column)
          (Config.logBase2 config.BL))
    | _ => .error .fieldCount

/-! ## Power maps -/

/-- A row of a bank that is charged with the energy of a refresh. -/
structure Charge where
  /-- The index `rank_idx` of the rank of the channel. -/
  rankIdx : Int
  /-- The bank within the rank, as `LocationMappingANDaddEnergy_RF` is given it. -/
  bank : Int
  row : Nat
deriving DecidableEq, Repr

/-- The state of `ThermalCalculator` that a command changes.  The maps are indexed by case and
cell. -/
structure ThermalCalculator where
  accuPmap : Int → Int → Rat
  curPmap : Int → Int → Rat
  /-- `refresh_count`, by `rank_idx` and bank. -/
  refreshCount : Int → Int → Nat
  /-- What `SetPhyAddressMapping` has stored. -/
  phyAddress : Address → Address
  /-- The calls of `LocationMappingANDaddEnergy_RF`, the oldest first.  They change nothing. -/
  charges : List Charge

namespace ThermalCalculator

/-- The state that the constructor leaves. -/
def initial (phyAddress : Address → Address) : ThermalCalculator where
  accuPmap := fun _ _ => 0
  curPmap := fun _ _ => 0
  refreshCount := fun _ _ => 0
  phyAddress := phyAddress
  charges := []

/-- The energy added to a cell of both maps. -/
def addEnergy (t : ThermalCalculator) (caseId idx : Int) (energy : Rat) : ThermalCalculator :=
  let add (map : Int → Int → Rat) : Int → Int → Rat := fun c i =>
    if c = caseId ∧ i = idx then map c i + energy else map c i
  { t with accuPmap := add t.accuPmap, curPmap := add t.curPmap }

/-- `MapToXY`, as the list of the cells. -/
def mapToXY (config : ThermalConfig) (t : ThermalCalculator) (cmd : Command)
    (vault bank : Int × Int) : List (Int × Int) :=
  let rowId := cmd.addr.row
  let colTileId := rowId.tdiv config.tileRowNum
  let gridIdX := (rowId.tdiv config.matDimX).tdiv config.rowTile
  (List.range config.BL).flatMap fun (i : Nat) =>
    let phyLoc := t.phyAddress { cmd.addr with column := cmd.addr.column + i }
    let colId := phyLoc.column * config.deviceWidth
    (List.range config.deviceWidth).map fun (j : Nat) =>
      let gridIdY := (colId + j).tdiv config.matDimY +
        colTileId * (config.numYGrids / config.rowTile : Nat)
      (vault.1 * (config.bankX * config.numXGrids : Nat) + bank.1 * config.numXGrids + gridIdX,
        vault.2 * (config.bankY * config.numYGrids : Nat) + bank.2 * config.numYGrids + gridIdY)

/-- `LocationMappingANDaddEnergy`.  Its arguments `bank0` and `row0` are not read. -/
def locationMappingANDaddEnergy (config : ThermalConfig) (t : ThermalCalculator)
    (channel : Int) (cmd : Command) (caseId : Int) (addEnergy : Rat) : ThermalCalculator :=
  let vault := config.mapToVault channel
  let bank := config.mapToBank cmd.addr.bankgroup cmd.addr.bank
  let z := config.mapToZ channel cmd.addr.bank
  let zOffset := z * config.dimX * config.dimY
  let energy := addEnergy / config.deviceWidth
  (t.mapToXY config cmd vault bank).foldl
    (fun t xy => t.addEnergy caseId (zOffset + xy.2 * config.dimX + xy.1) energy) t

/-- `rank_idx`. -/
def rankIdx (config : ThermalConfig) (channel rank : Int) : Int := channel * config.ranks + rank

/-- `LocationMappingANDaddEnergy_RF`. -/
def locationMappingANDaddEnergyRF (config : ThermalConfig) (t : ThermalCalculator)
    (channel : Int) (cmd : Command) (bank0 : Int) (row0 : Nat) (caseId : Int) (addEnergy : Rat) :
    ThermalCalculator :=
  let bankgroupId := bank0.tdiv config.banksPerGroup
  let bankId := bank0.tmod config.banksPerGroup
  let newAddr := { cmd.addr with row := row0, bankgroup := bankgroupId, bank := bankId }
  let vault := config.mapToVault channel
  let bank := config.mapToBank bankgroupId bankId
  let z := config.mapToZ channel bankId
  let rowId := (t.phyAddress newAddr).row
  -- the column is zero: a refresh reaches all units
  let colTileId := rowId.tdiv config.tileRowNum
  let gridIdX := (rowId.tdiv config.matDimX).tdiv config.rowTile
  let gridIdY := colTileId * (config.numYGrids / config.rowTile : Nat)
  let x := vault.1 * (config.bankX * config.numXGrids : Nat) + bank.1 * config.numXGrids + gridIdX
  let y := vault.2 * (config.bankY * config.numYGrids : Nat) + bank.2 * config.numYGrids + gridIdY
  let zOffset := z * (config.dimX * config.dimY : Nat)
  let charged := (List.range config.numYGrids).foldl
    (fun t (i : Nat) => t.addEnergy caseId (zOffset + (y + i) * config.dimX + x) addEnergy) t
  { charged with
    charges := charged.charges ++ [⟨rankIdx config channel cmd.addr.rank, bank0, row0⟩] }

/-- The counter of a bank after a refresh.  It starts again when it has reached the last row. -/
def advance (config : ThermalConfig) (count : Nat) : Nat :=
  if (count + 1) * config.numRowRefresh = config.rows then 0 else count + 1

/-- The refresh of one bank, as both commands do it. -/
def refreshOne (config : ThermalConfig) (t : ThermalCalculator) (channel : Int) (cmd : Command)
    (ib caseId : Int) (energy : Rat) : ThermalCalculator :=
  let rankIdx := rankIdx config channel cmd.addr.rank
  let count := t.refreshCount rankIdx ib
  let t := { t with
    refreshCount := fun r b =>
      if r = rankIdx ∧ b = ib then advance config count else t.refreshCount r b }
  (List.range' (count * config.numRowRefresh) config.numRowRefresh).foldl
    (fun t ir => t.locationMappingANDaddEnergyRF config channel cmd ib ir caseId energy) t

/-- The energy of a command that is not a refresh. -/
def commandEnergy (config : ThermalConfig) : CommandType → Rat
  | .activate => config.actEnergyInc
  | .read => config.readEnergyInc
  | .readPrecharge => config.readEnergyInc
  | .write => config.writeEnergyInc
  | .writePrecharge => config.writeEnergyInc
  | _ => 0

/-- `device_scale`. -/
def deviceScale (config : ThermalConfig) : Rat :=
  if config.isHMC || config.isHBM then 1 else config.devicesPerRank

/-- `case_id`. -/
def caseId (config : ThermalConfig) (channel rank : Int) : Int :=
  if config.isHMC || config.isHBM then 0 else channel * config.ranks + rank

/-- `UpdateCMDPower`. -/
def updateCMDPower (config : ThermalConfig) (t : ThermalCalculator) (channel : Int)
    (cmd : Command) : ThermalCalculator :=
  let caseId := caseId config channel cmd.addr.rank
  let scaled (energy : Rat) := energy / 1000 / deviceScale config
  match cmd.cmdType with
  | .refresh =>
      let energy := config.refEnergyInc / config.numRowRefresh / config.banks / config.numYGrids
      (List.range config.banks).foldl
        (fun t (ib : Nat) => t.refreshOne config channel cmd ib caseId (scaled energy)) t
  | .refreshBank =>
      let energy := config.refbEnergyInc / config.numRowRefresh / config.numYGrids
      t.refreshOne config channel cmd cmd.addr.bank caseId (scaled energy)
  | cmdType =>
      let energy := commandEnergy config cmdType
      if energy > 0 then
        t.locationMappingANDaddEnergy config channel cmd caseId (scaled (energy / config.BL))
      else t

end ThermalCalculator

end Dramsim
