import Dramsim.Model.Controller

/-!
# The memory system and its PIM scheduler

`class JedecDRAMSystem` owns one controller for each channel.  Ordinary transactions
go to the controller of their channel.  PIM words are queued, and configure and launch
a matrix multiplication, which `ClockTick` then schedules: it loads a tile of weights
into the array, streams the inputs of a tile through it and writes the outputs back.
Each stage asks the controllers of all channels for the command that the next access
needs, and pushes the answers into their PIM streams if the stage can go on.

The array can be partitioned into cuts.  The vectors that hold one value for each cut
(`M`, `N_it`, `iw_status`, ...) have the same length, and are one list of records here.
The column offsets and `M_out` are products that leave the range of `int` for large
dimensions, and wrap as they do in the source.  A sum of products is wrapped once, at its
end, which is the same.  The iterators and the ends of the tiles are integers: they stay
within `int` while a dimension and a tile together do.  The assertions of the source are
compiled out of the default build and have no effect.

The field `log` is not in the source.  It records what the scheduler has pushed and
the two messages that it prints, and is never read by it.
-/

namespace Dramsim

/-! ## Data -/

/-- The values of `iw_status`. -/
inductive IwStatus where
  /-- 0: weights are loaded into the registers of the array. -/
  | loading
  /-- 1: the weights of a tile are loaded. -/
  | loaded
  /-- 2: inputs are streamed into the array. -/
  | streaming
  /-- 3: the inputs of a tile have been streamed. -/
  | streamed
deriving DecidableEq, Repr

/-- The dataflow configuration of `JedecDRAMSystem`. -/
structure Dataflow where
  vcuts : Int := -1
  hcuts : Int := -1
  mcf : Int := 1
  ucf : Int := 1
  mc : Int := 1
  df : Int := -1
  mTileSize : Int := 0
deriving DecidableEq, Repr

/-- One entry of the vectors of `JedecDRAMSystem`: the workload of a cut, the iterators
of its scheduler and the status of its part of the array. -/
structure Cut where
  baseRowsW : Nat := 0
  baseRowsIn : Nat := 0
  baseRowsOut : Nat := 0
  M : Int := 0
  N : Int := 0
  K : Int := 0
  MIt : Int := 0
  NIt : Int := 0
  KTileIt : Int := 0
  MOutIt : Int := 0
  NOutTileIt : Int := 0
  inPim : Bool := false
  iwStatus : IwStatus := .loading
  inActPlaced : Bool := false
  wActPlaced : Bool := false
  outActPlaced : Bool := false
  outputValid : Int := 0
  inCnt : Int := 0
  outCnt : Int := -1
  vpuCnt : Int := 0
deriving DecidableEq, Repr

/-- The PIM streams of a controller. -/
inductive Stream where
  | weights
  | inputs
  | outputs
deriving DecidableEq, Repr

/-- What the scheduler of a system has done. -/
inductive SystemEvent where
  /-- The commands of one stage of a tick are pushed. -/
  | dispatched (clk : Nat) (cut : Nat) (stream : Stream) (cmds : List Command)
  /-- `End of Computation` is printed. -/
  | endOfComputation (cut : Nat)
  /-- The last command of an output tile is pushed. -/
  | tileWritten (cut : Nat)
  /-- `Output Exhausted` is printed and the PIM mode turned off. -/
  | outputExhausted (cut : Nat)
deriving DecidableEq, Repr

/-- `class JedecDRAMSystem`. -/
structure JedecDRAMSystem (config : Config) where
  clk : Nat := 0
  ctrls : List (Controller config) := List.replicate config.channels {}
  dataflow : Dataflow := {}
  cuts : List Cut := []
  pimTransQueue : List Nat := []
  turnOff : Bool := false
  log : List SystemEvent := []

/-! ## Tiles and addresses -/

namespace Dataflow

variable (config : Config) (d : Dataflow) (i : Nat) (c : Cut)

def vcutNo : Int := (i : Int).tmod d.vcuts

def hcutNo : Int := (i : Int).tdiv d.vcuts

def cutHeight : Int := (config.channels : Int).tdiv d.hcuts

def cutWidth : Int := (config.banks : Int).tdiv d.vcuts

/-- `config_.columns / config_.BL`, the column commands of a row. -/
def rowColumns : Int := (config.columns / config.BL : Nat)

def nTileSize : Int := (128 : Int).tdiv d.vcuts

def nTileIt : Int := c.NIt.tdiv d.nTileSize

def mTileIt : Int := c.MIt.tdiv d.mTileSize

def mCurrentTileSize : Int :=
  if c.M < d.mTileSize * (d.mTileIt c + 1) then c.M.tmod d.mTileSize else d.mTileSize

def kTileSize : Int := min (d.cutHeight config * 16) c.K

/-- `(K[i] - 1) / K_tile_size + 1`. -/
def kTiles : Int := (c.K - 1).tdiv (d.kTileSize config c) + 1

/-- The address of a column in a bank that is given by its number in the rank. -/
def address (channel bk bankOffset baseRow colOffset : Int) : Address where
  channel := channel
  rank := 0
  bankgroup := bk.tdiv config.banksPerGroup
  bank := bk.tmod config.banksPerGroup + bankOffset
  row := toInt (baseRow + colOffset.tdiv (rowColumns config))
  column := colOffset.tmod (rowColumns config)

/-- A command for an address of the PIM scheduler. -/
def command (cmdType : CommandType) (addr : Address) : Command :=
  ⟨cmdType, addr, config.addressUnmapping addr⟩

/-- The banks that a loop over `k` visits in one channel. -/
def loop (bound : Int) : List Nat := List.range bound.toNat

/-! ### Weights -/

def weightBanksReduce : Int := if d.df = 0 then 8 else 16

/-- `cut_width / weight_banks_reduce`, the banks that hold weights. -/
def weightBanks : Int := (d.cutWidth config).tdiv d.weightBanksReduce

def nTileSizePerBank : Int := min c.N ((d.nTileSize - 1).tdiv (d.weightBanks config) + 1)

/-- The last weight of a tile: the bank has given its share of `n` weights. -/
def lastWeight (n : Int) : Prop :=
  n.tmod (d.nTileSizePerBank config c) = 0 ∧
    (d.nTileSize = d.nTileSizePerBank config c ∨ n.tmod d.nTileSize ≠ 0)

instance (n : Int) : Decidable (d.lastWeight config c n) := inferInstanceAs (Decidable (_ ∧ _))

/-- The offset of the weight stage before it is stored. -/
def weightOffset : Int :=
  d.nTileIt c * (d.nTileSizePerBank config c * d.kTiles config c) +
    c.KTileIt * d.nTileSizePerBank config c + c.NIt.tmod d.nTileSize

/-- `col_offset` of the weight stage, an `int`. -/
def weightColOffset : Int := toInt (d.weightOffset config c)

def weightAddress (j k : Nat) : Address :=
  address config (d.hcutNo i * d.cutHeight config + j)
    (d.vcutNo i * d.cutWidth config + k * d.weightBanksReduce) 0 c.baseRowsW
    (d.weightColOffset config c)

/-- The columns after which a weight read closes the row. -/
def weightRun : Int := min c.N ((128 : Int).tdiv config.banks * d.weightBanksReduce)

def weightType : CommandType :=
  let column := (d.weightColOffset config c).tmod (rowColumns config)
  if (column + 1).tmod (d.weightRun config c) = 0 ∨ (column + 1).tmod (rowColumns config) = 0 ∨
      d.lastWeight config c (c.NIt + 1) then
    .ghReadPrecharge
  else .ghRead

/-- The commands that the loops of the weight stage ask for. -/
def weightTargets : List Command :=
  (loop (d.cutHeight config)).flatMap fun j =>
    (loop (d.weightBanks config)).map fun k =>
      command config (d.weightType config c) (d.weightAddress config i c j k)

/-! ### Inputs -/

/-- The offset of the streaming stage before it is stored. -/
def inputOffset : Int :=
  d.mTileIt c * (d.mTileSize * d.kTiles config c) + c.KTileIt * d.mCurrentTileSize c +
    c.MIt.tmod d.mTileSize

/-- `col_offset` of the streaming stage. -/
def inputColOffset : Int := toInt (d.inputOffset config c)

def inputAddress (j k : Nat) : Address :=
  address config (d.hcutNo i * d.cutHeight config + j)
    (d.vcutNo i * d.cutWidth config + k * (d.cutWidth config).tdiv d.mc +
      if d.df = 0 then 1 else 0) 0 c.baseRowsIn (d.inputColOffset config c)

def readType : CommandType := if d.df = 0 then .ghRead else .lhRead

def readpType : CommandType := if d.df = 0 then .ghReadPrecharge else .lhReadPrecharge

/-- `(K_tile_it[i] + 1) * K_tile_size >= K[i]`. -/
def lastKTile : Prop := c.K ≤ (c.KTileIt + 1) * d.kTileSize config c

instance : Decidable (d.lastKTile config c) := inferInstanceAs (Decidable (_ ≤ _))

/-- `close3`: the row is closed after the last input. -/
def closesInput : Prop :=
  if d.df = 0 then d.lastKTile config c ∧ c.MIt + 1 = c.M else c.MIt + 1 = c.M

instance : Decidable (d.closesInput config c) :=
  inferInstanceAs (Decidable (if d.df = 0 then d.lastKTile config c ∧ c.MIt + 1 = c.M
    else c.MIt + 1 = c.M))

def inputType : CommandType :=
  if d.closesInput config c ∨
      (d.inputColOffset config c).tmod (rowColumns config) = rowColumns config - 1 then
    d.readpType
  else d.readType

/-- The commands that the loops of the streaming stage ask for, by channel. -/
def inputTargets : List (List Command) :=
  (loop (d.cutHeight config)).map fun j =>
    (loop d.mc).map fun k =>
      command config (d.inputType config c) (d.inputAddress config i c j k)

/-! ### Outputs -/

def mTileSizeOut : Int := if d.df = 1 then d.mTileSize.tdiv 128 * d.mcf else d.mTileSize

def mOutTileIt : Int := c.MOutIt.tdiv d.mTileSizeOut

def mOut : Int := if d.df = 1 then max 1 ((toInt (c.M * d.mcf)).tdiv 128) else c.M

def mOutCurrentTileSize : Int :=
  if d.mOut c < d.mTileSizeOut * (d.mOutTileIt c + 1) then (d.mOut c).tmod d.mTileSizeOut
  else d.mTileSizeOut

def nOut : Int := if d.df = 1 then 128 else c.N

def nTileSizeOut : Int := if d.df = 1 then 128 else d.nTileSize

/-- `N_tile_num_ch`, the tiles of a row of tiles that go to one group of channels. -/
def nTileNumCh : Int :=
  let nTileNum := (c.N - 1).tdiv d.nTileSizeOut + 1
  nTileNum.tdiv d.vcuts + if c.NOutTileIt.tmod d.vcuts < nTileNum.tmod d.vcuts then 1 else 0

/-- The offset of the output stage before it is stored. -/
def outputOffset : Int :=
  d.mOutTileIt c * (d.mTileSizeOut * d.nTileNumCh c) +
    c.NOutTileIt.tdiv d.vcuts * d.mOutCurrentTileSize c + c.MOutIt.tmod d.mTileSizeOut

/-- `col_offset` of the output stage. -/
def outputColOffset : Int := toInt (d.outputOffset c)

def vcutOutNo : Int :=
  if c.M = 1 then d.vcutNo i
  else if d.vcuts = 16 then (d.vcutNo i).tdiv 2
  else (d.vcutNo i + c.NOutTileIt).tmod d.vcuts

def cutHeightOut : Int :=
  if d.cutHeight config < d.vcuts then 1 else (d.cutHeight config).tdiv d.vcuts

def outputAddress (j k : Nat) : Address :=
  address config
    (d.hcutNo i * d.cutHeight config + d.vcutOutNo i c * d.cutHeightOut config + j)
    (d.vcutNo i * d.cutWidth config + k * (d.cutWidth config).tdiv d.mc +
      if d.df ≠ 1 then 1 else 0) (if d.df = 0 then 2 else 0) c.baseRowsOut (d.outputColOffset c)

def outputType : CommandType :=
  if c.MOutIt + 1 = d.mOut c ∨
      (d.outputColOffset c).tmod (rowColumns config) = rowColumns config - 1 then
    .pimWritePrecharge
  else .pimWrite

/-- The commands that the loops of the output stage ask for. -/
def outputTargets : List Command :=
  (loop (d.cutHeightOut config)).flatMap fun j =>
    (loop (if d.df = 1 then 1 else d.mc)).map fun k =>
      command config (d.outputType config c) (d.outputAddress config i c j k)

/-- `out_enable`. -/
def outEnable : Prop := 0 < (d.cutHeight config).tdiv d.vcuts ∨ (d.vcutNo i).tmod 2 = 0

instance : Decidable (d.outEnable config i) := inferInstanceAs (Decidable (_ ∨ _))

/-! ### Iterators -/

/-- The iterators after a weight. -/
def nextWeight : Cut :=
  if d.lastWeight config c (c.NIt + 1) then
    { c with NIt := d.nTileSize * d.nTileIt c, iwStatus := .loaded }
  else { c with NIt := c.NIt + 1 }

/-- The array works for some cycles on the last input of a tile. -/
def inDelay : Int :=
  max 1 (config.tCCD_L * max ((128 : Int).tdiv (d.vcuts * d.mc)) 16 - config.tRCDRD)

/-- The first output of a tile is ready after some cycles. -/
def outDelay : Int := max 1 (config.tCCD_L * (3 + 16) - config.tRCDWR)

/-- The iterators after the last input of a tile, and whether it was the last one of
all. -/
def nextTile : Cut × Bool :=
  let tile : Cut :=
    { c with
      inCnt := d.inDelay config, iwStatus := .streamed
      MIt := d.mTileSize * d.mTileIt c, KTileIt := c.KTileIt + 1 }
  if c.K ≤ (c.KTileIt + 1) * d.kTileSize config c then
    let nIt := d.nTileSize * (d.nTileIt c + 1)
    if c.N ≤ nIt then
      let mIt := d.mTileSize * (d.mTileIt c + 1)
      let tile := { tile with KTileIt := 0, NIt := 0, MIt := mIt }
      if c.M ≤ mIt then ({ tile with inCnt := -1 }, true) else (tile, false)
    else ({ tile with KTileIt := 0, NIt := nIt }, false)
  else (tile, false)

/-- The iterators after an input. -/
def nextInput : Cut × Bool :=
  let c' : Cut :=
    if d.lastKTile config c ∧ c.MIt.tmod d.mTileSize = 0 then { c with outCnt := outDelay config }
    else c
  if (c.MIt + 1).tmod d.mTileSize = 0 ∨ c.MIt + 1 = c.M then d.nextTile config c'
  else ({ c' with MIt := c.MIt + 1 }, false)

/-- How far the output stage has come. -/
inductive Written where
  /-- The tile goes on. -/
  | column
  /-- The tile is complete. -/
  | tile
  /-- The last tile is complete. -/
  | all
deriving DecidableEq, Repr

/-- The iterators after an output. -/
def nextOutput : Cut × Written :=
  if (c.MOutIt + 1).tmod d.mTileSizeOut = 0 ∨ c.MOutIt + 1 = d.mOut c then
    if d.nOut c ≤ (c.NOutTileIt + 1) * d.nTileSizeOut then
      let mOutIt := d.mTileSizeOut * (d.mOutTileIt c + 1)
      ({ c with MOutIt := mOutIt, NOutTileIt := 0 }, if d.mOut c ≤ mOutIt then .all else .tile)
    else
      ({ c with MOutIt := d.mTileSizeOut * d.mOutTileIt c, NOutTileIt := c.NOutTileIt + 1 }, .tile)
  else ({ c with MOutIt := c.MOutIt + 1 }, .column)

end Dataflow

namespace JedecDRAMSystem

variable {config : Config}

/-! ## Transactions -/

/-- `JedecDRAMSystem::WillAcceptTransaction()`. -/
def willAcceptPim (s : JedecDRAMSystem config) : Bool := s.pimTransQueue.length < 32

/-- `JedecDRAMSystem::AddTransaction(hex_addr)`, after `WillAcceptTransaction()`. -/
def addPim (s : JedecDRAMSystem config) (hexAddr : Nat) : JedecDRAMSystem config :=
  { s with pimTransQueue := s.pimTransQueue ++ [hexAddr] }

/-- `JedecDRAMSystem::WillAcceptTransaction(hex_addr, is_write)`. -/
def willAcceptTransaction (s : JedecDRAMSystem config) (hexAddr : Nat) (isWrite : Bool) : Bool :=
  (s.ctrls[config.getChannel hexAddr]?).any fun ctrl => ctrl.willAcceptTransaction isWrite

/-- `JedecDRAMSystem::AddTransaction(hex_addr, is_write)`, after
`WillAcceptTransaction(hex_addr, is_write)`. -/
def addTransaction (s : JedecDRAMSystem config) (hexAddr : Nat) (isWrite : Bool) :
    JedecDRAMSystem config :=
  { s with
    ctrls := s.ctrls.modify (config.getChannel hexAddr) fun ctrl =>
      ctrl.addTransaction { addr := hexAddr, isWrite := isWrite } }

/-- The loop that returns the completed transactions of a controller.  Each round
takes one from its return queue. -/
def returnDone (clk : Nat) : Nat → Controller config → Controller config
  | 0, ctrl => ctrl
  | n + 1, ctrl =>
      match ctrl.returnDoneTrans clk with
      | (some _, ctrl) => returnDone clk n ctrl
      | (none, ctrl) => ctrl

/-! ## PIM words -/

/-- A bit field of a PIM word. -/
def bits (addr pos width : Nat) : Nat := (addr >>> pos) &&& (2 ^ width - 1)

/-- The number of cuts. -/
def numCuts (d : Dataflow) : Nat :=
  if d.vcuts ≠ -1 ∧ d.hcuts ≠ -1 then (d.vcuts * d.hcuts).toNat else 0

/-- The launch of a computation.  The word is kept until every cut is launched and
configured. -/
def launch (s : JedecDRAMSystem config) (addr : Nat) (rest : List Nat) :
    Except Exit (JedecDRAMSystem config) :=
  let launched (i : Nat) : Bool := (addr >>> 1).testBit i
  let cuts := List.range (s.dataflow.vcuts * s.dataflow.hcuts).toNat
  if cuts.any fun i => launched i && s.cuts.length ≤ i then .error .outOfRange
  else
    let configured := cuts.all fun i =>
      launched i && (s.cuts[i]?).any fun c => c.M ≠ 0 && c.N ≠ 0 && c.K ≠ 0
    let s := { s with ctrls := s.ctrls.map fun ctrl => { ctrl with inPim := true } }
    if configured then
      .ok { s with
        cuts := s.cuts.mapIdx fun i c => if launched i then { c with inPim := true } else c
        pimTransQueue := rest }
    else .ok s

/-- The dataflow configuration that a word holds. -/
def decodeDataflow (addr : Nat) : Dataflow where
  vcuts := 2 ^ bits addr 7 3
  hcuts := 2 ^ bits addr 10 1
  mcf := 2 ^ bits addr 11 3
  ucf := 2 ^ bits addr 14 3
  mc := 2 ^ bits addr 11 3 * 2 ^ bits addr 14 3
  df := bits addr 17 1
  mTileSize := 2 ^ bits addr 18 4

/-- Loading a dataflow configuration, which clears the workload and the iterators. -/
def loadDataflow (s : JedecDRAMSystem config) (addr : Nat) (rest : List Nat) :
    JedecDRAMSystem config :=
  let d := decodeDataflow addr
  { s with
    dataflow := d
    cuts := List.replicate (numCuts d) {}
    ctrls :=
      if 1 < d.vcuts * d.hcuts then s.ctrls.map fun ctrl => { ctrl with wrMultitenant := true }
      else s.ctrls
    pimTransQueue := rest }

/-- The dimension and the base row that a word sets, by its load type. -/
def loadInto (addr : Nat) (c : Cut) : Except Exit Cut :=
  let dimValue := toInt (bits addr 7 32)
  let baseRow := bits addr 39 22
  match bits addr 5 2 with
  | 0 => .ok { c with baseRowsW := baseRow, M := dimValue }
  | 1 => .ok { c with baseRowsOut := baseRow, K := dimValue }
  | 2 => .ok { c with baseRowsIn := baseRow, N := dimValue }
  | _ => .error .invalidLoadType

/-- Loading a part of the workload of a cut. -/
def loadWorkload (s : JedecDRAMSystem config) (addr : Nat) (rest : List Nat) :
    Except Exit (JedecDRAMSystem config) :=
  let cutNo := bits addr 1 4
  match s.cuts[cutNo]? with
  | none => .error .outOfRange
  | some c => do
      let c ← loadInto addr c
      .ok { s with cuts := s.cuts.set cutNo c, pimTransQueue := rest }

/-- Whether a word is a launch, by its lowest bit, or a dataflow configuration, by its
load type. -/
def isLaunch (addr : Nat) : Bool := addr.testBit 0
def isDataflow (addr : Nat) : Bool := !isLaunch addr && (addr.testBit 6 && addr.testBit 5)

/-- The first PIM word is taken. -/
def popPim (s : JedecDRAMSystem config) : Except Exit (JedecDRAMSystem config) :=
  match s.pimTransQueue with
  | [] => .ok s
  | addr :: rest =>
      if isLaunch addr then s.launch addr rest
      else if isDataflow addr then .ok (s.loadDataflow addr rest)
      else s.loadWorkload addr rest

/-! ## Asking the controllers -/

/-- `ctrls_[ch]->GetReadyCommand(cmd, clk_)`. -/
def getReadyCommand (s : JedecDRAMSystem config) (cmd : Command) : Except Exit (Option Command) :=
  match s.ctrls[cmd.addr.channel.toNat]? with
  | none => .error .outOfRange
  | some ctrl => ctrl.channelState.getReadyCommand config cmd s.clk

/-- The loops of the weight and output stages.  A command that is not ready or differs
from the first one flushes all. -/
def gather (s : JedecDRAMSystem config) (cmds : List Command) :
    List Command → Except Exit (List Command)
  | [] => .ok cmds
  | cmd :: rest => do
      match ← s.getReadyCommand cmd with
      | none => .ok []
      | some ready =>
          let cmds := cmds ++ [ready]
          if cmds.head?.any fun first => first.cmdType ≠ ready.cmdType then .ok []
          else gather s cmds rest

/-- The inner loop of the streaming stage.  A command that is not ready flushes all and
ends the loop over the banks of its channel.  The flag is `mixed`. -/
def gatherBanks (s : JedecDRAMSystem config) :
    List Command → List Command × Bool → Except Exit (List Command × Bool)
  | [], acc => .ok acc
  | cmd :: rest, (cmds, mixed) => do
      match ← s.getReadyCommand cmd with
      | none => .ok ([], mixed)
      | some ready =>
          let cmds := cmds ++ [ready]
          gatherBanks s rest
            (cmds, mixed || cmds.head?.any fun first => first.cmdType ≠ ready.cmdType)

/-- The loops of the streaming stage, which goes on with the next channel. -/
def gatherInputs (s : JedecDRAMSystem config) (targets : List (List Command)) :
    Except Exit (List Command × Bool) :=
  targets.foldlM (fun acc cmds => s.gatherBanks cmds acc) ([], false)

/-- A division by one of the numbers. -/
def divideBy (divisors : List Int) : Except Exit Unit :=
  if 0 ∈ divisors then .error .divisionByZero else .ok ()

/-! ## The stages of a cut -/

/-- `case 0`: a weight is loaded.  The result is the cut and `w_cmds`. -/
def loadWeights (s : JedecDRAMSystem config) (i : Nat) (c : Cut) (waitRefresh : Bool) :
    Except Exit (Cut × List Command) := do
  let d := s.dataflow
  divideBy [d.weightBanks config, d.kTileSize config c]
  let targets := d.weightTargets config i c
  if targets ≠ [] then
    divideBy [Dataflow.rowColumns config, d.nTileSizePerBank config c, d.weightRun config c]
  let cmds ← s.gather [] targets
  match cmds with
  | [] => .ok (c, [])
  | first :: _ =>
      if first.cmdType = .pimActivate then
        if c.wActPlaced || waitRefresh then .ok (c, [])
        else .ok ({ c with wActPlaced := true }, cmds)
      else
        let c := if first.cmdType = .ghReadPrecharge then { c with wActPlaced := false } else c
        if d.df = 1 ∧ first.cmdType = .precharge then .ok (c, cmds)
        else .ok (d.nextWeight config c, cmds)

/-- `case 1`: the stage goes on at once. -/
def finishLoading (s : JedecDRAMSystem config) (i : Nat) (c : Cut) : Cut :=
  let cuts := s.cuts.set i { c with iwStatus := .streaming }
  if numCuts s.dataflow = 1 ∧ cuts.any fun c => c.iwStatus = .loading || c.iwStatus = .streamed then
    { c with vpuCnt := 1 }
  else { c with iwStatus := .streaming, vpuCnt := 1 }

/-- Where the answers differ, the reads among them are dropped. -/
def dropReads (d : Dataflow) (mixed : Bool) (cmds : List Command) : List Command :=
  if mixed then cmds.filter fun cmd => !(cmd.cmdType = d.readType || cmd.cmdType = d.readpType)
  else cmds

/-- `case 2`: an input is streamed.  The result is the cut, `in_cmds` and whether the
end of the computation is printed. -/
def streamInputs (s : JedecDRAMSystem config) (i : Nat) (c : Cut) (waitRefresh : Bool) :
    Except Exit (Cut × List Command × Bool) := do
  let d := s.dataflow
  let c := { c with vpuCnt := max 0 (c.vpuCnt - 1) }
  divideBy [d.kTileSize config c]
  let targets := d.inputTargets config i c
  if targets.flatten ≠ [] then divideBy [Dataflow.rowColumns config]
  let (cmds, mixed) ← s.gatherInputs targets
  if 1 < numCuts d ∧ (cmds.length : Int) ≠ d.cutHeight config then .ok (c, [], false)
  else
    let cmds := dropReads d mixed cmds
    match cmds with
    | [] => .ok (c, [], false)
    | first :: _ =>
        if first.cmdType = .pimActivate then
          if c.inActPlaced || waitRefresh then .ok (c, [], false)
          else .ok ({ c with inActPlaced := true }, cmds, false)
        else
          let c := if first.cmdType = d.readpType then { c with inActPlaced := false } else c
          if c.vpuCnt ≠ 0 then .ok (c, [], false)
          else
            let (c, ended) := d.nextInput config c
            .ok (c, cmds, ended)

/-- `case 3`: the array is waited for. -/
def awaitArray (c : Cut) : Cut :=
  if c.inCnt = -1 then c
  else
    let c := { c with inCnt := max 0 (c.inCnt - 1) }
    if c.inCnt = 0 ∧ c.outputValid = 0 then { c with iwStatus := .loading } else c

/-- The countdown of the output that the array is working on. -/
def countOutput (c : Cut) : Cut :=
  let c := if c.outCnt = 0 then { c with outputValid := c.outputValid + 1 } else c
  if c.outCnt ≠ -1 then { c with outCnt := c.outCnt - 1 } else c

/-- The output stage.  The result is the cut, `out_cmds` and how far the stage has
come. -/
def writeOutputs (s : JedecDRAMSystem config) (i : Nat) (c : Cut) (waitRefresh : Bool) :
    Except Exit (Cut × List Command × Dataflow.Written) := do
  let d := s.dataflow
  divideBy [d.mTileSizeOut, d.nTileSizeOut]
  let targets := d.outputTargets config i c
  if targets ≠ [] then divideBy [Dataflow.rowColumns config]
  let cmds ← s.gather [] targets
  match cmds with
  | [] => .ok (c, [], .column)
  | first :: _ =>
      if first.cmdType = .pimActivate then
        if c.outActPlaced || waitRefresh then .ok (c, [], .column)
        else .ok ({ c with outActPlaced := true }, cmds, .column)
      else
        let c := if first.cmdType = .pimWritePrecharge then { c with outActPlaced := false } else c
        let (c, written) := d.nextOutput c
        .ok (c, cmds, written)

/-! ## A clock tick -/

/-- The commands of a stage go to the controllers of their channels. -/
def push (s : JedecDRAMSystem config) (i : Nat) (stream : Stream) (cmds : List Command) :
    JedecDRAMSystem config :=
  let pushOne (ctrls : List (Controller config)) (cmd : Command) : List (Controller config) :=
    ctrls.modify cmd.addr.channel.toNat fun ctrl =>
      match stream with
      | .weights => { ctrl with rdWCmds := ctrl.rdWCmds ++ [cmd] }
      | .inputs =>
          { ctrl with
            rdInCmds := ctrl.rdInCmds ++ [cmd], releaseTime := ctrl.releaseTime ++ [toInt s.clk] }
      | .outputs => { ctrl with wrCmds := ctrl.wrCmds ++ [cmd] }
  { s with
    ctrls := cmds.foldl pushOne s.ctrls
    log := if cmds = [] then s.log else s.log ++ [.dispatched s.clk i stream cmds] }

/-- Change a cut. -/
def setCut (s : JedecDRAMSystem config) (i : Nat) (c : Cut) : JedecDRAMSystem config :=
  { s with cuts := s.cuts.set i c }

/-- Add to the record of events. -/
def record (s : JedecDRAMSystem config) (e : SystemEvent) : JedecDRAMSystem config :=
  { s with log := s.log ++ [e] }

/-- The stage that a cut is in. -/
def inputStage (s : JedecDRAMSystem config) (i : Nat) (c : Cut) (waitRefresh : Bool) :
    Except Exit (Cut × List Command × List Command × Bool) :=
  match c.iwStatus with
  | .loading => do
      let (c, cmds) ← s.loadWeights i c waitRefresh
      .ok (c, cmds, [], false)
  | .loaded => .ok (s.finishLoading i c, [], [], false)
  | .streaming => do
      let (c, cmds, ended) ← s.streamInputs i c waitRefresh
      .ok (c, [], cmds, ended)
  | .streamed => .ok (awaitArray c, [], [], false)

/-- The end of an output tile.  Two narrow cuts share their outputs. -/
def finishTile (s : JedecDRAMSystem config) (i : Nat) (written : Dataflow.Written) :
    Except Exit (JedecDRAMSystem config) :=
  let both := s.dataflow.cutHeight config < s.dataflow.vcuts
  if written = .column then .ok s
  else if both ∧ s.cuts.length ≤ i + 1 then .error .outOfRange
  else
    let tile (f : Cut → Cut) (s : JedecDRAMSystem config) : JedecDRAMSystem config :=
      { s with cuts := if both then (s.cuts.modify i f).modify (i + 1) f else s.cuts.modify i f }
    let s :=
      if written = .all then
        let s := tile (fun c => { c with inPim := false }) s
        { s with turnOff := s.cuts.all fun c => !c.inPim }.record (.outputExhausted i)
      else s
    .ok ((tile (fun c => { c with outputValid := c.outputValid - 1 }) s).record (.tileWritten i))

/-- The schedule of one cut. -/
def scheduleCut (waitRefresh isInRef : Bool) (s : JedecDRAMSystem config) (i : Nat) :
    Except Exit (JedecDRAMSystem config) :=
  match s.cuts[i]? with
  | none => .error .outOfRange
  | some c =>
      if !c.inPim || isInRef then .ok s
      else do
        let outputReady := c.iwStatus = .streamed
        let (c, wCmds, inCmds, ended) ← s.inputStage i c waitRefresh
        let c := countOutput c
        let s := if ended then s.record (.endOfComputation i) else s
        if 0 < c.outputValid ∧ outputReady ∧ s.dataflow.outEnable config i then do
          let (c, outCmds, written) ← s.writeOutputs i c waitRefresh
          let s ← (s.setCut i c).finishTile i written
          .ok (((s.push i .weights wCmds).push i .inputs inCmds).push i .outputs outCmds)
        else .ok (((s.setCut i c).push i .weights wCmds).push i .inputs inCmds)

/-- Refreshes are near. -/
def waitRefresh (s : JedecDRAMSystem config) : Bool :=
  (s.ctrls.any fun ctrl => ctrl.refresh.pimRefreshComing) &&
    (s.dataflow.vcuts ≠ -1 && s.dataflow.hcuts ≠ -1)

/-- Rows are closed by a refresh, so no activate counts as placed. -/
def clearFlags (s : JedecDRAMSystem config) : JedecDRAMSystem config :=
  { s with
    cuts := s.cuts.map fun c =>
      { c with inActPlaced := false, wActPlaced := false, outActPlaced := false } }

/-- A refresh is on its way or about to be. -/
def isInRef (s : JedecDRAMSystem config) : Bool :=
  s.ctrls.any fun ctrl => ctrl.cmdQueue.isInRef || ctrl.refresh.pimRefreshComing2

/-- `ClockTick` up to the clock ticks of the controllers. -/
def schedule (s : JedecDRAMSystem config) : Except Exit (JedecDRAMSystem config) := do
  let s := { s with
    ctrls := s.ctrls.map fun (ctrl : Controller config) =>
      returnDone s.clk ctrl.returnQueue.length ctrl }
  let waitRefresh := s.waitRefresh
  let s := if waitRefresh then s.clearFlags else s
  let s ← s.popPim
  (List.range (numCuts s.dataflow)).foldlM (scheduleCut waitRefresh s.isInRef) s

/-- `JedecDRAMSystem::ClockTick`. -/
def clockTick (s : JedecDRAMSystem config) : Except Exit (JedecDRAMSystem config) := do
  let s ← s.schedule
  let ctrls ← s.ctrls.mapM Controller.clockTick
  .ok { s with ctrls := ctrls, clk := s.clk + 1 }

end JedecDRAMSystem

end Dramsim
