import Dramsim.Model.Controller
import Mathlib.Data.List.FinRange
import Mathlib.Logic.Function.Basic

/-!
# Hybrid Memory Cube

`class HMCMemorySystem`: requests enter at a link, cross to one of four quads and go on to
a vault, and responses come back the same way.  The crossbar works in the cycles of the logic
die, the vaults in those of the DRAM.

The response of a request is made when the request enters, and waits in `resp_lookup_table_`
until a vault returns the address.  The two arbiters do not look at the queues but at the age
counters to see which of them hold something.

The vaults are controllers.  The memory system uses four of their operations (`Vault`).
`front()` of an empty queue and the dereference of a missing entry of `resp_lookup_table_` are
undefined in the source and errors here.
-/

namespace Dramsim

/-! ## Packets -/

/-- `enum class HMCReqType`. -/
inductive HMCReqType where
  | rd0 | rd16 | rd32 | rd48 | rd64 | rd80 | rd96 | rd112 | rd128 | rd256
  | wr0 | wr16 | wr32 | wr48 | wr64 | wr80 | wr96 | wr112 | wr128 | wr256
  | pWr16 | pWr32 | pWr48 | pWr64 | pWr80 | pWr96 | pWr112 | pWr128 | pWr256
  | add8 | add16 | p2Add8 | pAdd16 | adds8R | adds16R | inc8 | pInc8
  | xor16 | or16 | nor16 | and16 | nand16
  | casgt8 | casgt16 | caslt8 | caslt16 | caseq8 | caszero16
  | eq8 | eq16 | bwr | pBwr | bwr8R | swap16
  | size
deriving DecidableEq, Repr

/-- `enum class HMCRespType`, the values that a response can have. -/
inductive HMCRespType where
  | none | rdRs | wrRs
deriving DecidableEq, Repr

/-- The ways in which the memory system ends the process. -/
inductive HMCExit where
  /-- `AbruptExit` for a type or a block size that is not supported. -/
  | unsupported
  /-- `front()` of an empty queue. -/
  | emptyQueue
  /-- `find` in `resp_lookup_table_` without success. -/
  | noResponse
  /-- An exit of a vault. -/
  | vault (e : Exit)
deriving DecidableEq, Repr

namespace HMCReqType

/-- `type >= HMCReqType::WR0 && type <= HMCReqType::P_WR256`. -/
def isWrite : HMCReqType → Bool
  | .wr0 | .wr16 | .wr32 | .wr48 | .wr64 | .wr80 | .wr96 | .wr112 | .wr128 | .wr256
  | .pWr16 | .pWr32 | .pWr48 | .pWr64 | .pWr80 | .pWr96 | .pWr112 | .pWr128 | .pWr256 => true
  | _ => false

/-- The flits of a request. -/
def requestFlits : HMCReqType → Except HMCExit Nat
  | .rd0 | .wr0 => .ok 0
  | .rd16 | .rd32 | .rd48 | .rd64 | .rd80 | .rd96 | .rd112 | .rd128 | .rd256 => .ok 1
  | .wr16 | .pWr16 => .ok 2
  | .wr32 | .pWr32 => .ok 3
  | .wr48 | .pWr48 => .ok 4
  | .wr64 | .pWr64 => .ok 5
  | .wr80 | .pWr80 => .ok 6
  | .wr96 | .pWr96 => .ok 7
  | .wr112 | .pWr112 => .ok 8
  | .wr128 | .pWr128 => .ok 9
  | .wr256 | .pWr256 => .ok 17
  | .add8 | .add16 | .p2Add8 | .pAdd16 | .adds8R | .adds16R => .ok 2
  | .inc8 | .pInc8 => .ok 1
  | .xor16 | .or16 | .nor16 | .and16 | .nand16 | .casgt8 | .casgt16 | .caslt8 | .caslt16
  | .caseq8 | .caszero16 => .ok 2
  | .eq8 | .eq16 | .bwr | .pBwr | .bwr8R | .swap16 => .ok 2
  | .size => .error .unsupported

/-- The type and the flits of a response. -/
def response : HMCReqType → Except HMCExit (HMCRespType × Nat)
  | .rd0 => .ok (.rdRs, 0)
  | .rd16 => .ok (.rdRs, 2)
  | .rd32 => .ok (.rdRs, 3)
  | .rd48 => .ok (.rdRs, 4)
  | .rd64 => .ok (.rdRs, 5)
  | .rd80 => .ok (.rdRs, 6)
  | .rd96 => .ok (.rdRs, 7)
  | .rd112 => .ok (.rdRs, 8)
  | .rd128 => .ok (.rdRs, 9)
  | .rd256 => .ok (.rdRs, 17)
  | .wr0 => .ok (.wrRs, 0)
  | .wr16 | .wr32 | .wr48 | .wr64 | .wr80 | .wr96 | .wr112 | .wr128 | .wr256 => .ok (.wrRs, 1)
  | .pWr16 | .pWr32 | .pWr48 | .pWr64 | .pWr80 | .pWr96 | .pWr112 | .pWr128 | .pWr256 =>
      .ok (.none, 0)
  | .add8 | .add16 => .ok (.wrRs, 1)
  | .p2Add8 | .pAdd16 => .ok (.none, 0)
  | .adds8R | .adds16R => .ok (.rdRs, 2)
  | .inc8 => .ok (.wrRs, 1)
  | .pInc8 => .ok (.none, 0)
  | .xor16 | .or16 | .nor16 | .and16 | .nand16 | .casgt8 | .casgt16 | .caslt8 | .caslt16
  | .caseq8 | .caszero16 => .ok (.rdRs, 2)
  | .eq8 | .eq16 | .bwr => .ok (.wrRs, 1)
  | .pBwr => .ok (.none, 0)
  | .bwr8R | .swap16 => .ok (.rdRs, 2)
  | .size => .error .unsupported

/-- The type of a transaction of `AddTransaction`, by `block_size`. -/
def ofBlock (blockSize : Nat) (isWrite : Bool) : Except HMCExit HMCReqType :=
  match blockSize, isWrite with
  | 0, true => .ok .wr0
  | 32, true => .ok .wr32
  | 64, true => .ok .wr64
  | 128, true => .ok .wr128
  | 256, true => .ok .wr256
  | 0, false => .ok .rd0
  | 32, false => .ok .rd32
  | 64, false => .ok .rd64
  | 128, false => .ok .rd128
  | 256, false => .ok .rd256
  | _, _ => .error .unsupported

end HMCReqType

/-! ## Configuration -/

/-- `ps_per_dram_`. -/
def psPerDram : Nat := 800

/-- `HMCMemorySystem::SetClockRatio`: the length of a logic cycle.  It is zero where the source
divides by zero, and where its loop over the logic cycles would not end. -/
def psPerLogic (linkWidth linkSpeed : Nat) : Nat :=
  let linkCyclesPerFlit := 128 / linkWidth
  let logicSpeed := linkSpeed / linkCyclesPerFlit
  min psPerDram (1000000 / logicSpeed)

/-- The configuration of a cube.  Defaults are those of `configuration.cc`. -/
structure HMCConfig extends Config where
  numLinks : Nat := 4
  linkWidth : Nat := 16
  linkSpeed : Nat := 15000
  blockSize : Nat := 64
  xbarQueueDepth : Nat := 16
  channels_pos : 0 < channels
  numLinks_pos : 0 < numLinks
  psPerLogic_pos : 0 < psPerLogic linkWidth linkSpeed

namespace HMCConfig

theorem getChannel_lt (config : HMCConfig) (hexAddr : Nat) :
    config.getChannel hexAddr < config.channels := by
  have h : Config.field (hexAddr >>> config.shiftBits) config.chPos
      (Config.logBase2 config.channels) < config.channels :=
    Config.field_lt config.channels_pos
  exact Int.ofNat_lt.mp h

/-- The vault of an address. -/
def vaultOf (config : HMCConfig) (hexAddr : Nat) : Fin config.channels :=
  ⟨config.getChannel hexAddr, config.getChannel_lt hexAddr⟩

end HMCConfig

/-- `class HMCRequest`, for a cube with `vaults` vaults. -/
structure HMCRequest (vaults : Nat) where
  type : HMCReqType
  memOperand : Nat
  quad : Fin 4
  vault : Fin vaults
  flits : Nat
  isWrite : Bool
  exitTime : Nat := 0

/-- The constructor of `HMCRequest`. -/
def HMCRequest.create {vaults : Nat} (type : HMCReqType) (hexAddr : Nat) (vault : Fin vaults) :
    Except HMCExit (HMCRequest vaults) := do
  let flits ← type.requestFlits
  .ok {
    type := type
    memOperand := hexAddr
    quad := Fin.ofNat 4 vault
    vault := vault
    flits := flits
    isWrite := type.isWrite }

/-- `class HMCResponse`, for a cube with `links` links. -/
structure HMCResponse (links : Nat) where
  respId : Nat
  type : HMCRespType
  link : Fin links
  quad : Fin 4
  flits : Nat
  exitTime : Nat := 0

/-- The constructor of `HMCResponse`. -/
def HMCResponse.create {links : Nat} (id : Nat) (type : HMCReqType) (link : Fin links)
    (quad : Fin 4) : Except HMCExit (HMCResponse links) := do
  let (type, flits) ← type.response
  .ok { respId := id, type := type, link := link, quad := quad, flits := flits }

/-! ## Vaults -/

/-- What the memory system uses of a vault controller. -/
structure Vault (σ : Type) where
  willAcceptTransaction : σ → Nat → Bool → Bool
  addTransaction : σ → Nat → Bool → σ
  /-- What the calls of `ReturnDoneTrans` in a cycle return, until nothing is left. -/
  returnDone : σ → Nat → List (Nat × Bool) × σ
  clockTick : σ → Except Exit σ

/-- The loop over `ReturnDoneTrans`.  Each round takes one transaction from the return queue. -/
def Controller.returnAllDone {config : Config} (clk : Nat) :
    Nat → Controller config → List (Nat × Bool) × Controller config
  | 0, s => ([], s)
  | n + 1, s =>
      match s.returnDoneTrans clk with
      | (some it, s) =>
          let (rest, s) := returnAllDone clk n s
          (it :: rest, s)
      | (none, s) => ([], s)

/-- A controller as a vault. -/
def controllerVault (config : Config) : Vault (Controller config) where
  willAcceptTransaction s _ isWrite := s.willAcceptTransaction isWrite
  addTransaction s hexAddr isWrite := s.addTransaction { addr := hexAddr, isWrite := isWrite }
  returnDone s clk := s.returnAllDone clk s.returnQueue.length
  clockTick := Controller.clockTick

/-- `class HMCMemorySystem`.  `callbacks` are the calls of `read_callback_` and
`write_callback_`, the latter with the flag set. -/
structure HMCMemorySystem (config : HMCConfig) (σ : Type) where
  ctrls : Fin config.channels → σ
  clk : Nat := 0
  logicClk : Nat := 0
  logicPs : Nat := 0
  dramPs : Nat := 0
  nextLink : Fin config.numLinks := ⟨0, config.numLinks_pos⟩
  respLookupTable : List (HMCResponse config.numLinks) := []
  linkReqQueues : Fin config.numLinks → List (HMCRequest config.channels) := fun _ => []
  linkRespQueues : Fin config.numLinks → List (HMCResponse config.numLinks) := fun _ => []
  quadReqQueues : Fin 4 → List (HMCRequest config.channels) := fun _ => []
  quadRespQueues : Fin 4 → List (HMCResponse config.numLinks) := fun _ => []
  linkBusy : Fin config.numLinks → Int := fun _ => 0
  quadBusy : Fin 4 → Int := fun _ => 0
  linkAgeCounter : Fin config.numLinks → Nat := fun _ => 0
  quadAgeCounter : Fin 4 → Nat := fun _ => 0
  callbacks : List (Nat × Bool) := []

namespace HMCMemorySystem

variable {config : HMCConfig} {σ : Type}

/-! ## Requests in -/

/-- `HMCMemorySystem::WillAcceptTransaction`. -/
def willAcceptTransaction (s : HMCMemorySystem config σ) : Bool :=
  (List.finRange config.numLinks).any fun link =>
    (s.linkReqQueues link).length < config.xbarQueueDepth

/-- `HMCMemorySystem::IterateNextLink`. -/
def iterateNextLink (s : HMCMemorySystem config σ) : HMCMemorySystem config σ :=
  { s with
    nextLink := ⟨(s.nextLink + 1) % config.numLinks, Nat.mod_lt _ config.numLinks_pos⟩ }

/-- `HMCMemorySystem::InsertReqToLink`. -/
def insertReqToLink (s : HMCMemorySystem config σ) (req : HMCRequest config.channels)
    (link : Fin config.numLinks) : Except HMCExit (Bool × HMCMemorySystem config σ) :=
  if (s.linkReqQueues link).length < config.xbarQueueDepth then do
    let resp ← HMCResponse.create req.memOperand req.type link req.quad
    .ok (true, { s with
      linkReqQueues := Function.update s.linkReqQueues link (s.linkReqQueues link ++ [req])
      respLookupTable := s.respLookupTable ++ [resp]
      linkAgeCounter := Function.update s.linkAgeCounter link 1 })
  else .ok (false, s)

/-- The loop of `InsertHMCReq` over the other links.  It is back at the link `start` after at
most `numLinks` rounds. -/
def insertFrom (req : HMCRequest config.channels) (start : Fin config.numLinks) :
    Nat → HMCMemorySystem config σ → Except HMCExit (Bool × HMCMemorySystem config σ)
  | 0, s => .ok (false, s)
  | n + 1, s =>
      if start = s.nextLink then .ok (false, s)
      else do
        let (inserted, s) ← s.insertReqToLink req s.nextLink
        if inserted then .ok (true, s.iterateNextLink)
        else insertFrom req start n s.iterateNextLink

/-- `HMCMemorySystem::InsertHMCReq`. -/
def insertHMCReq (s : HMCMemorySystem config σ) (req : HMCRequest config.channels) :
    Except HMCExit (Bool × HMCMemorySystem config σ) := do
  let start := s.nextLink
  let (inserted, s) ← s.insertReqToLink req s.nextLink
  if inserted then .ok (true, s.iterateNextLink)
  else insertFrom req start config.numLinks s.iterateNextLink

/-- `HMCMemorySystem::AddTransaction`. -/
def addTransaction (s : HMCMemorySystem config σ) (hexAddr : Nat) (isWrite : Bool) :
    Except HMCExit (Bool × HMCMemorySystem config σ) := do
  let type ← HMCReqType.ofBlock config.blockSize isWrite
  let req ← HMCRequest.create type hexAddr (config.vaultOf hexAddr)
  s.insertHMCReq req

/-! ## Arbitration -/

/-- Where a position goes in the age queue.  The age is compared with the positions. -/
def insertByAge {n : Nat} (age : Int) (pos : Fin n) : List (Fin n) → List (Fin n)
  | [] => [pos]
  | it :: rest => if (it : Int) < age then pos :: it :: rest else it :: insertByAge age pos rest

/-- The positions start with another one in each cycle. -/
def rotated {n : Nat} (logicClk : Nat) (i : Fin n) : Fin n :=
  ⟨(i + logicClk % n) % n, Nat.mod_lt _ (Nat.zero_lt_of_lt i.isLt)⟩

/-- `HMCMemorySystem::BuildAgeQueue`. -/
def buildAgeQueue {n : Nat} (logicClk : Nat) (ageCounter : Fin n → Int) : List (Fin n) :=
  (List.finRange n).foldl (fun queue (i : Fin n) =>
    let pos := rotated logicClk i
    if 0 < ageCounter pos then insertByAge (ageCounter pos) pos queue else queue) []

/-- The crossbar moves two flits of a packet in a cycle. -/
def drainXbar {n : Nat} (busy : Fin n → Int) : Fin n → Int :=
  fun i => if 0 < busy i then busy i - 2 else busy i

/-! ## Requests to the vaults -/

/-- A request leaves its quad for the vault. -/
def drainQuad (vault : Vault σ) (s : HMCMemorySystem config σ) (i : Fin 4) :
    HMCMemorySystem config σ :=
  match s.quadReqQueues i with
  | [] => s
  | req :: rest =>
      if (s.quadRespQueues i).length < config.xbarQueueDepth ∧ req.exitTime ≤ s.logicClk ∧
          vault.willAcceptTransaction (s.ctrls req.vault) req.memOperand req.isWrite then
        { s with
          ctrls := Function.update s.ctrls req.vault
            (vault.addTransaction (s.ctrls req.vault) req.memOperand req.isWrite)
          quadReqQueues := Function.update s.quadReqQueues i rest }
      else s

/-- A request crosses from its link to its quad, or gets older. -/
def drainLink (s : HMCMemorySystem config σ) (srcLink : Fin config.numLinks) :
    Except HMCExit (HMCMemorySystem config σ) :=
  match s.linkReqQueues srcLink with
  | [] => .error .emptyQueue
  | req :: rest =>
      if (s.quadReqQueues req.quad).length < config.xbarQueueDepth ∧ s.quadBusy req.quad ≤ 0 then
        .ok { s with
          linkReqQueues := Function.update s.linkReqQueues srcLink rest
          quadReqQueues := Function.update s.quadReqQueues req.quad
            (s.quadReqQueues req.quad ++ [{ req with exitTime := s.logicClk + req.flits }])
          quadBusy := Function.update s.quadBusy req.quad req.flits
          linkAgeCounter := Function.update s.linkAgeCounter srcLink
            (if rest.isEmpty then 0 else 1) }
      else
        .ok { s with
          linkAgeCounter :=
            Function.update s.linkAgeCounter srcLink (s.linkAgeCounter srcLink + 1) }

/-- `HMCMemorySystem::DrainRequests`. -/
def drainRequests (vault : Vault σ) (s : HMCMemorySystem config σ) :
    Except HMCExit (HMCMemorySystem config σ) :=
  let s := (List.finRange 4).foldl (drainQuad vault) s
  let s := { s with quadBusy := drainXbar s.quadBusy }
  (buildAgeQueue s.logicClk fun i => s.linkAgeCounter i).foldlM drainLink s

/-! ## Responses to the links -/

/-- The first response of a link is handed to the callback of its kind. -/
def answer (s : HMCMemorySystem config σ) (i : Fin config.numLinks) : HMCMemorySystem config σ :=
  match s.linkRespQueues i with
  | [] => s
  | resp :: rest =>
      if resp.exitTime ≤ s.logicClk then
        { s with
          callbacks := s.callbacks ++ [(resp.respId, decide (resp.type ≠ .rdRs))]
          linkRespQueues := Function.update s.linkRespQueues i rest }
      else s

/-- A response crosses from its quad to its link, or gets older. -/
def drainQuadResponse (s : HMCMemorySystem config σ) (srcQuad : Fin 4) :
    Except HMCExit (HMCMemorySystem config σ) :=
  match s.quadRespQueues srcQuad with
  | [] => .error .emptyQueue
  | resp :: rest =>
      if (s.linkRespQueues resp.link).length < config.xbarQueueDepth ∧ s.linkBusy resp.link ≤ 0 then
        .ok { s with
          quadRespQueues := Function.update s.quadRespQueues srcQuad rest
          linkRespQueues := Function.update s.linkRespQueues resp.link
            (s.linkRespQueues resp.link ++ [{ resp with exitTime := s.logicClk + resp.flits }])
          linkBusy := Function.update s.linkBusy resp.link resp.flits
          quadAgeCounter := Function.update s.quadAgeCounter srcQuad
            (if rest.isEmpty then 0 else 1) }
      else
        .ok { s with
          quadAgeCounter :=
            Function.update s.quadAgeCounter srcQuad (s.quadAgeCounter srcQuad + 1) }

/-- `HMCMemorySystem::DrainResponses`. -/
def drainResponses (s : HMCMemorySystem config σ) : Except HMCExit (HMCMemorySystem config σ) :=
  let s := (List.finRange config.numLinks).foldl answer s
  let s := { s with linkBusy := drainXbar s.linkBusy }
  (buildAgeQueue s.logicClk fun i => s.quadAgeCounter i).foldlM drainQuadResponse s

/-! ## The DRAM cycle -/

/-- `HMCMemorySystem::VaultCallback`. -/
def vaultCallback (s : HMCMemorySystem config σ) (reqId : Nat) :
    Except HMCExit (HMCMemorySystem config σ) :=
  match s.respLookupTable.find? fun resp => resp.respId = reqId with
  | none => .error .noResponse
  | some resp =>
      .ok { s with
        respLookupTable := s.respLookupTable.eraseP fun resp => resp.respId = reqId
        quadRespQueues := Function.update s.quadRespQueues resp.quad
          (s.quadRespQueues resp.quad ++ [resp])
        quadAgeCounter := Function.update s.quadAgeCounter resp.quad 1 }

/-- The completed transactions of a vault. -/
def returnVault (vault : Vault σ) (s : HMCMemorySystem config σ) (i : Fin config.channels) :
    Except HMCExit (HMCMemorySystem config σ) :=
  let (done, ctrl) := vault.returnDone (s.ctrls i) s.clk
  done.foldlM (fun s it => s.vaultCallback it.1)
    { s with ctrls := Function.update s.ctrls i ctrl }

/-- The tick of a vault. -/
def tickVault (vault : Vault σ) (s : HMCMemorySystem config σ) (i : Fin config.channels) :
    Except HMCExit (HMCMemorySystem config σ) := do
  let ctrl ← (vault.clockTick (s.ctrls i)).mapError .vault
  .ok { s with ctrls := Function.update s.ctrls i ctrl }

/-- `HMCMemorySystem::DRAMClockTick`. -/
def dramClockTick (vault : Vault σ) (s : HMCMemorySystem config σ) :
    Except HMCExit (HMCMemorySystem config σ) := do
  let s ← (List.finRange config.channels).foldlM (returnVault vault) s
  let s ← (List.finRange config.channels).foldlM (tickVault vault) s
  .ok { s with clk := s.clk + 1 }

/-! ## The clocks -/

/-- The logic clock advances. -/
def advanceLogic (s : HMCMemorySystem config σ) : HMCMemorySystem config σ :=
  { s with
    logicPs := s.logicPs + psPerLogic config.linkWidth config.linkSpeed
    logicClk := s.logicClk + 1 }

/-- The loop over the logic cycles of a DRAM cycle.  Each round takes some picoseconds of those
that are left. -/
def logicTicks (vault : Vault σ) : Nat → HMCMemorySystem config σ →
    Except HMCExit (HMCMemorySystem config σ)
  | 0, s => .ok s
  | n + 1, s =>
      if s.logicPs < s.dramPs + psPerDram then do
        let s ← s.drainResponses
        let s ← s.drainRequests vault
        logicTicks vault n s.advanceLogic
      else .ok s

/-- The DRAM cycle of a tick, within a logic cycle where the two clocks meet. -/
def meetClocks (vault : Vault σ) (s : HMCMemorySystem config σ) :
    Except HMCExit (HMCMemorySystem config σ) :=
  if s.dramPs = s.logicPs then do
    let s ← s.drainResponses
    let s ← s.dramClockTick vault
    let s ← s.drainRequests vault
    .ok s.advanceLogic
  else s.dramClockTick vault

/-- `HMCMemorySystem::ClockTick`. -/
def clockTick (vault : Vault σ) (s : HMCMemorySystem config σ) :
    Except HMCExit (HMCMemorySystem config σ) := do
  let s ← s.meetClocks vault
  let s ← logicTicks vault (s.dramPs + psPerDram - s.logicPs) s
  .ok { s with dramPs := s.dramPs + psPerDram }

end HMCMemorySystem

end Dramsim
