import Dramsim.Library.Strict
import Dramsim.Memory.Runs

/-!
# Long runs of the memory system

A state keeps its banks as a function, to which every command adds an update.  For runs of
many cycles `replayStrict` evaluates the state after each step, with the banks that the run
uses.  It computes what `replayFrom` does.
-/

namespace Dramsim

open Library (Strict)
open Library.Strict (force memo)

instance : Strict CommandType := Strict.ofList
  [.read, .readPrecharge, .write, .writePrecharge, .activate, .precharge, .refreshBank, .refresh,
    .srefEnter, .srefExit, .lhRead, .lhReadPrecharge, .ghRead, .ghReadPrecharge, .pimWrite,
    .pimWritePrecharge, .pimActivate]

instance : Strict BankState.State := Strict.ofList [.opened, .closed, .sref, .pd]

instance : Strict IwStatus := Strict.ofList [.loading, .loaded, .streaming, .streamed]

instance : Strict Address where
  force a k :=
    force a.channel fun channel => force a.rank fun rank => force a.bankgroup fun bankgroup =>
    force a.bank fun bank => force a.row fun row => force a.column fun column =>
    k ⟨channel, rank, bankgroup, bank, row, column⟩
  force_eq a k := by simp

instance : Strict Command where
  force cmd k :=
    force cmd.cmdType fun cmdType => force cmd.addr fun addr => force cmd.hexAddr fun hexAddr =>
    k ⟨cmdType, addr, hexAddr⟩
  force_eq cmd k := by simp

instance : Strict Transaction where
  force trans k :=
    force trans.addr fun addr => force trans.isWrite fun isWrite =>
    force trans.addedCycle fun addedCycle => force trans.completeCycle fun completeCycle =>
    k ⟨addr, isWrite, addedCycle, completeCycle⟩
  force_eq trans k := by simp

instance : Strict Cut where
  force c k :=
    force c.baseRowsW fun baseRowsW => force c.baseRowsIn fun baseRowsIn =>
    force c.baseRowsOut fun baseRowsOut => force c.M fun M => force c.N fun N =>
    force c.K fun K => force c.MIt fun MIt => force c.NIt fun NIt =>
    force c.KTileIt fun KTileIt => force c.MOutIt fun MOutIt =>
    force c.NOutTileIt fun NOutTileIt => force c.inPim fun inPim =>
    force c.iwStatus fun iwStatus => force c.inActPlaced fun inActPlaced =>
    force c.wActPlaced fun wActPlaced => force c.outActPlaced fun outActPlaced =>
    force c.outputValid fun outputValid => force c.inCnt fun inCnt =>
    force c.outCnt fun outCnt => force c.vpuCnt fun vpuCnt =>
    k {
      baseRowsW, baseRowsIn, baseRowsOut, M, N, K, MIt, NIt, KTileIt, MOutIt, NOutTileIt
      inPim, iwStatus, inActPlaced, wActPlaced, outActPlaced, outputValid, inCnt, outCnt, vpuCnt }
  force_eq c k := by simp

instance : Strict Dataflow where
  force d k :=
    force d.vcuts fun vcuts => force d.hcuts fun hcuts => force d.mcf fun mcf =>
    force d.ucf fun ucf => force d.mc fun mc => force d.df fun df =>
    force d.mTileSize fun mTileSize => k { vcuts, hcuts, mcf, ucf, mc, df, mTileSize }
  force_eq d k := by simp

/-- The types of which the times are evaluated: those that PIM kernels and refreshes use. -/
def timedTypes : List CommandType :=
  [.lhRead, .lhReadPrecharge, .ghRead, .ghReadPrecharge, .pimWrite, .pimWritePrecharge,
    .pimActivate, .precharge, .refresh]

instance : Strict BankState where
  force b k :=
    force b.state fun state => force b.openRow fun openRow =>
    force b.rowHitCount fun rowHitCount => memo b.cmdTiming timedTypes fun cmdTiming =>
    k { state, cmdTiming, openRow, rowHitCount }
  force_eq b k := by simp

namespace JedecDRAMSystem

variable {config : Config} {α : Type}

section

variable (banks : List BankIndex)

def forceChannel (ch : ChannelState) (k : ChannelState → α) : α :=
  memo ch.bankStates banks fun bankStates => force ch.refreshQ fun refreshQ =>
  memo ch.fourAw [0] fun fourAw => memo ch.rankIsSref [0] fun rankIsSref =>
  k { ch with bankStates, refreshQ, fourAw, rankIsSref }

def forceQueue (q : CommandQueue config) (k : CommandQueue config → α) : α :=
  memo q.queues [0] fun queues => force q.refQIndices fun refQIndices =>
  force q.isInRef fun isInRef => force q.queueIdx fun queueIdx => force q.clk fun clk =>
  k { q with queues, refQIndices, isInRef, queueIdx, clk }

def forceRefresh (r : Refresh config) (k : Refresh config → α) : α :=
  force r.clk fun clk => force r.nextRank fun nextRank => force r.nextBg fun nextBg =>
  force r.nextBank fun nextBank => k { clk, nextRank, nextBg, nextBank }

def forceController (ctrl : Controller config) (k : Controller config → α) : α :=
  force ctrl.rdInCmds fun rdInCmds => force ctrl.rdWCmds fun rdWCmds =>
  force ctrl.wrCmds fun wrCmds => force ctrl.releaseTime fun releaseTime =>
  force ctrl.wrMultitenant fun wrMultitenant => force ctrl.inPim fun inPim =>
  force ctrl.clk fun clk => forceChannel banks ctrl.channelState fun channelState =>
  forceQueue ctrl.cmdQueue fun cmdQueue => forceRefresh ctrl.refresh fun refresh =>
  force ctrl.unifiedQueue fun unifiedQueue => force ctrl.readQueue fun readQueue =>
  force ctrl.writeBuffer fun writeBuffer => force ctrl.pendingRdQ fun pendingRdQ =>
  force ctrl.pendingWrQ fun pendingWrQ => force ctrl.returnQueue fun returnQueue =>
  force ctrl.writeDraining fun writeDraining =>
  k { ctrl with
    rdInCmds, rdWCmds, wrCmds, releaseTime, wrMultitenant, inPim, clk, channelState, cmdQueue
    refresh, unifiedQueue, readQueue, writeBuffer, pendingRdQ, pendingWrQ, returnQueue
    writeDraining }

def forceControllers : List (Controller config) → (List (Controller config) → α) → α
  | [], k => k []
  | ctrl :: rest, k =>
      forceController banks ctrl fun ctrl => forceControllers rest fun rest => k (ctrl :: rest)

def forceSystem (s : JedecDRAMSystem config) (k : JedecDRAMSystem config → α) : α :=
  force s.clk fun clk => forceControllers banks s.ctrls fun ctrls =>
  force s.dataflow fun dataflow => force s.cuts fun cuts =>
  force s.pimTransQueue fun pimTransQueue => force s.turnOff fun turnOff =>
  k { s with clk, ctrls, dataflow, cuts, pimTransQueue, turnOff }

theorem forceControllers_eq (ctrls : List (Controller config))
    (k : List (Controller config) → α) : forceControllers banks ctrls k = k ctrls := by
  induction ctrls generalizing k with
  | nil => rfl
  | cons ctrl rest ih =>
      rw [forceControllers]
      simp [forceController, forceChannel, forceQueue, forceRefresh, ih]

theorem forceSystem_eq (s : JedecDRAMSystem config) (k : JedecDRAMSystem config → α) :
    forceSystem banks s k = k s := by
  simp [forceSystem, forceControllers_eq]

/-- Run a list of operations and evaluate the state after each. -/
def replayStrict (cond : JedecDRAMSystem config → SystemOp → Bool) :
    List SystemOp → JedecDRAMSystem config → Option (JedecDRAMSystem config)
  | [], s => some s
  | op :: ops, s =>
      match if cond s op then s.perform op else none with
      | some s => forceSystem banks s fun s => replayStrict cond ops s
      | none => none

end

theorem replayStrict_eq (banks : List BankIndex) (cond : JedecDRAMSystem config → SystemOp → Bool)
    (ops : List SystemOp) (s : JedecDRAMSystem config) :
    replayStrict banks cond ops s = replayFrom cond ops s := by
  induction ops generalizing s with
  | nil => rfl
  | cons op ops ih =>
      rw [replayStrict, replayFrom, Library.System.replay]
      generalize (if cond s op then s.perform op else none) = next
      cases next with
      | none => rfl
      | some s' =>
          dsimp only
          rw [forceSystem_eq]
          exact ih s'

end JedecDRAMSystem

end Dramsim
