import Dramsim.Model.CommandQueue
import Dramsim.Model.Refresh

/-!
# The controller of a channel

`class Controller` takes transactions into its queues, turns them into commands
and issues at most one command a cycle, or two for HBM.  Three further streams
hold the commands of PIM kernels, which take the slot of the ordinary commands
while there are any.

The multimaps `pending_rd_q_` and `pending_wr_q_` are keyed by the address of the
transaction they hold, and are lists of transactions here.  A vector that reserved
`trans_queue_size` entries has that capacity.

The field `log` is not in the source.  It records what a controller has been
asked and has done, and is never read by it.
-/

namespace Dramsim

/-- What a controller has been asked and has done. -/
inductive Event where
  /-- `AddTransaction`; a read is forwarded when a pending write answers it. -/
  | accepted (trans : Transaction) (forwarded : Bool)
  /-- `GetCommandToIssue` has removed a column command from its queue. -/
  | erased (cmd : Command)
  /-- `IssueCommand`, with the reads of the address that are pending then. -/
  | issued (clk : Nat) (cmd : Command) (waiting : List Transaction)
  /-- `ReturnDoneTrans` has returned a transaction. -/
  | returned (addr : Nat) (isWrite : Bool)
deriving DecidableEq, Repr

/-- The counters of `SimpleStats` that a controller increments by commands and
completions. -/
inductive Counter where
  | numReadsDone | numWritesDone | hbmDualCmds
  | numReadCmds | numReadRowHits | numWriteCmds | numWriteRowHits
  | numLhReadCmds | numLhReadRowHits | numGhReadCmds | numGhReadRowHits
  | numPimWriteCmds | numPimWriteRowHits
  | numActCmds | numPreCmds | numRefCmds | numRefbCmds | numSrefeCmds | numSrefxCmds
deriving DecidableEq, Repr

/-- `class Controller`. -/
structure Controller (config : Config) where
  rdInCmds : List Command := []
  rdWCmds : List Command := []
  wrCmds : List Command := []
  releaseTime : List Int := []
  wrMultitenant : Bool := false
  inPim : Bool := false
  clk : Nat := 0
  simpleStats : Counter → Nat := fun _ => 0
  channelState : ChannelState := {}
  cmdQueue : CommandQueue config := {}
  refresh : Refresh config := {}
  unifiedQueue : List Transaction := []
  readQueue : List Transaction := []
  writeBuffer : List Transaction := []
  pendingRdQ : List Transaction := []
  pendingWrQ : List Transaction := []
  returnQueue : List Transaction := []
  writeDraining : Int := 0
  log : List Event := []

namespace Controller

variable {config : Config}

/-- `SimpleStats::Increment`. -/
def bump (stats : Counter → Nat) (counter : Counter) : Counter → Nat :=
  Function.update stats counter (stats counter + 1)

/-- `simple_stats_.Increment(counter)`. -/
def increment (s : Controller config) (counter : Counter) : Controller config :=
  { s with simpleStats := bump s.simpleStats counter }

/-- Add to the record of events. -/
def record (s : Controller config) (e : Event) : Controller config := { s with log := s.log ++ [e] }

/-- The pending reads of an address. -/
def readsOf (s : Controller config) (addr : Nat) : List Transaction :=
  s.pendingRdQ.filter fun trans => trans.addr = addr

/-- The pending writes of an address. -/
def writesOf (s : Controller config) (addr : Nat) : List Transaction :=
  s.pendingWrQ.filter fun trans => trans.addr = addr

/-- No PIM command is waiting. -/
def pimIdle (s : Controller config) : Bool :=
  s.rdWCmds.isEmpty && s.rdInCmds.isEmpty && s.wrCmds.isEmpty

/-! ## Transactions in and out -/

/-- `Controller::WillAcceptTransaction`. -/
def willAcceptTransaction (s : Controller config) (isWrite : Bool) : Bool :=
  if config.unifiedQueue then s.unifiedQueue.length < config.transQueueSize
  else if !isWrite then s.readQueue.length < config.transQueueSize
  else s.writeBuffer.length < config.transQueueSize

/-- Put a transaction into the queue in which it waits. -/
def enqueue (s : Controller config) (trans : Transaction) : Controller config :=
  if config.unifiedQueue then { s with unifiedQueue := s.unifiedQueue ++ [trans] }
  else if trans.isWrite then { s with writeBuffer := s.writeBuffer ++ [trans] }
  else { s with readQueue := s.readQueue ++ [trans] }

/-- Complete a transaction in the next cycle. -/
def completeNext (s : Controller config) (trans : Transaction) : Controller config :=
  { s with returnQueue := s.returnQueue ++ [{ trans with completeCycle := s.clk + 1 }] }

/-- `pending_wr_q_.insert`. -/
def insertWrite (s : Controller config) (trans : Transaction) : Controller config :=
  { s with pendingWrQ := s.pendingWrQ ++ [trans] }

/-- `pending_rd_q_.insert`. -/
def insertRead (s : Controller config) (trans : Transaction) : Controller config :=
  { s with pendingRdQ := s.pendingRdQ ++ [trans] }

/-- `Controller::AddTransaction`. -/
def addTransaction (s : Controller config) (trans : Transaction) : Controller config :=
  let trans := { trans with addedCycle := s.clk }
  if trans.isWrite then
    let s := s.record (.accepted trans false)
    let s :=
      if (s.writesOf trans.addr).length = 0 then (s.insertWrite trans).enqueue trans else s
    s.completeNext trans
  else if 0 < (s.writesOf trans.addr).length then
    (s.record (.accepted trans true)).completeNext trans
  else
    let s := (s.record (.accepted trans false)).insertRead trans
    if (s.readsOf trans.addr).length = 1 then s.enqueue trans else s

/-- `Controller::ReturnDoneTrans`. -/
def returnDoneTrans (s : Controller config) (clk : Nat) :
    Option (Nat × Bool) × Controller config :=
  match s.returnQueue.find? fun trans => trans.completeCycle ≤ clk with
  | none => (none, s)
  | some it =>
      let s := s.increment (if it.isWrite then .numWritesDone else .numReadsDone)
      let s := s.record (.returned it.addr it.isWrite)
      (some (it.addr, it.isWrite),
        { s with returnQueue := s.returnQueue.eraseP fun trans => trans.completeCycle ≤ clk })

/-! ## From transactions to commands -/

/-- The command type of a transaction under the row-buffer policy. -/
def columnType (config : Config) (isWrite : Bool) : CommandType :=
  match config.rowBufPolicy with
  | .openPage => if isWrite then .write else .read
  | .closePage => if isWrite then .writePrecharge else .readPrecharge

/-- `Controller::TransToCommand`. -/
def transToCommand (config : Config) (trans : Transaction) : Command :=
  ⟨columnType config trans.isWrite, config.addressMapping trans.addr, trans.addr⟩

/-- The start of `ScheduleTransaction`: a full write buffer, or a filled one with
nothing else to do, is drained. -/
def startDraining (s : Controller config) : Controller config :=
  if s.writeDraining = 0 ∧ !config.unifiedQueue then
    if config.transQueueSize ≤ s.writeBuffer.length ∨
        (8 < s.writeBuffer.length ∧ s.cmdQueue.queueEmpty) then
      { s with writeDraining := s.writeBuffer.length }
    else s
  else s

/-- The loop of `ScheduleTransaction` over the transactions of a queue: the first
one that its command queue accepts, with those before and after it. -/
def firstAccepted (q : CommandQueue config) :
    List Transaction → List Transaction → Option (List Transaction × Transaction × List Transaction)
  | _, [] => none
  | before, it :: rest =>
      if q.willAcceptCommand (transToCommand config it).addr then some (before, it, rest)
      else firstAccepted q (before ++ [it]) rest

/-- Which queue `ScheduleTransaction` takes from. -/
def scheduledQueue (s : Controller config) : List Transaction :=
  if config.unifiedQueue then s.unifiedQueue
  else if 0 < s.writeDraining then s.writeBuffer else s.readQueue

/-- Put back the queue that `scheduledQueue` chose. -/
def setScheduledQueue (s : Controller config) (queue : List Transaction) : Controller config :=
  if config.unifiedQueue then { s with unifiedQueue := queue }
  else if 0 < s.writeDraining then { s with writeBuffer := queue }
  else { s with readQueue := queue }

/-- `Controller::ScheduleTransaction`. -/
def scheduleTransaction (s : Controller config) : Controller config :=
  let s := s.startDraining
  match firstAccepted s.cmdQueue [] s.scheduledQueue with
  | none => s
  | some (before, it, rest) =>
      let cmd := transToCommand config it
      let moved (s : Controller config) : Controller config :=
        { s with cmdQueue := s.cmdQueue.addCommand cmd }
      if !config.unifiedQueue && cmd.isWrite then
        if 0 < (s.readsOf it.addr).length then { s with writeDraining := 0 }
        else
          let s := s.setScheduledQueue (before ++ rest)
          moved { s with writeDraining := s.writeDraining - 1 }
      else moved (s.setScheduledQueue (before ++ rest))

/-! ## Issuing commands -/

/-- The counters that a command increments, given whether the row of its bank has
been hit before. -/
def commandCounters (ty : CommandType) (rowHit : Bool) : List Counter :=
  let column (cmds rowHits : Counter) : List Counter :=
    if rowHit then [cmds, rowHits] else [cmds]
  match ty with
  | .read | .readPrecharge => column .numReadCmds .numReadRowHits
  | .write | .writePrecharge => column .numWriteCmds .numWriteRowHits
  | .activate => [.numActCmds]
  | .lhRead | .lhReadPrecharge => column .numLhReadCmds .numLhReadRowHits
  | .ghRead | .ghReadPrecharge => column .numGhReadCmds .numGhReadRowHits
  | .pimWrite | .pimWritePrecharge => column .numPimWriteCmds .numPimWriteRowHits
  | .pimActivate => [.numActCmds]
  | .precharge => [.numPreCmds]
  | .refresh => [.numRefCmds]
  | .refreshBank => [.numRefbCmds]
  | .srefEnter => [.numSrefeCmds]
  | .srefExit => [.numSrefxCmds]

/-- `Controller::UpdateCommandStats`. -/
def updateCommandStats (s : Controller config) (cmd : Command) : Controller config :=
  let rowHit := (s.channelState.bankStates cmd.bankIndex).rowHitCount ≠ 0
  { s with simpleStats := (commandCounters cmd.cmdType rowHit).foldl bump s.simpleStats }

/-- The loop that returns all pending reads of an address.  The two lists are
`pending_rd_q_` and `return_queue_`. -/
def returnReads (addr completeCycle : Nat) :
    Nat → List Transaction × List Transaction → List Transaction × List Transaction
  | 0, qs => qs
  | n + 1, (pending, returned) =>
      match pending.find? fun trans => trans.addr = addr with
      | none => (pending, returned)
      | some it =>
          returnReads addr completeCycle n
            (pending.eraseP fun trans => trans.addr = addr,
              returned ++ [{ it with completeCycle := completeCycle }])

/-- The part of `IssueCommand` that completes reads and retires a write. -/
def completePending (s : Controller config) (cmd : Command) : Except Exit (Controller config) :=
  if cmd.isRead then
    let numReads := (s.readsOf cmd.hexAddr).length
    if !s.inPim && numReads = 0 then .error .notInReadQueue
    else
      let qs := returnReads cmd.hexAddr (addClk s.clk config.readDelay) numReads
        (s.pendingRdQ, s.returnQueue)
      .ok { s with pendingRdQ := qs.1, returnQueue := qs.2 }
  else if cmd.isWrite then
    if (s.writesOf cmd.hexAddr).length = 0 then .error .notInWriteQueue
    else .ok { s with pendingWrQ := s.pendingWrQ.eraseP fun trans => trans.addr = cmd.hexAddr }
  else .ok s

/-- `Controller::IssueCommand`. -/
def issueCommand (s : Controller config) (cmd : Command) : Except Exit (Controller config) := do
  let s := s.record (.issued s.clk cmd (s.readsOf cmd.hexAddr))
  let s ← s.completePending cmd
  let s := s.updateCommandStats cmd
  let channelState ←
    s.channelState.updateTimingAndStates config (Timing.ofConfig config) cmd s.clk
  .ok { s with channelState := channelState }

/-- `cmd_queue_.GetCommandToIssue()`. -/
def getCommandToIssue (s : Controller config) :
    Except Exit (Option Command × Controller config) := do
  let (cmd, cmdQueue) ← s.cmdQueue.getCommandToIssue s.channelState
  let s := { s with cmdQueue := cmdQueue }
  match cmd with
  | some cmd =>
      if cmd.isReadWrite then .ok (some cmd, s.record (.erased cmd)) else .ok (some cmd, s)
  | none => .ok (none, s)

/-! ## The PIM streams -/

/-- The command that an entry of a stream needs, where an activate is asked for
through the column command `column`. -/
def pimReady (s : Controller config) (column : CommandType) (cmd : Command) :
    Except Exit (Option Command) :=
  if cmd.cmdType = .pimActivate then
    s.channelState.getReadyCommand config ⟨column, cmd.addr, cmd.hexAddr⟩ s.clk
  else s.channelState.getReadyCommand config cmd s.clk

/-- `ready_cmd.IsValid() && ready_cmd.cmd_type == it->cmd_type`. -/
def answers (ready : Option Command) (cmd : Command) : Bool :=
  ready.any fun ready => ready.cmdType = cmd.cmdType

/-- Issue an entry, unless it is an activate and a refresh waits. -/
def issuePim (s : Controller config) (cmd : Command) : Except Exit (Controller config) :=
  if s.channelState.isRefreshWaiting && cmd.cmdType = .pimActivate then .ok s
  else s.issueCommand cmd

/-- In `rd_w_cmds_` a `PRECHARGE` is taken as it is. -/
def rdWReady (s : Controller config) (cmd : Command) : Except Exit (Option Command) :=
  if cmd.cmdType = .precharge then .ok (some cmd) else s.pimReady .ghRead cmd

/-- The loop over `rd_w_cmds_`; `kept` are the entries that stay. -/
def issueRdW (s : Controller config) (kept : List Command) :
    List Command → Except Exit (Controller config)
  | [] => .ok { s with rdWCmds := kept }
  | cmd :: rest => do
      let ready ← s.rdWReady cmd
      if answers ready cmd then do
        let s ← s.issuePim cmd
        issueRdW s kept rest
      else issueRdW s (kept ++ [cmd]) rest

/-- The loop over `rd_in_cmds_` and `release_time`, with the entries of both that
stay. -/
def issueRdIn (s : Controller config) (kept : List Command) (keptTime : List Int) :
    List Command → List Int → Except Exit (Controller config)
  | [], times => .ok { s with rdInCmds := kept, releaseTime := keptTime ++ times }
  | cmd :: rest, times => do
      let ready ← s.pimReady .ghRead cmd
      if answers ready cmd then
        match times with
        | [] => .error .outOfRange
        | time :: times =>
            if toU64 time ≤ s.clk then do
              let s ← s.issuePim cmd
              issueRdIn s kept keptTime rest times
            else issueRdIn s (kept ++ [cmd]) (keptTime ++ [time]) rest times
      else issueRdIn s (kept ++ [cmd]) (keptTime ++ times.take 1) rest (times.drop 1)

/-- The loop over `wr_cmds_`, which ends after one command for several tenants. -/
def issueWr (s : Controller config) (kept : List Command) :
    List Command → Except Exit (Controller config)
  | [] => .ok { s with wrCmds := kept }
  | cmd :: rest => do
      let ready ← s.pimReady .pimWrite cmd
      if answers ready cmd then
        if s.channelState.isRefreshWaiting && cmd.cmdType = .pimActivate then issueWr s kept rest
        else do
          let s ← s.issueCommand cmd
          if s.wrMultitenant then .ok { s with wrCmds := kept ++ rest } else issueWr s kept rest
      else issueWr s (kept ++ [cmd]) rest

/-- The three loops of `ClockTick` over the PIM streams. -/
def issuePimStreams (s : Controller config) : Except Exit (Controller config) := do
  let s ← s.issueRdW [] s.rdWCmds
  let s ← s.issueRdIn [] [] s.rdInCmds s.releaseTime
  s.issueWr [] s.wrCmds

/-! ## A clock tick -/

/-- `refresh_.ClockTick()`. -/
def tickRefresh (s : Controller config) : Except Exit (Controller config) := do
  let (refresh, channelState) ← s.refresh.clockTick s.channelState
  .ok { s with refresh := refresh, channelState := channelState }

/-- The command of this cycle: that of a waiting refresh, or else an ordinary
one. -/
def selectCommand (s : Controller config) :
    Except Exit (Option Command × Controller config) :=
  if s.channelState.isRefreshWaiting then do
    let (cmd, cmdQueue) ← s.cmdQueue.finishRefresh s.channelState
    let s := { s with cmdQueue := cmdQueue }
    match cmd with
    | some cmd => .ok (some cmd, s)
    | none => s.getCommandToIssue
  else s.getCommandToIssue

/-- Issue the selected command and, for HBM, a second one of the other kind. -/
def issueSelected (s : Controller config) (cmd : Command) : Except Exit (Controller config) := do
  let s ← s.issueCommand cmd
  if config.enableHbmDualCmd then do
    let (second, s) ← s.getCommandToIssue
    match second with
    | some second =>
        if second.isReadWrite ≠ cmd.isReadWrite then do
          let s ← s.issueCommand second
          .ok (s.increment .hbmDualCmds)
        else .ok s
    | none => .ok s
  else .ok s

/-- The idle counters of the ranks. -/
def updateIdleCycles (s : Controller config) : Controller config :=
  let ch := s.channelState
  { s with
    channelState :=
      { ch with
        rankIdleCycles := fun i =>
          if 0 ≤ i ∧ i < config.ranks ∧ !ch.rankIsSref i then
            if ch.isAllBankIdleInRank config i then ch.rankIdleCycles i + 1 else 0
          else ch.rankIdleCycles i } }

/-- The loop that moves idle ranks into self refresh and wakes them up. -/
def updateSelfRefresh (s : Controller config) : List Nat → Except Exit (Controller config)
  | [] => .ok s
  | i :: rest =>
      let request (ty : CommandType) : Except Exit (Controller config) := do
        match ← s.channelState.getReadyCommand config ⟨ty, { rank := i }, toU64 (-1)⟩ s.clk with
        | some cmd => s.issueCommand cmd
        | none => updateSelfRefresh s rest
      if s.channelState.rankIsSref i then
        if !s.cmdQueue.rankQEmpty i then request .srefExit else updateSelfRefresh s rest
      else if s.cmdQueue.rankQEmpty i && config.srefThreshold ≤ s.channelState.rankIdleCycles i then
        request .srefEnter
      else updateSelfRefresh s rest

/-- The commands of a tick: one of a refresh or of the queues if no PIM command
waits, or else those of the PIM streams.  The flag is `cmd_issued`. -/
def issueCommands (s : Controller config) : Except Exit (Bool × Controller config) := do
  let (cmd, s) ← s.selectCommand
  if (cmd.any fun cmd => cmd.isRefresh) || s.pimIdle then
    match cmd with
    | some cmd => do
        let s ← s.issueSelected cmd
        .ok (true, s)
    | none => .ok (false, s)
  else do
    let s ← s.issuePimStreams
    .ok (true, s)

/-- `ClockTick` up to its call of `ScheduleTransaction`. -/
def beforeSchedule (s : Controller config) : Except Exit (Controller config) := do
  let s ← s.tickRefresh
  let (cmdIssued, s) ← s.issueCommands
  let s := s.updateIdleCycles
  if config.enableSelfRefresh && !cmdIssued then s.updateSelfRefresh (List.range config.ranks)
  else .ok s

/-- `Controller::ClockTick`. -/
def clockTick (s : Controller config) : Except Exit (Controller config) := do
  let s ← s.beforeSchedule
  let s := s.scheduleTransaction
  .ok { s with clk := s.clk + 1, cmdQueue := s.cmdQueue.clockTick }

end Controller

end Dramsim
