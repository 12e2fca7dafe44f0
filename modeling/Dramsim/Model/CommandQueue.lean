import Dramsim.Model.ChannelState

/-!
# Command queues

`class CommandQueue`: one queue for each bank or for each rank, served in turn.
While a refresh is on its way the queues it concerns are skipped.

The selection of a command reads the channel but does not change it.  A column
command leaves its queue in the moment it is selected, before the controller
decides what to do with it.
-/

namespace Dramsim

namespace Config

/-- `CommandQueue::GetQueueIndex`. -/
def getQueueIndex (config : Config) (rank bankgroup bank : Int) : Int :=
  match config.queueStructure with
  | .perRank => rank
  | .perBank => rank * config.banks + bankgroup * config.banksPerGroup + bank

/-- The queue of an address. -/
def queueOf (config : Config) (addr : Address) : Nat :=
  (config.getQueueIndex addr.rank addr.bankgroup addr.bank).toNat

theorem numQueues_pos (config : Config) : 0 < config.numQueues := by
  unfold numQueues
  cases config.queueStructure with
  | perBank =>
      exact Nat.mul_pos (Nat.mul_pos config.bankgroups_pos config.banksPerGroup_pos)
        config.ranks_pos
  | perRank => exact config.ranks_pos

end Config

/-- `class CommandQueue`.  `queueIdx` is the queue served last. -/
structure CommandQueue (config : Config) where
  rankQEmpty : Int → Bool := fun _ => true
  queues : Nat → List Command := fun _ => []
  refQIndices : List Int := []
  isInRef : Bool := false
  queueIdx : Fin config.numQueues := ⟨0, config.numQueues_pos⟩
  clk : Nat := 0

namespace CommandQueue

variable {config : Config}

/-- All queued commands. -/
def entries (q : CommandQueue config) : List Command :=
  (List.range config.numQueues).flatMap q.queues

/-! ## Filling a queue -/

/-- `CommandQueue::WillAcceptCommand`. -/
def willAcceptCommand (q : CommandQueue config) (addr : Address) : Bool :=
  (q.queues (config.queueOf addr)).length < config.cmdQueueSize

/-- `CommandQueue::QueueEmpty`. -/
def queueEmpty (q : CommandQueue config) : Bool :=
  (List.range config.numQueues).all fun i => (q.queues i).isEmpty

/-- `CommandQueue::AddCommand`. -/
def addCommand (q : CommandQueue config) (cmd : Command) : CommandQueue config :=
  let queue := q.queues (config.queueOf cmd.addr)
  if queue.length < config.cmdQueueSize then
    { q with
      queues := Function.update q.queues (config.queueOf cmd.addr) (queue ++ [cmd])
      rankQEmpty := Function.update q.rankQEmpty cmd.addr.rank false }
  else q

/-! ## The first command of a queue that can go -/

/-- `CommandQueue::ArbitratePrecharge`, for an entry with the entries before it and
those from it on.  A row is only closed for the oldest command of the bank, and
only when no command wants the open row or enough have been served. -/
def arbitratePrecharge (channel : ChannelState) (before : List Command) (cmd : Command)
    (pending : List Command) : Bool :=
  if before.any fun prev => prev.addr.rank = cmd.addr.rank &&
      prev.addr.bankgroup = cmd.addr.bankgroup && prev.addr.bank = cmd.addr.bank then
    false
  else
    let openRow := (channel.bankStates cmd.bankIndex).openRow
    let pendingRowHitsExist := pending.any fun entry => entry.addr.row = openRow &&
      entry.addr.bank = cmd.addr.bank && entry.addr.bankgroup = cmd.addr.bankgroup &&
      entry.addr.rank = cmd.addr.rank
    let rowhitLimitReached := 4 ≤ (channel.bankStates cmd.bankIndex).rowHitCount
    !pendingRowHitsExist || rowhitLimitReached

/-- `CommandQueue::HasRWDependency`. -/
def hasRWDependency (before : List Command) (cmd : Command) : Bool :=
  before.any fun entry => entry.isRead && entry.addr.row = cmd.addr.row &&
    entry.addr.column = cmd.addr.column && entry.addr.bank = cmd.addr.bank &&
    entry.addr.bankgroup = cmd.addr.bankgroup

/-- The loop of `CommandQueue::GetFirstReadyInQueue`, with the entries passed
over so far. -/
def firstReadyFrom (config : Config) (channel : ChannelState) (clk : Nat) :
    List Command → List Command → Except Exit (Option Command)
  | _, [] => .ok none
  | before, entry :: rest => do
      match ← channel.getReadyCommand config entry clk with
      | none => firstReadyFrom config channel clk (before ++ [entry]) rest
      | some cmd =>
          if cmd.cmdType = .precharge then
            if arbitratePrecharge channel before entry (entry :: rest) then .ok (some cmd)
            else firstReadyFrom config channel clk (before ++ [entry]) rest
          else if cmd.isWrite then
            if hasRWDependency before entry then
              firstReadyFrom config channel clk (before ++ [entry]) rest
            else .ok (some cmd)
          else .ok (some cmd)

/-- `CommandQueue::GetFirstReadyInQueue`. -/
def getFirstReadyInQueue (config : Config) (channel : ChannelState) (clk : Nat)
    (queue : List Command) : Except Exit (Option Command) :=
  firstReadyFrom config channel clk [] queue

/-! ## The next command of all queues -/

/-- `CommandQueue::GetNextQueue`. -/
def getNextQueue (q : CommandQueue config) : CommandQueue config :=
  { q with
    queueIdx :=
      if h : q.queueIdx + 1 < config.numQueues then ⟨q.queueIdx + 1, h⟩
      else ⟨0, config.numQueues_pos⟩ }

/-- `CommandQueue::EraseRWCommand`. -/
def eraseRWCommand (q : CommandQueue config) (cmd : Command) :
    Except Exit (CommandQueue config) :=
  let queue := q.queues (config.queueOf cmd.addr)
  let same (entry : Command) : Bool := cmd.hexAddr = entry.hexAddr && cmd.cmdType = entry.cmdType
  if queue.any same then
    .ok { q with queues := Function.update q.queues (config.queueOf cmd.addr) (queue.eraseP same) }
  else .error .cannotFindCmd

/-- The loop of `CommandQueue::GetCommandToIssue`, for a number of queues still to
be looked at. -/
def commandFrom (channel : ChannelState) :
    Nat → CommandQueue config → Except Exit (Option Command × CommandQueue config)
  | 0, q => .ok (none, q)
  | n + 1, q => do
      let q := q.getNextQueue
      if q.isInRef && (q.queueIdx : Int) ∈ q.refQIndices then commandFrom channel n q
      else
        match ← getFirstReadyInQueue config channel q.clk (q.queues q.queueIdx) with
        | none => commandFrom channel n q
        | some cmd =>
            if cmd.isReadWrite then do
              let q ← q.eraseRWCommand cmd
              .ok (some cmd, q)
            else .ok (some cmd, q)

/-- `CommandQueue::GetCommandToIssue`. -/
def getCommandToIssue (channel : ChannelState) (q : CommandQueue config) :
    Except Exit (Option Command × CommandQueue config) :=
  commandFrom channel config.numQueues q

/-! ## Refresh -/

/-- `CommandQueue::GetRefQIndices`, the queues that a refresh concerns. -/
def getRefQIndices (config : Config) (ref : Command) : List Int :=
  if ref.cmdType = .refresh then
    match config.queueStructure with
    | .perBank =>
        ((List.range config.numQueues).filter fun i =>
          ((i / config.banks : Nat) : Int) = ref.addr.rank).map fun (i : Nat) => (i : Int)
    | .perRank => [ref.addr.rank]
  else [config.getQueueIndex ref.addr.rank ref.addr.bankgroup ref.addr.bank]

/-- `CommandQueue::FinishRefresh`, called when `refresh_q_` is not empty. -/
def finishRefresh (channel : ChannelState) (q : CommandQueue config) :
    Except Exit (Option Command × CommandQueue config) :=
  match channel.refreshQ with
  | [] => .ok (none, q)
  | ref :: _ => do
      let q :=
        if !q.isInRef then
          { q with refQIndices := q.refQIndices ++ getRefQIndices config ref, isInRef := true }
        else q
      match ← channel.getReadyCommand config ref q.clk with
      | none => .ok (none, q)
      | some cmd =>
          if cmd.isRefresh then .ok (some cmd, { q with refQIndices := [], isInRef := false })
          else .ok (some cmd, q)

/-- `CommandQueue::ClockTick`. -/
def clockTick (q : CommandQueue config) : CommandQueue config := { q with clk := q.clk + 1 }

end CommandQueue

end Dramsim
