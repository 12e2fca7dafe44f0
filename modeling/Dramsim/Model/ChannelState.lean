import Dramsim.Library.Window
import Dramsim.Model.BankState

/-!
# State of a channel

`class ChannelState` keeps the banks of a channel, which ranks are in self
refresh, the refresh requests still to be served, and per rank the times at
which the recent activates leave the four-activate window and, for GDDR, the
thirty-two-activate window.

The nested vectors `bank_states_[i][j][k]` are a function of the bank index, and
the loops that treat every bank of a range alike are one pointwise update
(`updateBankTimings`).  The loop of `UpdateState`, which can end the process at
any bank, is a fold over the banks of the rank.
-/

namespace Dramsim

/-- `class ChannelState`. -/
structure ChannelState where
  rankIdleCycles : Int → Int := fun _ => 0
  rankIsSref : Int → Bool := fun _ => false
  bankStates : BankIndex → BankState := fun _ => {}
  refreshQ : List Command := []
  fourAw : Int → List Nat := fun _ => []
  thirtyTwoAw : Int → List Nat := fun _ => []

namespace ChannelState

/-! ## Observers -/

/-- `ChannelState::IsAllBankIdleInRank`. -/
def isAllBankIdleInRank (config : Config) (s : ChannelState) (rank : Int) : Bool :=
  (config.rankBanks rank).all fun ix => !(s.bankStates ix).isRowOpen

/-- `ChannelState::IsRefreshWaiting`. -/
def isRefreshWaiting (s : ChannelState) : Bool := !s.refreshQ.isEmpty

/-! ## Refresh requests -/

/-- `ChannelState::BankNeedRefresh`. -/
def bankNeedRefresh (s : ChannelState) (rank bankgroup bank : Int) (need : Bool) : ChannelState :=
  if need then
    { s with
      refreshQ := s.refreshQ ++
        [⟨.refreshBank, { rank := rank, bankgroup := bankgroup, bank := bank }, toU64 (-1)⟩] }
  else
    { s with
      refreshQ := s.refreshQ.eraseP fun cmd =>
        cmd.addr.rank = rank && cmd.addr.bankgroup = bankgroup && cmd.addr.bank = bank }

/-- `ChannelState::RankNeedRefresh`. -/
def rankNeedRefresh (s : ChannelState) (rank : Int) (need : Bool) : ChannelState :=
  if need then
    { s with refreshQ := s.refreshQ ++ [⟨.refresh, { rank := rank }, toU64 (-1)⟩] }
  else
    { s with refreshQ := s.refreshQ.eraseP fun cmd => cmd.addr.rank = rank }

/-! ## Activation windows -/

/-- `ChannelState::IsFAWReady`. -/
def isFAWReady (s : ChannelState) (rank : Int) (currTime : Nat) : Bool :=
  Library.Window.ready 4 (s.fourAw rank) currTime

/-- `ChannelState::Is32AWReady`. -/
def is32AWReady (s : ChannelState) (rank : Int) (currTime : Nat) : Bool :=
  Library.Window.ready 32 (s.thirtyTwoAw rank) currTime

/-- `ChannelState::ActivationWindowOk`. -/
def activationWindowOk (config : Config) (s : ChannelState) (rank : Int) (currTime : Nat) : Bool :=
  let tfawOk := s.isFAWReady rank currTime
  if config.isGDDR then
    if !tfawOk then false else s.is32AWReady rank currTime
  else tfawOk

/-- `ChannelState::UpdateActivationTimes`. -/
def updateActivationTimes (config : Config) (s : ChannelState) (rank : Int) (currTime : Nat) :
    ChannelState :=
  let s := { s with
    fourAw := Function.update s.fourAw rank
      (Library.Window.push (s.fourAw rank) currTime (addClk currTime config.tFAW)) }
  if config.isGDDR then
    { s with
      thirtyTwoAw := Function.update s.thirtyTwoAw rank
        (Library.Window.push (s.thirtyTwoAw rank) currTime (addClk currTime config.t32AW)) }
  else s

/-! ## The command a request needs -/

/-- The loop over the banks of a rank.  A bank that needs another command first
ends the search with that command, addressed to it. -/
def rankReadyCommand (config : Config) (s : ChannelState) (cmd : Command) (clk : Nat) :
    List BankIndex → Nat → Option Command → Except Exit (Option Command)
  | [], numReady, readyCmd => if numReady = config.banks then .ok readyCmd else .ok none
  | ix :: rest, numReady, _ => do
      match ← (s.bankStates ix).getReadyCommand cmd clk with
      | none => rankReadyCommand config s cmd clk rest numReady none
      | some ready =>
          if ready.cmdType ≠ cmd.cmdType then
            .ok (some { ready with
              addr := { rank := cmd.addr.rank, bankgroup := ix.bankgroup, bank := ix.bank } })
          else rankReadyCommand config s cmd clk rest (numReady + 1) (some ready)

/-- `ChannelState::GetReadyCommand`. -/
def getReadyCommand (config : Config) (s : ChannelState) (cmd : Command) (clk : Nat) :
    Except Exit (Option Command) :=
  if cmd.isRankCMD then
    rankReadyCommand config s cmd clk (config.rankBanks cmd.addr.rank) 0 none
  else do
    match ← (s.bankStates cmd.bankIndex).getReadyCommand cmd clk with
    | none => .ok none
    | some ready =>
        if ready.cmdType.isActivate && !s.activationWindowOk config ready.addr.rank clk then
          .ok none
        else .ok (some ready)

/-! ## State updates -/

/-- One bank takes a command. -/
def updateBank (s : ChannelState) (cmd : Command) (ix : BankIndex) : Except Exit ChannelState := do
  let b ← (s.bankStates ix).updateState cmd
  .ok { s with bankStates := Function.update s.bankStates ix b }

/-- `ChannelState::UpdateState`. -/
def updateState (config : Config) (s : ChannelState) (cmd : Command) :
    Except Exit ChannelState :=
  if cmd.isRankCMD then do
    let s ← (config.rankBanks cmd.addr.rank).foldlM (fun s ix => s.updateBank cmd ix) s
    if cmd.isRefresh then
      .ok (s.rankNeedRefresh cmd.addr.rank false)
    else if cmd.cmdType = .srefEnter then
      .ok { s with rankIsSref := Function.update s.rankIsSref cmd.addr.rank true }
    else
      .ok { s with rankIsSref := Function.update s.rankIsSref cmd.addr.rank false }
  else do
    let s ← s.updateBank cmd cmd.bankIndex
    if cmd.isRefresh then
      .ok (s.bankNeedRefresh cmd.addr.rank cmd.addr.bankgroup cmd.addr.bank false)
    else .ok s

/-! ## Timing updates -/

/-- Apply a row of a timing table to the banks that satisfy `p`. -/
def updateBankTimings (s : ChannelState) (p : BankIndex → Bool) (row : TimingList) (clk : Nat) :
    ChannelState :=
  { s with
    bankStates := fun ix =>
      if p ix then (s.bankStates ix).updateTimings row clk else s.bankStates ix }

section

variable (config : Config) (s : ChannelState) (addr : Address) (row : TimingList) (clk : Nat)

/-- `ChannelState::UpdateSameBankTiming`. -/
def updateSameBankTiming : ChannelState :=
  s.updateBankTimings (fun ix => ix = addr.bankIndex) row clk

/-- `ChannelState::UpdateOtherBanksSameBankgroupTiming`. -/
def updateOtherBanksSameBankgroupTiming : ChannelState :=
  s.updateBankTimings
    (fun ix => ix.rank = addr.rank && ix.bankgroup = addr.bankgroup &&
      (0 ≤ ix.bank && ix.bank < config.banksPerGroup) && ix.bank ≠ addr.bank) row clk

/-- `ChannelState::UpdateOtherBankgroupsSameRankTiming`. -/
def updateOtherBankgroupsSameRankTiming : ChannelState :=
  s.updateBankTimings
    (fun ix => ix ∈ config.rankBanks addr.rank && ix.bankgroup ≠ addr.bankgroup) row clk

/-- `ChannelState::UpdateOtherRanksTiming`. -/
def updateOtherRanksTiming : ChannelState :=
  s.updateBankTimings (fun ix => config.HasBank ix && ix.rank ≠ addr.rank) row clk

/-- `ChannelState::UpdateSameRankTiming`. -/
def updateSameRankTiming : ChannelState :=
  s.updateBankTimings (fun ix => ix ∈ config.rankBanks addr.rank) row clk

end

/-- The four updates that `UpdateTiming` makes for an ordinary command. -/
def updateChannelTiming (config : Config) (timing : Timing) (s : ChannelState) (cmd : Command)
    (clk : Nat) : ChannelState :=
  let s := s.updateSameBankTiming cmd.addr (timing.sameBank cmd.cmdType) clk
  let s := s.updateOtherBanksSameBankgroupTiming config cmd.addr
    (timing.otherBanksSameBankgroup cmd.cmdType) clk
  let s := s.updateOtherBankgroupsSameRankTiming config cmd.addr
    (timing.otherBankgroupsSameRank cmd.cmdType) clk
  s.updateOtherRanksTiming config cmd.addr (timing.otherRanks cmd.cmdType) clk

/-- `ChannelState::UpdateTiming`.  An activate falls through to the ordinary
commands. -/
def updateTiming (config : Config) (timing : Timing) (s : ChannelState) (cmd : Command)
    (clk : Nat) : ChannelState :=
  match cmd.cmdType with
  | .activate | .pimActivate =>
      updateChannelTiming config timing (s.updateActivationTimes config cmd.addr.rank clk) cmd clk
  | .read | .readPrecharge | .write | .writePrecharge | .precharge | .refreshBank =>
      updateChannelTiming config timing s cmd clk
  | .refresh | .srefEnter | .srefExit =>
      s.updateSameRankTiming config cmd.addr (timing.sameRank cmd.cmdType) clk
  | .lhRead | .lhReadPrecharge | .ghRead | .ghReadPrecharge | .pimWrite | .pimWritePrecharge =>
      s.updateSameBankTiming cmd.addr (timing.sameBank cmd.cmdType) clk

/-- `ChannelState::UpdateTimingAndStates`. -/
def updateTimingAndStates (config : Config) (timing : Timing) (s : ChannelState) (cmd : Command)
    (clk : Nat) : Except Exit ChannelState := do
  let s ← s.updateState config cmd
  .ok (s.updateTiming config timing cmd clk)

end ChannelState

end Dramsim
