import Dramsim.Model.ChannelState

/-!
# Refresh generation

`class Refresh` counts cycles and, once every interval, asks the channel for a
refresh.  The positions of the staggered policies are advanced modulo the sizes
of the device, so they are kept as `Fin`.
-/

namespace Dramsim

/-- `class Refresh`. -/
structure Refresh (config : Config) where
  clk : Nat := 0
  nextRank : Fin config.ranks := ⟨0, config.ranks_pos⟩
  nextBg : Fin config.bankgroups := ⟨0, config.bankgroups_pos⟩
  nextBank : Fin config.banksPerGroup := ⟨0, config.banksPerGroup_pos⟩

/-- `refresh_interval_`. -/
def Config.refreshInterval (config : Config) : Int :=
  match config.refreshPolicy with
  | .rankLevelSimultaneous => config.tREFI
  | .bankLevelStaggered => config.tREFIb
  | .rankLevelStaggered => config.tREFI.tdiv config.ranks

namespace Refresh

variable {config : Config}

/-- `(i + 1) % n` for a position below `n`. -/
def advance {n : Nat} (i : Fin n) : Fin n :=
  ⟨(i + 1) % n, Nat.mod_lt _ (Nat.lt_of_le_of_lt (Nat.zero_le _) i.isLt)⟩

/-- `Refresh::IterateNext`. -/
def iterateNext (r : Refresh config) : Refresh config :=
  match config.refreshPolicy with
  | .rankLevelStaggered => { r with nextRank := advance r.nextRank }
  | .bankLevelStaggered =>
      let r := { r with nextBg := advance r.nextBg }
      if (r.nextBg : Nat) = 0 then
        let r := { r with nextBank := advance r.nextBank }
        if (r.nextBank : Nat) = 0 then { r with nextRank := advance r.nextRank } else r
      else r
  | .rankLevelSimultaneous => r

/-- The first rank of a list that is awake is asked for. -/
def firstAwakeNeedsRefresh (channel : ChannelState) : List Nat → ChannelState
  | [] => channel
  | i :: rest =>
      if !channel.rankIsSref i then channel.rankNeedRefresh i true
      else firstAwakeNeedsRefresh channel rest

/-- `Refresh::InsertRefresh`. -/
def insertRefresh (r : Refresh config) (channel : ChannelState) :
    Refresh config × ChannelState :=
  match config.refreshPolicy with
  | .rankLevelSimultaneous => (r, firstAwakeNeedsRefresh channel (List.range config.ranks))
  | .rankLevelStaggered =>
      let rank : Int := (r.nextRank : Nat)
      (r.iterateNext,
        if !channel.rankIsSref rank then channel.rankNeedRefresh rank true else channel)
  | .bankLevelStaggered =>
      let rank : Int := (r.nextRank : Nat)
      (r.iterateNext,
        if !channel.rankIsSref rank then
          channel.bankNeedRefresh rank (r.nextBg : Nat) (r.nextBank : Nat) true
        else channel)

/-- `Refresh::ClockTick`. -/
def clockTick (r : Refresh config) (channel : ChannelState) :
    Except Exit (Refresh config × ChannelState) :=
  let interval := toU64 config.refreshInterval
  if interval = 0 then .error .divisionByZero
  else
    let (r, channel) :=
      if r.clk % interval = 0 ∧ 0 < r.clk then r.insertRefresh channel else (r, channel)
    .ok ({ r with clk := r.clk + 1 }, channel)

/-- The cycles to the next refresh, as `pim_refresh_coming` counts them, from a copy of
the clock that is narrowed to `int`.  A zero interval ends the process in `ClockTick`. -/
def countdown (r : Refresh config) : Int :=
  config.refreshInterval - (max 0 (toInt r.clk - 1)).tmod config.refreshInterval

/-- `Refresh::pim_refresh_coming`. -/
def pimRefreshComing (r : Refresh config) : Bool := r.countdown < config.tRAS + 3

/-- `Refresh::pim_refresh_coming2`. -/
def pimRefreshComing2 (r : Refresh config) : Bool := r.countdown < 3

end Refresh

end Dramsim
