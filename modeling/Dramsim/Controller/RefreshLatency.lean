import Dramsim.Controller.RefreshTimer
import Dramsim.Controller.TimingBound
import Dramsim.Controller.Turns
import Mathlib.Data.Finset.Card
import Mathlib.Tactic.Positivity

/-!
# Refreshes are in time

While the refresh of a rank waits, the queues of the rank are passed over, and the commands of
other ranks put off neither a `PRECHARGE` nor a `REFRESH` there.  So the only commands that reach
the rank are the `PRECHARGE`s that the refresh asks for, one for each open bank, and after each of
them the next waits for one gap of the tables at most.  `RefreshesBy` counts the ticks that this
can take, and a tick takes one off (`refreshesBy_of_clockTick`), whatever transactions come in.

If the interval of the timer is no shorter than that, a request has gone before the next one comes
(`OnTime`), and every rank is refreshed in its turn, with a bounded delay.
-/

namespace Dramsim

/-- The commands that a refresh of a rank needs. -/
def CommandType.ofRefresh : List CommandType := [.precharge, .refresh]

/-- A command of another rank puts off none of them. -/
theorem Timing.not_mem_governing_of_rank_ne {config : Config} {cmd : Command} {ix : BankIndex}
    {ty : CommandType} {d : Int} (hne : ix.rank ≠ cmd.addr.rank)
    (hty : ty ∈ CommandType.ofRefresh) : (ty, d) ∉ (Timing.ofConfig config).governing cmd ix := by
  have hbank : ix ≠ cmd.bankIndex := fun heq => hne (by rw [heq]; rfl)
  have hother : (ty, d) ∉ otherRanksOf config cmd.cmdType := by
    rcases List.mem_pair.mp hty with rfl | rfl <;> cases cmd.cmdType <;>
      simp [otherRanksOf, columnRow]
  rw [governing, if_neg hne, if_neg hbank, Address.position, if_pos hne]
  repeat' split
  exacts [List.not_mem_nil, List.not_mem_nil, hother]

namespace Config

/-- The longest that a `PRECHARGE` makes a refresh of its rank wait. -/
def prechargeGap (config : Config) : Nat :=
  longest (config.gaps [.precharge] CommandType.ofRefresh)

/-- The longest that any command does. -/
def refreshGap (config : Config) : Nat :=
  longest (config.gaps CommandType.all CommandType.ofRefresh)

/-- The ticks within which a requested refresh of a rank goes. -/
def refreshDelay (config : Config) : Nat :=
  config.banks * (config.prechargeGap + 1) + config.refreshGap + 1

theorem card_rankBanks_le (config : Config) (rank : Int) :
    (config.rankBanks rank).toFinset.card ≤ config.banks :=
  (List.toFinset_card_le _).trans (config.length_rankBanks rank).le

end Config

namespace ChannelState

variable {config : Config} {ch ch' : ChannelState} {cmd : Command} {rank : Int} {clk n : Nat}

/-- The banks of a rank with an open row. -/
def openBanks (config : Config) (ch : ChannelState) (rank : Int) : Finset BankIndex :=
  (config.rankBanks rank).toFinset.filter fun ix => (ch.bankStates ix).state = .opened

theorem card_openBanks_le (config : Config) (ch : ChannelState) (rank : Int) :
    (ch.openBanks config rank).card ≤ config.banks :=
  (Finset.card_filter_le _ _).trans (config.card_rankBanks_le rank)

theorem openBanks_congr (h : ∀ ix ∈ config.rankBanks rank,
    (ch'.bankStates ix).state = (ch.bankStates ix).state) :
    ch'.openBanks config rank = ch.openBanks config rank :=
  Finset.filter_congr fun ix hix => by rw [h ix (List.mem_toFinset.mp hix)]

/-- One bank of the rank is closed. -/
theorem card_openBanks_close {ix : BankIndex} (hix : ix ∈ config.rankBanks rank)
    (hopen : (ch.bankStates ix).state = .opened) (hclosed : (ch'.bankStates ix).state = .closed)
    (hrest : ∀ ix', ix' ≠ ix → (ch.bankStates ix').SameRow (ch'.bankStates ix')) :
    (ch'.openBanks config rank).card + 1 = (ch.openBanks config rank).card := by
  have herase : ch'.openBanks config rank = (ch.openBanks config rank).erase ix := by
    ext ix'
    by_cases heq : ix' = ix
    · simp [openBanks, heq, hclosed]
    · simp [openBanks, heq, (hrest ix' heq).state]
  rw [herase]
  exact Finset.card_erase_add_one (by simp [openBanks, hix, hopen])

/-- `PRECHARGE` closes its bank and no other. -/
theorem precharge_banks {timing : Timing} {ix : BankIndex}
    (hcmd : cmd.cmdType = .precharge ∧ cmd.bankIndex = ix)
    (hok : ch.updateTimingAndStates config timing cmd clk = .ok ch') :
    (ch'.bankStates ix).state = .closed ∧
      ∀ ix', ix' ≠ ix → (ch.bankStates ix').SameRow (ch'.bankStates ix') := by
  have hreach : ∀ ix', config.Reaches cmd ix' ↔ ix' = ix := by
    intro ix'
    rw [Config.Reaches, Command.isRankCMD, hcmd.1, if_neg (by decide), hcmd.2]
  refine ⟨?_, fun ix' hne => sameRow_of_not_reaches hok fun hr => hne ((hreach ix').mp hr)⟩
  obtain ⟨b, hb, hrow⟩ := rowBuffer_of_update hok ix
  rw [if_pos ((hreach ix).mpr rfl)] at hb
  rw [hrow.state]
  exact BankState.updateState_closesRow hb (by rw [hcmd.1]; rfl)

/-- A refresh of the rank goes within `n` ticks if it is asked for: the banks are closed one after
the other, and then no command keeps it waiting. -/
def RefreshesBy (config : Config) (ch : ChannelState) (rank : Int) (clk n : Nat) : Prop :=
  ∃ lag, ch.DueBy (· ∈ config.rankBanks rank) (· ∈ CommandType.ofRefresh) (clk + lag) ∧
    (ch.openBanks config rank).card * (config.prechargeGap + 1) + lag + 1 ≤ n

namespace RefreshesBy

theorem pos (h : RefreshesBy config ch rank clk n) : 0 < n := by
  obtain ⟨lag, _, hle⟩ := h
  omega

theorem same (h : RefreshesBy config ch rank clk n) (hs : ch.SameBanks ch') :
    RefreshesBy config ch' rank clk n := by
  obtain ⟨lag, hdue, hle⟩ := h
  have hopen : ch'.openBanks config rank = ch.openBanks config rank :=
    openBanks_congr fun ix _ => by rw [hs.bankStates]
  exact ⟨lag, hdue.same hs, by rwa [hopen]⟩

/-- A command of another rank makes no difference. -/
theorem other {time : Nat} (h : RefreshesBy config ch rank clk n)
    (hrank : 0 ≤ rank ∧ rank < config.ranks) (hne : cmd.addr.rank ≠ rank)
    (hok : ch.updateTimingAndStates config (Timing.ofConfig config) cmd time = .ok ch') :
    RefreshesBy config ch' rank clk n := by
  obtain ⟨lag, hdue, hle⟩ := h
  have hother : ∀ ix ∈ config.rankBanks rank, ix.rank ≠ cmd.addr.rank := fun ix hix heq =>
    hne (heq.symm.trans (Config.mem_rankBanks.mp hix).1)
  refine ⟨lag, hdue.update (fun ix hix => Config.hasBank_of_mem_rankBanks hrank hix) hok ?_, ?_⟩
  · intro ix hix ty hty d hd
    exact absurd hd (Timing.not_mem_governing_of_rank_ne (hother ix hix) hty)
  · rw [openBanks_congr fun ix hix => ?_]
    · exact hle
    · exact (sameRow_of_not_reaches hok fun hreach => hother ix hix hreach.rank).state

/-- A rank whose refresh has to wait is nearer to it after the tick. -/
theorem wait (h : RefreshesBy config ch rank clk n)
    (hnot : ¬ ch.DueBy (· ∈ config.rankBanks rank) (· ∈ CommandType.ofRefresh) clk) :
    RefreshesBy config ch rank (clk + 1) (n - 1) := by
  obtain ⟨lag, hdue, hle⟩ := h
  cases lag with
  | zero => exact absurd hdue hnot
  | succ lag =>
      refine ⟨lag, ?_, by omega⟩
      rwa [Nat.add_right_comm, Nat.add_assoc]

/-- Closing a bank brings the refresh nearer in spite of the gap after it. -/
theorem precharge {ix : BankIndex} (h : RefreshesBy config ch rank clk n)
    (hrank : 0 ≤ rank ∧ rank < config.ranks)
    (hnonneg : ∀ d ∈ config.gaps CommandType.all CommandType.ofRefresh, 0 ≤ d)
    (hix : ix ∈ config.rankBanks rank) (hopen : (ch.bankStates ix).state = .opened)
    (hcmd : cmd.cmdType = .precharge ∧ cmd.bankIndex = ix)
    (hok : ch.updateTimingAndStates config (Timing.ofConfig config) cmd clk = .ok ch') :
    RefreshesBy config ch' rank (clk + 1) (n - 1) := by
  obtain ⟨lag, hdue, hle⟩ := h
  obtain ⟨hclosed, hrest⟩ := precharge_banks hcmd hok
  have hbanks := card_openBanks_close hix hopen hclosed hrest
  refine ⟨max (lag - 1) config.prechargeGap, ?_, ?_⟩
  · refine (hdue.mono (by omega)).update
      (fun ix hix => Config.hasBank_of_mem_rankBanks hrank hix) hok ?_
    intro ix' _ ty hty d hd
    have hmem : d ∈ config.gaps [.precharge] CommandType.ofRefresh :=
      Config.mem_gaps_of_governing (List.mem_singleton.mpr hcmd.1) hty hd
    have hd0 := hnonneg d (Config.gaps_subset (fun ty _ => CommandType.mem_all ty) hmem)
    have hlong : d ≤ config.prechargeGap := le_longest hmem
    exact addClk_le hd0 (by omega)
  · rw [← hbanks, Nat.add_mul] at hle
    omega

end RefreshesBy

end ChannelState

namespace Controller

variable {config : Config} {s s' : Controller config} {ref cmd entry : Command}
  {cond : Controller config → Op → Prop} {rank : Int}
  {rest : List Command} {ops : List Op} {i n : Nat}

/-! ## The rank of a waiting refresh -/

theorem getQueueIndex_eq {addr : Address} (h : config.HasBank addr.bankIndex) :
    (config.queueOf addr : Int) = config.getQueueIndex addr.rank addr.bankgroup addr.bank := by
  refine Int.toNat_of_nonneg ?_
  have hr : 0 ≤ addr.rank := h.1.1
  have hg : 0 ≤ addr.bankgroup := h.2.1.1
  have hb : 0 ≤ addr.bank := h.2.2.1
  unfold Config.getQueueIndex
  split
  · exact hr
  · positivity

/-- So no command goes to the rank. -/
theorem Dispatched.rank_ne (h : s.Healthy) (hd : Dispatched s i entry cmd s')
    (href : RefreshRequest config ref) (hty : ref.cmdType = .refresh)
    (hguards : Guards s.cmdQueue ref) : cmd.addr.rank ≠ ref.addr.rank := by
  intro heq
  rw [(hd.answer h).2.1] at heq
  obtain ⟨hqueue, it, hit⟩ := h.sound.entries i entry hd.mem
  have hbank : config.HasBank entry.bankIndex := hit ▸ hasBank_transToCommand it
  refine hd.turn.2 ⟨hguards.1, ?_⟩
  rw [hguards.2, CommandQueue.mem_getRefQIndices href]
  refine ⟨entry.bankIndex, hbank, ?_, ?_⟩
  · have hrank : ref.isRankCMD = true := by rw [Command.isRankCMD, hty]; rfl
    rw [Config.Reaches, if_pos hrank]
    exact Config.mem_rankBanks.mpr ⟨heq, hbank.2⟩
  · rw [← hqueue]
    exact getQueueIndex_eq hbank

theorem Again.refreshesBy {clk : Nat} (h : s.Healthy) (hagain : Again s s')
    (href : RefreshRequest config ref) (hty : ref.cmdType = .refresh)
    (hguards : Guards s.cmdQueue ref)
    (hn : ChannelState.RefreshesBy config s.channelState ref.addr.rank clk n) :
    ChannelState.RefreshesBy config s'.channelState ref.addr.rank clk n := by
  cases hagain with
  | ends hsame => rwa [hsame]
  | loses _ hsame => rwa [hsame]
  | serves _ hd => exact hn.other href.1.rank (hd.rank_ne h href hty hguards) hd.channel

/-- What a refresh of a rank is answered: itself, or the `PRECHARGE` of a bank that is open. -/
theorem answer_of_rank_refresh (hty : ref.cmdType = .refresh)
    (h : s.channelState.getReadyCommand config ref s.clk = .ok (some cmd)) :
    cmd = ref ∨ ∃ ix ∈ config.rankBanks ref.addr.rank,
      (s.channelState.bankStates ix).state = .opened ∧ cmd.cmdType = .precharge ∧
        cmd.bankIndex = ix := by
  have hrank : ref.isRankCMD = true := by rw [Command.isRankCMD, hty]; rfl
  cases ChannelState.getReadyCommand_spec h with
  | wholeRank => exact Or.inl rfl
  | @bankOfRank _ ix _ hix hdue hne haddr =>
      right
      rcases BankState.requiredType_of_isRankCMD hdue.1 hrank with ⟨_, heq⟩ | ⟨hopen, hpre⟩
      · exact absurd heq hne
      · refine ⟨ix, hix, hopen, hpre, ?_⟩
        rw [Command.bankIndex, haddr]
        obtain ⟨hr, _⟩ := Config.mem_rankBanks.mp hix
        cases ix
        cases hr
        rfl
  | bank hbank => rw [hrank] at hbank; cases hbank

/-- There is an answer as soon as every bank of the rank takes its command. -/
theorem exists_answer_of_due (hty : ref.cmdType = .refresh) (h : s.Healthy)
    (hdue : s.channelState.DueBy (· ∈ config.rankBanks ref.addr.rank) (· ∈ CommandType.ofRefresh)
      s.clk) : ∃ cmd, s.channelState.getReadyCommand config ref s.clk = .ok (some cmd) := by
  refine ChannelState.exists_getReadyCommand_of_rank (by rw [Command.isRankCMD, hty]; rfl) ?_
  intro ix hix
  have hrequired : ∃ ty ∈ CommandType.ofRefresh,
      (s.channelState.bankStates ix).requiredType ref = .ok ty := by
    unfold BankState.requiredType
    rcases h.awake ix with hopen | hclosed
    · exact ⟨.precharge, by decide, by rw [hopen, hty]⟩
    · exact ⟨.refresh, by decide, by rw [hclosed, hty]⟩
  obtain ⟨ty, hmem, hreq⟩ := hrequired
  exact ⟨ty, hreq, hdue ix hix ty hmem⟩

/-- A turn brings the first refresh that waits nearer, unless it is its own. -/
theorem Turn.refreshesBy (hturn : Turn s s') (h : s.Healthy)
    (hnonneg : ∀ d ∈ config.gaps CommandType.all CommandType.ofRefresh, 0 ≤ d)
    (hq : s.channelState.refreshQ = ref :: rest) (hty : ref.cmdType = .refresh)
    (hn : ChannelState.RefreshesBy config s.channelState ref.addr.rank s.clk n) :
    s'.channelState.refreshQ = rest ∨
      ChannelState.RefreshesBy config s'.channelState ref.addr.rank (s.clk + 1) (n - 1) := by
  have href : RefreshRequest config ref := h.sound.requests ref (by simp [hq])
  have hwait : s.PutsOff → ChannelState.RefreshesBy config s.channelState ref.addr.rank
      (s.clk + 1) (n - 1) := by
    intro hoff
    refine hn.wait fun hdue => ?_
    obtain ⟨cmd, hcmd⟩ := exists_answer_of_due hty h hdue
    rw [(hoff ref rest hq).1] at hcmd
    cases hcmd
  cases hturn with
  | idle hoff _ hquiet => exact Or.inr ((hwait hoff).same hquiet.banks)
  | serve hoff hd h₁ hagain =>
      have hguards := (hoff ref rest hq).2
      refine Or.inr (hagain.refreshesBy h₁ href hty ?_
        ((hwait hoff).other href.1.rank (hd.rank_ne h href hty hguards) hd.channel))
      rw [Guards, hd.marks.1, hd.marks.2]
      exact hguards
  | attend hfirst hanswer hguards hissued h₁ hagain =>
      cases hq.symm.trans hfirst
      rcases answer_of_rank_refresh hty hanswer with rfl | ⟨ix, hix, hopen, hpre, hbank⟩
      · rw [hagain.refreshQ h₁]
        exact Or.inl (ChannelState.refreshQ_of_refresh hissued.channel href.2 hq)
      · refine Or.inr (hagain.refreshesBy h₁ href hty ?_
          (hn.precharge href.1.rank hnonneg hix hopen ⟨hpre, hbank⟩ hissued.channel))
        rw [hissued.cmdQueue]
        exact hguards (by rw [Command.isRefresh, hpre]; rfl)

theorem Healthy.attends (h : s.Healthy) (hm : s.Marked) (htick : s.clockTick = .ok s') :
    s'.Attends (s.channelState.refreshQ ++ s.inserted) s.refreshes := by
  refine (clockTick_attends h.sound (fun _ hmem => ?_) hm htick).1
  rw [h.idle] at hmem
  cases hmem

theorem Healthy.refreshQ_nil (h : s.Healthy) (hm : s.Marked) (htick : s.clockTick = .ok s')
    (hnil : s.channelState.refreshQ ++ s.inserted = []) : s'.channelState.refreshQ = [] := by
  have hattends := h.attends hm htick
  rw [hnil] at hattends
  rcases hattends with ⟨hq, _⟩ | ⟨hq, _⟩
  · exact hq
  · cases hq

/-- A tick takes one off the ticks within which a requested refresh goes. -/
theorem refreshesBy_of_clockTick (hself : config.enableSelfRefresh = false) (h : s.Healthy)
    (hm : s.Marked) (hnonneg : ∀ d ∈ config.gaps CommandType.all CommandType.ofRefresh, 0 ≤ d)
    (hq : s.channelState.refreshQ ++ s.inserted = ref :: rest) (hty : ref.cmdType = .refresh)
    (hn : ChannelState.RefreshesBy config s.channelState ref.addr.rank s.clk n)
    (htick : s.clockTick = .ok s') :
    s'.channelState.refreshQ = rest ∨ (s'.channelState.refreshQ = ref :: rest ∧
      ChannelState.RefreshesBy config s'.channelState ref.addr.rank s'.clk (n - 1)) := by
  have hattends := h.attends hm htick
  rw [hq] at hattends
  rcases hattends with ⟨hkept, -⟩ | ⟨hgone, -⟩
  · obtain ⟨s₁, s₂, hquiet, hq₁, hturn, rfl⟩ := clockTick_turn hself h hm htick
    rw [(clockTick_timers htick).1, ← hquiet.clk]
    refine (hturn.refreshesBy (h.quiet hquiet) hnonneg (hq₁.trans hq) hty ?_).imp
      (s₂.endTick_channelState.2.trans ·) fun hn' => ⟨hkept, hn'.same s₂.endTick_channelState.1⟩
    rw [hquiet.clk]
    exact hn.same hquiet.banks
  · cases hgone
    exact Or.inl rfl

/-! ## Runs -/

/-- In a run, no command of a rank is put off by more than the longest gap. -/
theorem dueBy_of_run {targets : List CommandType}
    (hnonneg : ∀ d ∈ config.gaps CommandType.all targets, 0 ≤ d)
    (hrun : ((controllerSystem config).restrict cond).Run ops s) :
    s.channelState.DueBy config.HasBank (· ∈ targets)
      (s.clk + longest (config.gaps CommandType.all targets)) := by
  refine issue_invariant hrun (fun s => s.channelState.DueBy config.HasBank (· ∈ targets)
    (s.clk + longest (config.gaps CommandType.all targets))) ?_ ⟨?_, ?_⟩
  · exact fun _ _ _ _ => Nat.zero_le _
  · intro s s' hs hsame
    exact (hs.same hsame.banks).mono (Nat.add_le_add_right hsame.clk _)
  · intro o s cmd s' _ _ _ _ _ hs _ hissued
    rw [hissued.clk]
    refine hs.update (fun _ hix => hix) hissued.channel fun ix _ ty hty d hd => ?_
    have hmem : d ∈ config.gaps CommandType.all targets :=
      Config.mem_gaps_of_governing (CommandType.mem_all _) hty hd
    have hlong := le_longest hmem
    exact addClk_le (hnonneg d hmem) (by omega)

theorem refreshesBy_of_run
    (hnonneg : ∀ d ∈ config.gaps CommandType.all CommandType.ofRefresh, 0 ≤ d)
    (hrun : (ordinarySystem config).Run ops s) (hrank : 0 ≤ rank ∧ rank < config.ranks) :
    ChannelState.RefreshesBy config s.channelState rank s.clk config.refreshDelay := by
  refine ⟨config.refreshGap, fun ix hix => ?_, ?_⟩
  · exact dueBy_of_run hnonneg hrun ix (Config.hasBank_of_mem_rankBanks hrank hix)
  · have hmul := Nat.mul_le_mul_right (config.prechargeGap + 1)
      (s.channelState.card_openBanks_le config rank)
    rw [Config.refreshDelay]
    omega

/-- The refresh that the timer asks for at its `k`-th interval, counted from zero. -/
def turnRequest (config : Config) (k : Nat) : Command :=
  ⟨.refresh, { rank := (k % config.ranks : Nat) }, toU64 (-1)⟩

theorem turnRequest_rank (config : Config) (k : Nat) :
    0 ≤ (turnRequest config k).addr.rank ∧ (turnRequest config k).addr.rank < config.ranks :=
  ⟨Int.natCast_nonneg _, Int.ofNat_lt.mpr (Nat.mod_lt _ config.ranks_pos)⟩

/-- How many intervals of the timer have passed. -/
def intervals (s : Controller config) : Nat := (s.clk - 1) / toU64 config.refreshInterval

theorem intervals_succ (interval clk : Nat) :
    clk / interval = (clk - 1) / interval + if clk % interval = 0 ∧ 0 < clk then 1 else 0 := by
  cases clk with
  | zero => simp
  | succ clk =>
      rw [Nat.add_sub_cancel, Nat.succ_div]
      simp only [Nat.dvd_iff_mod_eq_zero, Nat.succ_pos, and_true]

theorem not_rankIsSref_of_run (hself : config.enableSelfRefresh = false)
    (hrun : (ordinarySystem config).Run ops s) (hrank : 0 ≤ rank ∧ rank < config.ranks) :
    s.channelState.rankIsSref rank = false := by
  have hbank := Config.hasBank_of_mem_rankBanks hrank (config.exists_mem_rankBanks rank)
  refine Bool.eq_false_iff.mpr fun hflag => ?_
  have hstate := ((tended_of_run hrun).sref hbank).mpr hflag
  rcases awake_of_run hself hrun ⟨rank, 0, 0⟩ with h | h <;> rw [h] at hstate <;> cases hstate

/-- The timer asks for a refresh. -/
abbrev RefreshDue (s : Controller config) : Prop :=
  s.clk % toU64 config.refreshInterval = 0 ∧ 0 < s.clk

theorem isDue_of_run (hrun : ((controllerSystem config).restrict cond).Run ops s) :
    s.refresh.isDue = true ↔ s.RefreshDue := by
  rw [Refresh.isDue_iff, run_timer hrun.of_restrict, Refresh.timer, Refresh.setClk_clk]

/-- What a tick asks for. -/
theorem inserted_of_run (hpolicy : config.refreshPolicy = .rankLevelStaggered)
    (hself : config.enableSelfRefresh = false) (hrun : (ordinarySystem config).Run ops s) :
    s.inserted = if s.RefreshDue then [turnRequest config s.intervals] else [] := by
  have hnext : (s.refresh.nextRank : Nat) = s.intervals % config.ranks := by
    rw [run_timer hrun.of_restrict]
    exact Refresh.nextRank_iterate hpolicy _
  have hrank : s.refresh.nextIndex.rank = (s.intervals % config.ranks : Nat) := by
    rw [← hnext]
    rfl
  have hlt := s.refresh.nextRank.isLt
  have hawake : s.channelState.rankIsSref s.refresh.nextIndex.rank = false :=
    not_rankIsSref_of_run hself hrun ⟨by omega, by omega⟩
  rw [inserted, Refresh.inserted]
  refine if_congr (isDue_of_run hrun) ?_ rfl
  rw [Refresh.insertRefresh_refreshQ_eq (by rw [hpolicy]; decide), hawake, List.drop_left,
    if_neg Bool.false_ne_true, Refresh.requestFor, hpolicy, hrank]
  rfl

/-- At most one refresh waits, and it goes before the given time. -/
def WaitsUntil (s : Controller config) (time : Nat) : Prop :=
  s.channelState.refreshQ = [] ∨ ∃ ref n, s.channelState.refreshQ = [ref] ∧
    ChannelState.RefreshesBy config s.channelState ref.addr.rank s.clk n ∧ s.clk + n ≤ time

/-- The refreshes that have been asked for are issued in their order, and the one that waits will
be gone before the next one comes. -/
structure OnTime (s : Controller config) : Prop where
  history : s.refreshes ++ s.channelState.refreshQ =
    (List.range s.intervals).map (turnRequest config)
  waiting : s.WaitsUntil (s.intervals * toU64 config.refreshInterval + config.refreshDelay)

/-- The request before has gone when the next one comes. -/
theorem OnTime.refreshQ_of_due (h : s.OnTime)
    (hdelay : config.refreshDelay ≤ toU64 config.refreshInterval)
    (hdue : s.RefreshDue) : s.channelState.refreshQ = [] := by
  rcases h.waiting with hnil | ⟨ref, n, _, hn, hle⟩
  · exact hnil
  · have hpos := hn.pos
    have hnext : s.clk = (s.intervals + 1) * toU64 config.refreshInterval := by
      have hsucc := intervals_succ (toU64 config.refreshInterval) s.clk
      rw [if_pos hdue] at hsucc
      rw [intervals, ← hsucc]
      exact (Nat.div_mul_cancel (Nat.dvd_of_mod_eq_zero hdue.1)).symm
    rw [Nat.add_mul] at hnext
    omega

theorem OnTime.cmdType (h : s.OnTime) (hmem : ref ∈ s.channelState.refreshQ) :
    ref.cmdType = .refresh := by
  have hasked : ref ∈ (List.range s.intervals).map (turnRequest config) := by
    rw [← h.history]
    exact List.mem_append_right _ hmem
  obtain ⟨k, _, rfl⟩ := List.mem_map.mp hasked
  rfl

/-- Nothing but a tick touches the refreshes. -/
theorem OnTime.follows (h : s.OnTime) (hfollows : Follows s s') (hdevice : SameDevice s s') :
    s'.OnTime := by
  refine ⟨?_, ?_⟩
  · rw [hfollows.refreshes, hfollows.refreshQ, intervals, hdevice.clk]
    exact h.history
  · rw [WaitsUntil, hdevice.channelState, intervals, hdevice.clk]
    exact h.waiting

/-- A tick with one request ends without it or nearer to it. -/
theorem waiting_of_clockTick (hself : config.enableSelfRefresh = false) (h : s.Healthy)
    (hm : s.Marked) (hnonneg : ∀ d ∈ config.gaps CommandType.all CommandType.ofRefresh, 0 ≤ d)
    (hq : s.channelState.refreshQ ++ s.inserted = [ref]) (hty : ref.cmdType = .refresh)
    (hn : ChannelState.RefreshesBy config s.channelState ref.addr.rank s.clk n)
    (htick : s.clockTick = .ok s') :
    s'.WaitsUntil (s.clk + n) := by
  refine (refreshesBy_of_clockTick hself h hm hnonneg hq hty hn htick).imp_right ?_
  rintro ⟨hq', hn'⟩
  refine ⟨ref, n - 1, hq', hn', ?_⟩
  have hpos := hn.pos
  rw [(clockTick_timers htick).1]
  omega

section Staggered

variable (hpolicy : config.refreshPolicy = .rankLevelStaggered)
  (hself : config.enableSelfRefresh = false)
  (hnonneg : ∀ d ∈ config.gaps CommandType.all CommandType.ofRefresh, 0 ≤ d)
  (hdelay : config.refreshDelay ≤ toU64 config.refreshInterval)

include hpolicy hself hnonneg hdelay

theorem OnTime.tick (h : s.OnTime) (hrun : (ordinarySystem config).Run ops s)
    (htick : s.clockTick = .ok s') : s'.OnTime := by
  have hhealthy := healthy_of_run hself hrun
  have hmarked := marked_of_run hrun
  have hclk := (clockTick_timers htick).1
  have hinserted := inserted_of_run hpolicy hself hrun
  have hintervals : s'.intervals = s.intervals + if s.RefreshDue then 1 else 0 := by
    rw [intervals, hclk, Nat.add_sub_cancel]
    exact intervals_succ _ _
  have hattends := hhealthy.attends hmarked htick
  have hhistory : s'.refreshes ++ s'.channelState.refreshQ =
      s.refreshes ++ (s.channelState.refreshQ ++ s.inserted) := by
    rcases hattends with ⟨hq, hr⟩ | ⟨hq, hr⟩
    · rw [hq, hr]
    · rw [hq, hr, List.append_assoc]
      rfl
  refine ⟨?_, ?_⟩
  · rw [hhistory, ← List.append_assoc, h.history, hinserted, hintervals]
    split
    · rw [List.range_succ, List.map_append]
      rfl
    · rw [Nat.add_zero, List.append_nil]
  by_cases hdue : s.RefreshDue
  · rw [if_pos hdue] at hinserted hintervals
    have hlast : s.clk = s'.intervals * toU64 config.refreshInterval := by
      rw [intervals, hclk, Nat.add_sub_cancel]
      exact (Nat.div_mul_cancel (Nat.dvd_of_mod_eq_zero hdue.1)).symm
    have hnil := h.refreshQ_of_due hdelay hdue
    have hq : s.channelState.refreshQ ++ s.inserted = [turnRequest config s.intervals] := by
      rw [hnil, hinserted, List.nil_append]
    have hn := refreshesBy_of_run hnonneg hrun (turnRequest_rank config s.intervals)
    rw [← hlast]
    exact waiting_of_clockTick hself hhealthy hmarked hnonneg hq rfl hn htick
  · rw [if_neg hdue] at hinserted hintervals
    rw [hintervals, Nat.add_zero]
    rcases h.waiting with hnil | ⟨ref, n, hq, hn, hle⟩
    · exact Or.inl (hhealthy.refreshQ_nil hmarked htick (by rw [hnil, hinserted]; rfl))
    · have hty : ref.cmdType = .refresh := h.cmdType (by rw [hq]; exact List.mem_singleton_self _)
      have hq' : s.channelState.refreshQ ++ s.inserted = [ref] := by rw [hinserted, hq]; rfl
      refine (waiting_of_clockTick hself hhealthy hmarked hnonneg hq' hty hn htick).imp_right ?_
      rintro ⟨ref', m, hq'', hm, hle'⟩
      exact ⟨ref', m, hq'', hm, hle'.trans hle⟩

theorem onTime_of_run (hrun : (ordinarySystem config).Run ops s) : s.OnTime := by
  induction hrun with
  | start =>
      refine ⟨?_, Or.inl rfl⟩
      show [] = (List.range ((0 - 1) / _)).map _
      rw [Nat.zero_sub, Nat.zero_div]
      rfl
  | @step ops s s' op hrun hstep ih =>
      obtain ⟨hop, hordinary⟩ := hstep
      cases op with
      | tick => exact ih.tick hpolicy hself hnonneg hdelay hrun hop
      | add it =>
          have hfollows := follows_of_step (by simp) hop
          obtain ⟨-, rfl⟩ := hop
          exact ih.follows hfollows (s.addTransaction_sameDevice it)
      | done clk =>
          have hfollows := follows_of_step (by simp) hop
          cases hop
          exact ih.follows hfollows (s.returnDoneTrans_sameDevice clk)
      | pushRdW | pushRdIn | pushWr | setInPim | setWrMultitenant => cases hordinary

/-- Under `RANK_LEVEL_STAGGERED`, without self refresh and PIM commands, whatever transactions come
in: if no gap before a refresh is negative and the interval of the timer is no shorter than
`refreshDelay`, the ranks are refreshed in turn, never before the timer asks for it and each at
most `refreshDelay` cycles later. -/
theorem ranks_refreshed_in_time (hrun : (ordinarySystem config).Run ops s) :
    ∃ n, s.refreshes = (List.range n).map (turnRequest config) ∧
      (∀ k < n, (k + 1) * toU64 config.refreshInterval < s.clk) ∧
      ∀ k, (k + 1) * toU64 config.refreshInterval + config.refreshDelay ≤ s.clk → k < n := by
  have h := onTime_of_run hpolicy hself hnonneg hdelay hrun
  have hpos : 0 < config.refreshDelay := Nat.succ_pos _
  have hinterval : 0 < toU64 config.refreshInterval := hpos.trans_le hdelay
  -- as many have been asked for as intervals have passed
  have hasked : ∀ k, k < s.intervals ↔ (k + 1) * toU64 config.refreshInterval < s.clk := by
    intro k
    rw [intervals, ← Nat.add_one_le_iff, Nat.le_div_iff_mul_le hinterval]
    have := Nat.mul_pos k.add_one_pos hinterval
    omega
  have hlen : s.refreshes.length + s.channelState.refreshQ.length = s.intervals := by
    simpa using congrArg List.length h.history
  have htake := congrArg (List.take s.refreshes.length) h.history
  rw [List.take_left, ← List.map_take, List.take_range, Nat.min_eq_left (by omega)] at htake
  refine ⟨s.refreshes.length, htake, fun k hk => (hasked k).mp (by omega), fun k hk => ?_⟩
  rcases h.waiting with hnil | ⟨ref, n, hq, hn, hle⟩
  · rw [hnil, List.length_nil, Nat.add_zero] at hlen
    rw [hlen]
    exact (hasked k).mpr (by omega)
  · rw [hq, List.length_singleton] at hlen
    have hn' := hn.pos
    have hlt : (k + 1) * toU64 config.refreshInterval <
        s.intervals * toU64 config.refreshInterval := by omega
    have := Nat.lt_of_mul_lt_mul_right hlt
    omega

end Staggered

/-- Two banks, refreshed every 60 cycles. -/
def shortInterval : Config :=
  { Config.defaults with
    bankgroups := 1, bankgroups_pos := Nat.one_pos, baPos := 7, roPos := 8, chPos := 24
    tREFI := 60, tRFC := 8, tXS := 4 }

/-- A row that has been opened for a read is closed again in time. -/
theorem ranks_refreshed_in_time_read :
    ∃ s : Controller shortInterval,
      (ordinarySystem shortInterval).Run
        (.add ⟨0, false, 0, 0⟩ :: List.replicate 119 .tick) s ∧
      ∃ n, s.refreshes = (List.range n).map (turnRequest shortInterval) ∧ 0 < n := by
  have hsome : ((replay shortInterval (.add ⟨0, false, 0, 0⟩ :: List.replicate 119 .tick)).any
      fun s => s.clk = 119) = true := by
    decide +kernel
  obtain ⟨s, hs, hclk⟩ := (Option.any_eq_true _ _).mp hsome
  rw [decide_eq_true_eq] at hclk
  have hrun := ordinary_of_replay hs (by decide)
  obtain ⟨n, hissued, _, hlate⟩ :=
    ranks_refreshed_in_time rfl rfl (by decide) (by decide) hrun
  exact ⟨s, hrun, n, hissued, hlate 0 (by rw [hclk]; decide)⟩

end Controller

end Dramsim
