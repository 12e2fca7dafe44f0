import Dramsim.Channel.Legality
import Dramsim.Controller.RefreshOrder

/-!
# Per-bank refresh without traffic

Under `BANK_LEVEL_STAGGERED` a bank is asked for every `tREFIb` cycles.  The tables keep a
`REFRESH_BANK` away from the other banks of its rank by `refresh_to_refresh`, which is
`tREFI`.  In a controller without transactions nothing else can delay a refresh, so if this
gap fits into the interval every request is served in the cycle in which it is made
(`bank_refresh_keeps_up`).  With the usual `tREFI`, several times `tREFIb`, the requests
pile up.
-/

namespace Dramsim

/-- The gap that the tables put between the refreshes of a rank fits into the interval, or
the rank has only one bank. -/
def Config.BankRefreshFits (config : Config) : Prop :=
  config.banks = 1 ∨ config.tREFI.natAbs ≤ toU64 config.tREFIb

instance (config : Config) : Decidable config.BankRefreshFits :=
  inferInstanceAs (Decidable (_ ∨ _))

namespace Config

variable {config : Config}

/-- A rank of one bank has no other bank. -/
theorem eq_of_banks_eq_one (h : config.banks = 1) {ix ix' : BankIndex} (hix : config.HasBank ix)
    (hix' : config.HasBank ix') (hrank : ix.rank = ix'.rank) : ix = ix' := by
  have hgroups : config.bankgroups = 1 := Nat.eq_one_of_mul_eq_one_right h
  have hper : config.banksPerGroup = 1 := Nat.eq_one_of_mul_eq_one_left h
  obtain ⟨_, ⟨hg0, hg⟩, hb0, hb⟩ := hix
  obtain ⟨_, ⟨hg0', hg'⟩, hb0', hb'⟩ := hix'
  cases ix
  cases ix'
  simp only [BankIndex.mk.injEq] at *
  omega

end Config

namespace ChannelState

variable {config : Config} {s s' : ChannelState} {cmd : Command} {clk : Nat}

/-- Where no command but refreshes and `SREF_ENTER` has been issued: the banks of a rank that
is awake are closed, and every bank is ready for a refresh when the next request comes. -/
structure Rested (config : Config) (s : ChannelState) (clk : Nat) : Prop where
  closed : ∀ ix, config.HasBank ix → s.rankIsSref ix.rank = false →
    (s.bankStates ix).state = .closed
  due : ∀ ix, config.HasBank ix → ∀ t, clk ≤ t → t % toU64 config.tREFIb = 0 → 0 < t →
    (s.bankStates ix).cmdTiming .refreshBank ≤ t

theorem Rested.mono (h : s.Rested config clk) {clk' : Nat} (hle : clk ≤ clk') :
    s.Rested config clk' :=
  ⟨h.closed, fun ix hix t ht => h.due ix hix t (hle.trans ht)⟩

/-- A request that comes in time is ready. -/
theorem Rested.ready (h : s.Rested config clk) (hcmd : cmd.cmdType = .refreshBank)
    (hbank : config.HasBank cmd.bankIndex) (hawake : s.rankIsSref cmd.addr.rank = false)
    (hclk : clk % toU64 config.tREFIb = 0) (hpos : 0 < clk) :
    s.getReadyCommand config cmd clk = .ok (some cmd) := by
  obtain ⟨ty, addr, hexAddr⟩ := cmd
  subst hcmd
  have hclosed : (s.bankStates addr.bankIndex).state = .closed := h.closed _ hbank hawake
  have htime := h.due _ hbank clk le_rfl hclk hpos
  have hbankReady : (s.bankStates addr.bankIndex).getReadyCommand
      ⟨.refreshBank, addr, hexAddr⟩ clk = .ok (some ⟨.refreshBank, addr, hexAddr⟩) := by
    rw [BankState.getReadyCommand_eq_some]
    refine ⟨?_, htime, rfl, rfl⟩
    rw [BankState.requiredType, hclosed]
  have hrank : (⟨.refreshBank, addr, hexAddr⟩ : Command).isRankCMD = false := rfl
  rw [getReadyCommand, hrank, if_neg Bool.false_ne_true, Command.bankIndex, hbankReady]
  rfl

/-- A refresh delays only the refreshes of the other banks of the rank. -/
theorem mem_governing_refreshBank {ix : BankIndex} {d : Int} (hcmd : cmd.cmdType = .refreshBank)
    (h : (.refreshBank, d) ∈ (Timing.ofConfig config).governing cmd ix) :
    ix.rank = cmd.addr.rank ∧ ix ≠ cmd.bankIndex ∧ d = config.tREFI := by
  have hrank : cmd.isRankCMD = false := by rw [Command.isRankCMD, hcmd]; rfl
  have hpim : cmd.cmdType.isPimColumn = false := by rw [hcmd]; rfl
  rw [Timing.governing, hrank, if_neg Bool.false_ne_true, hpim, if_neg Bool.false_ne_true,
    hcmd] at h
  have hself : ix = cmd.bankIndex ↔ cmd.addr.position ix = .sameBank :=
    Address.position_eq_sameBank.symm
  have hother : ix.rank ≠ cmd.addr.rank → cmd.addr.position ix = .otherRank := fun hne => by
    rw [Address.position, if_pos hne]
  cases hpos : cmd.addr.position ix <;>
    rw [hpos] at h hself hother <;>
    simp [Timing.atPosition, Timing.ofConfig, Timing.sameBankOf, Timing.otherBanksSameBankgroupOf,
      Timing.otherBankgroupsSameRankOf, Timing.otherRanksOf, Timing.refreshBankRow,
      Timing.refreshToRefresh] at h hself hother
  all_goals exact ⟨hother, hself, h⟩

/-- The next request comes no earlier than one interval later. -/
theorem add_le_of_mod_eq_zero {t t' n : Nat} (h : t % n = 0) (h' : t' % n = 0) (hlt : t < t') :
    t + n ≤ t' := by
  obtain ⟨a, rfl⟩ := Nat.dvd_of_mod_eq_zero h
  obtain ⟨b, rfl⟩ := Nat.dvd_of_mod_eq_zero h'
  have hab : a + 1 ≤ b := Nat.lt_of_mul_lt_mul_left hlt
  calc n * a + n = n * (a + 1) := by rw [Nat.mul_add, Nat.mul_one]
    _ ≤ n * b := Nat.mul_le_mul_left n hab

/-- The refresh of a bank, at the time at which it is asked for. -/
theorem Rested.refreshBank (hfits : config.BankRefreshFits) (h : s.Rested config clk)
    (hcmd : cmd.cmdType = .refreshBank) (hbank : config.HasBank cmd.bankIndex)
    (hclk : clk % toU64 config.tREFIb = 0) (hpos : 0 < clk)
    (hs : s.updateTimingAndStates config (Timing.ofConfig config) cmd clk = .ok s') :
    s'.Rested config (clk + 1) := by
  have hflag : s'.rankIsSref = s.rankIsSref := by
    rw [rankIsSref_of_update hs, hcmd, if_neg (by decide), if_neg (by decide)]
  have hrank : cmd.isRankCMD = false := by rw [Command.isRankCMD, hcmd]; rfl
  refine ⟨fun ix hix hawake => ?_, fun ix hix t ht hmod ht0 => ?_⟩
  · rw [hflag] at hawake
    have hclosed := h.closed ix hix hawake
    by_cases hreach : config.Reaches cmd ix
    · obtain ⟨s₁, hs₁, rfl⟩ := updateTimingAndStates_spec hs
      have htaken := hs₁.taken ix hreach
      rw [updateTiming_state]
      simp only [BankState.updateState, hclosed, hcmd, Except.ok.injEq] at htaken
      rw [← htaken, hclosed]
    · rw [state_of_not_reaches hs hreach, hclosed]
  · rw [cmdTiming_le_iff hs hix]
    refine ⟨h.due ix hix t (by omega) hmod ht0, fun d hd => ?_⟩
    obtain ⟨hsame, hne, rfl⟩ := mem_governing_refreshBank hcmd hd
    rcases hfits with hone | hfits
    · exact absurd (Config.eq_of_banks_eq_one hone hix hbank hsame) hne
    · have hnext := add_le_of_mod_eq_zero hclk hmod ht
      have hfirst := add_le_of_mod_eq_zero (Nat.zero_mod _) hclk hpos
      have hadd : (addClk clk config.tREFI : Int) = clk + config.tREFI :=
        addClk_of_nonneg (by omega)
      omega

/-- A rank that is awake and has rested is put to sleep as a whole. -/
theorem Rested.answer_srefEnter (h : s.Rested config clk) {i : Nat} (hi : i < config.ranks)
    (hawake : s.rankIsSref i = false) {clk' : Nat}
    (hready : s.getReadyCommand config ⟨.srefEnter, { rank := i }, toU64 (-1)⟩ clk' =
      .ok (some cmd)) : cmd = ⟨.srefEnter, { rank := i }, toU64 (-1)⟩ := by
  cases getReadyCommand_spec hready with
  | wholeRank _ _ => rfl
  | @bankOfRank _ ix hrank hmem hdue hne _ =>
      -- all banks of the rank are closed
      have hix := Config.hasBank_of_mem_rankBanks
        ⟨Int.natCast_nonneg i, Int.ofNat_lt.mpr hi⟩ hmem
      have hclosed := h.closed ix hix ((Config.mem_rankBanks.mp hmem).1 ▸ hawake)
      rcases BankState.requiredType_of_isRankCMD hdue.1 hrank with ⟨_, hty⟩ | ⟨hopen, _⟩
      · exact absurd hty hne
      · rw [hclosed] at hopen
        cases hopen
  | bank hrank _ _ _ _ => cases hrank

theorem Rested.srefEnter (h : s.Rested config clk) {i : Nat} {clk' : Nat}
    (hs : s.updateTimingAndStates config (Timing.ofConfig config)
      ⟨.srefEnter, { rank := i }, toU64 (-1)⟩ clk' = .ok s') : s'.Rested config clk := by
  have hflag := rankIsSref_of_update hs
  rw [if_pos rfl] at hflag
  refine ⟨fun ix hix hawake => ?_, fun ix hix t ht hmod ht0 => ?_⟩
  · rw [hflag] at hawake
    have hne : ix.rank ≠ i := fun he => by
      rw [he, Function.update_self] at hawake
      cases hawake
    have hreach : ¬ config.Reaches ⟨.srefEnter, { rank := i }, toU64 (-1)⟩ ix := fun hreach =>
      hne (Config.mem_rankBanks.mp hreach).1
    rw [Function.update_of_ne hne] at hawake
    rw [state_of_not_reaches hs hreach]
    exact h.closed ix hix hawake
  · rw [cmdTiming_le_iff hs hix]
    refine ⟨h.due ix hix t ht hmod ht0, fun d hd => ?_⟩
    simp [Timing.governing, Command.isRankCMD, CommandType.isRankCMD, Timing.ofConfig,
      Timing.sameRankOf] at hd

end ChannelState

namespace CommandQueue

variable {config : Config}

/-- Empty queues select nothing. -/
theorem commandFrom_of_empty (channel : ChannelState) :
    ∀ (n : Nat) (q : CommandQueue config), (∀ i, q.queues i = []) →
      ∃ q', commandFrom channel n q = .ok (none, q') ∧ SameQueues q q'
  | 0, q, _ => ⟨q, rfl, .refl q⟩
  | n + 1, q, hq => by
      obtain ⟨q', hq', hsame⟩ := commandFrom_of_empty channel n q.getNextQueue hq
      have hnext : SameQueues q q.getNextQueue := ⟨rfl, rfl, rfl⟩
      refine ⟨q', ?_, hnext.trans hsame⟩
      have hnone : q.getNextQueue.queues q.getNextQueue.queueIdx = [] := hq _
      rw [commandFrom, hnone]
      split
      · exact hq'
      · exact hq'

/-- A first request that is ready is answered by itself. -/
theorem finishRefresh_of_ready {channel : ChannelState} {q : CommandQueue config} {ref : Command}
    {rest : List Command} (hq : channel.refreshQ = ref :: rest) (href : ref.isRefresh = true)
    (hready : channel.getReadyCommand config ref q.clk = .ok (some ref)) :
    ∃ q', q.finishRefresh channel = .ok (some ref, q') ∧ SameQueues q q' := by
  unfold finishRefresh
  rw [hq]
  dsimp only
  have hclk : (if (!q.isInRef) = true then
      { q with refQIndices := q.refQIndices ++ getRefQIndices config ref, isInRef := true }
      else q).clk = q.clk := by
    split <;> rfl
  rw [hclk, hready]
  refine ⟨_, if_pos href, ?_⟩
  split <;> exact ⟨rfl, rfl, rfl⟩

end CommandQueue

namespace Refresh

variable {config : Config} {r r' : Refresh config} {channel channel' : ChannelState}

/-- The request for the bank whose turn it is. -/
def nextRequest (r : Refresh config) : Command :=
  ⟨.refreshBank,
    { rank := (r.nextRank : Nat), bankgroup := (r.nextBg : Nat), bank := (r.nextBank : Nat) },
    toU64 (-1)⟩

theorem hasBank_nextRequest (r : Refresh config) : config.HasBank r.nextRequest.bankIndex := by
  have hr := r.nextRank.isLt
  have hg := r.nextBg.isLt
  have hb := r.nextBank.isLt
  simp only [Config.HasBank, nextRequest, Command.bankIndex, Address.bankIndex]
  omega

/-- Under the policy of single banks, a tick appends at most the next request, and only for
a rank that is awake. -/
theorem clockTick_bank (hpolicy : config.refreshPolicy = .bankLevelStaggered)
    (h : r.clockTick channel = .ok (r', channel')) :
    r'.clk = r.clk + 1 ∧
      channel' = { channel with refreshQ := channel.refreshQ ++
        if r.isDue && !channel.rankIsSref (r.nextRank : Nat) then [r.nextRequest] else [] } := by
  obtain ⟨-, rfl, rfl⟩ := clockTick_eq h
  refine ⟨setClk_clk _ _, ?_⟩
  cases r.isDue with
  | false => simp
  | true =>
      rw [if_pos rfl, insertRefresh, hpolicy, Bool.true_and]
      cases hsleep : channel.rankIsSref (r.nextRank : Nat) with
      | true => simp [hsleep]
      | false => simp only [hsleep]; rfl

end Refresh

namespace Controller

variable {config : Config} {s s' : Controller config}

/-- No transaction and no command waits. -/
structure Idle (s : Controller config) : Prop where
  queues : ∀ i, s.cmdQueue.queues i = []
  unifiedQueue : s.unifiedQueue = []
  readQueue : s.readQueue = []
  writeBuffer : s.writeBuffer = []
  pim : s.pimIdle = true

theorem Idle.of_queue (h : s.Idle) {q : CommandQueue config} (hq : s.cmdQueue.SameQueues q) :
    Idle { s with cmdQueue := q } :=
  ⟨fun i => by rw [hq.queues]; exact h.queues i, h.unifiedQueue, h.readQueue, h.writeBuffer, h.pim⟩

theorem Idle.issued {cmd : Command} (h : s.Idle) (hs : Issued s cmd s') : s'.Idle where
  queues := by rw [hs.cmdQueue]; exact h.queues
  unifiedQueue := hs.unifiedQueue.trans h.unifiedQueue
  readQueue := hs.readQueue.trans h.readQueue
  writeBuffer := hs.writeBuffer.trans h.writeBuffer
  pim := by rw [pimIdle, hs.rdWCmds, hs.rdInCmds, hs.wrCmds]; exact h.pim

theorem Idle.getCommandToIssue (h : s.Idle) : ∃ q,
    s.getCommandToIssue = .ok (none, { s with cmdQueue := q }) ∧ s.cmdQueue.SameQueues q := by
  obtain ⟨q, hq, hsame⟩ := CommandQueue.commandFrom_of_empty s.channelState config.numQueues
    s.cmdQueue h.queues
  refine ⟨q, ?_, hsame⟩
  rw [Controller.getCommandToIssue, CommandQueue.getCommandToIssue, hq]
  rfl

/-- Without a request nothing is issued. -/
theorem Idle.issueCommands (h : s.Idle) (hq : s.channelState.refreshQ = []) : ∃ q,
    s.issueCommands = .ok (false, { s with cmdQueue := q }) ∧ s.cmdQueue.SameQueues q := by
  obtain ⟨q, hget, hsame⟩ := h.getCommandToIssue
  refine ⟨q, ?_, hsame⟩
  have hpim : pimIdle { s with cmdQueue := q } = true := h.pim
  have hwait : s.channelState.isRefreshWaiting = false := by
    rw [ChannelState.isRefreshWaiting, hq]
    rfl
  have hsel : s.selectCommand = .ok (none, { s with cmdQueue := q }) := by
    rw [selectCommand, hwait, if_neg Bool.false_ne_true, hget]
  rw [Controller.issueCommands, hsel]
  show (if (false || pimIdle { s with cmdQueue := q }) = true then _ else _) = _
  rw [hpim]
  rfl

/-- A request that is ready is issued. -/
theorem Idle.issueCommands_of_ready (h : s.Idle) {ref : Command} {issued : Bool}
    (hq : s.channelState.refreshQ = [ref]) (href : ref.isRefresh = true)
    (hready : s.channelState.getReadyCommand config ref s.cmdQueue.clk = .ok (some ref))
    (hs : s.issueCommands = .ok (issued, s')) :
    issued = true ∧ ∃ q s₁ q', s.cmdQueue.SameQueues q ∧
      issueCommand { s with cmdQueue := q } ref = .ok s₁ ∧ s₁.cmdQueue.SameQueues q' ∧
      s' = { s₁ with cmdQueue := q' } := by
  obtain ⟨q, hfinish, hsame⟩ := CommandQueue.finishRefresh_of_ready hq href hready
  have hsel : s.selectCommand = .ok (some ref, { s with cmdQueue := q }) := by
    have hwait : s.channelState.isRefreshWaiting = true := by
      rw [ChannelState.isRefreshWaiting, hq]
      rfl
    rw [selectCommand, hwait, if_pos rfl, hfinish]
    rfl
  rw [Controller.issueCommands, hsel] at hs
  simp only [bind, Except.bind, Option.any_some, href, Bool.true_or, if_true] at hs
  obtain ⟨s₂, hs₂, hs⟩ := Library.bind_eq_ok.mp hs
  cases hs
  obtain ⟨s₁, hs₁, hs₂⟩ := Library.bind_eq_ok.mp hs₂
  obtain ⟨q', hget, hsame'⟩ :=
    ((h.of_queue hsame).issued (issueCommand_spec hs₁)).getCommandToIssue
  refine ⟨rfl, q, s₁, ?_⟩
  split at hs₂
  · rw [hget] at hs₂
    cases hs₂
    exact ⟨q', hsame, hs₁, hsame', rfl⟩
  · cases hs₂
    exact ⟨_, hsame, hs₁, .refl _, rfl⟩

/-- The scheduler has nothing to do. -/
theorem Idle.scheduleTransaction (h : s.Idle) :
    ∃ draining, s.scheduleTransaction = { s with writeDraining := draining } := by
  obtain ⟨draining, -, hstart⟩ := s.startDraining_eq
  have hempty : s.startDraining.scheduledQueue = [] := by
    rw [hstart]
    unfold scheduledQueue
    split
    · exact h.unifiedQueue
    · split
      · exact h.writeBuffer
      · exact h.readQueue
  refine ⟨draining, ?_⟩
  rw [scheduleTransaction_of_none (by rw [hempty]; rfl), hstart]

/-! ## Ticks without transactions -/

/-- What holds within a tick and between two ticks; `clk` is the time that the next request
has to wait for. -/
structure Rested (s : Controller config) (clk : Nat) : Prop extends Idle s where
  refreshQ : s.channelState.refreshQ = []
  queueClk : s.cmdQueue.clk = s.clk
  channel : s.channelState.Rested config clk

theorem Rested.init : Rested ({} : Controller config) 0 where
  queues := fun _ => rfl
  unifiedQueue := rfl
  readQueue := rfl
  writeBuffer := rfl
  pim := rfl
  refreshQ := rfl
  queueClk := rfl
  channel := ⟨fun _ _ _ => rfl, fun _ _ _ _ _ _ => Nat.zero_le _⟩

/-- The commands of a tick.  A request is issued in the cycle in which it is made. -/
theorem Rested.issueCommands (hpolicy : config.refreshPolicy = .bankLevelStaggered)
    (hfits : config.BankRefreshFits) (h : s.Rested s.clk) (hclk : s.refresh.clk = s.clk)
    {s₀ s₁ : Controller config} {issued : Bool} (htick : s.tickRefresh = .ok s₀)
    (hs : s₀.issueCommands = .ok (issued, s₁)) :
    s₁.Rested (s.clk + 1) ∧ s₁.clk = s.clk ∧ s₁.refresh.clk = s.clk + 1 := by
  obtain ⟨⟨refresh, channel⟩, hclock, htick⟩ := Library.bind_eq_ok.mp htick
  obtain ⟨hrefresh, rfl⟩ := Refresh.clockTick_bank hpolicy hclock
  rw [hclk] at hrefresh
  cases htick
  rw [h.refreshQ, List.nil_append] at hs
  split at hs
  · rename_i hreq
    rw [Bool.and_eq_true, Bool.not_eq_true', Refresh.isDue, Bool.and_eq_true, decide_eq_true_eq,
      decide_eq_true_eq, hclk, Config.refreshInterval, hpolicy] at hreq
    obtain ⟨⟨hmod, hpos⟩, hawake⟩ := hreq
    have hbank := s.refresh.hasBank_nextRequest
    have hchannel : ChannelState.Rested config
        { s.channelState with refreshQ := [s.refresh.nextRequest] } s.clk :=
      ⟨h.channel.closed, h.channel.due⟩
    have hready := hchannel.ready rfl hbank hawake hmod hpos
    rw [← h.queueClk] at hready
    have hidle : Idle { s with
        refresh := refresh
        channelState := { s.channelState with refreshQ := [s.refresh.nextRequest] } } :=
      ⟨h.queues, h.unifiedQueue, h.readQueue, h.writeBuffer, h.pim⟩
    obtain ⟨-, q, s₂, q', hsame, hissue, hsame', rfl⟩ :=
      hidle.issueCommands_of_ready rfl rfl hready hs
    have hissued := issueCommand_spec hissue
    have hq : s₂.channelState.refreshQ = [] :=
      ChannelState.refreshQ_of_refresh hissued.channel rfl rfl
    have hclk₂ : s₂.cmdQueue.clk = s.clk := by
      rw [hissued.cmdQueue]
      exact hsame.clk.trans h.queueClk
    refine ⟨⟨((hidle.of_queue hsame).issued hissued).of_queue hsame', hq, ?_, ?_⟩, hissued.clk, ?_⟩
    · exact (hsame'.clk.trans hclk₂).trans hissued.clk.symm
    · exact hchannel.refreshBank hfits rfl hbank hmod hpos hissued.channel
    · show s₂.refresh.clk = s.clk + 1
      rw [(issueCommand_frame hissue).refresh]
      exact hrefresh
  · have hidle :
        Idle { s with refresh, channelState := { s.channelState with refreshQ := [] } } :=
      ⟨h.queues, h.unifiedQueue, h.readQueue, h.writeBuffer, h.pim⟩
    obtain ⟨q, hissue, hsame⟩ := hidle.issueCommands rfl
    rw [hissue] at hs
    cases hs
    have hchannel : ChannelState.Rested config { s.channelState with refreshQ := [] } s.clk :=
      ⟨h.channel.closed, h.channel.due⟩
    exact ⟨⟨hidle.of_queue hsame, rfl, hsame.clk.trans h.queueClk, hchannel.mono (Nat.le_succ _)⟩,
      rfl, hrefresh⟩

/-- A tick takes the request that it makes, and may put a rank to sleep. -/
theorem Rested.clockTick (hpolicy : config.refreshPolicy = .bankLevelStaggered)
    (hfits : config.BankRefreshFits) (h : s.Rested s.clk) (hclk : s.refresh.clk = s.clk)
    (hs : s.clockTick = .ok s') : s'.Rested s'.clk ∧ s'.refresh.clk = s'.clk := by
  obtain ⟨s₀, issued, s₁, s₂, htick, hissue, hsleep, rfl⟩ := clockTick_parts hs
  obtain ⟨h₁, hclk₁, hrefresh⟩ := h.issueCommands hpolicy hfits hclk htick hissue
  have hidle : s₁.updateIdleCycles.Rested (s.clk + 1) :=
    ⟨⟨h₁.queues, h₁.unifiedQueue, h₁.readQueue, h₁.writeBuffer, h₁.pim⟩, h₁.refreshQ, h₁.queueClk,
      h₁.channel.closed, h₁.channel.due⟩
  have h₂ : s₂.Rested (s.clk + 1) ∧ s₂.clk = s.clk ∧ s₂.refresh.clk = s.clk + 1 := by
    rcases hsleep with rfl | ⟨_, _, hsleep⟩
    · exact ⟨hidle, hclk₁, hrefresh⟩
    · rcases updateSelfRefresh_cases _ hsleep with rfl | ⟨i, hi, cmd, hawake, hready, hissue⟩
      · exact ⟨hidle, hclk₁, hrefresh⟩
      · have hissued := issueCommand_spec hissue
        obtain rfl := hidle.channel.answer_srefEnter (List.mem_range.mp hi) hawake hready
        have hq := (hissued.follows rfl).refreshQ.trans hidle.refreshQ
        refine ⟨⟨hidle.toIdle.issued hissued, hq, ?_, hidle.channel.srefEnter hissued.channel⟩,
          hissued.clk.trans hclk₁,
          (congrArg Refresh.clk ((issueCommand_frame hissue).refresh)).trans hrefresh⟩
        rw [hissued.cmdQueue, hidle.queueClk, hissued.clk]
  obtain ⟨h₂, hclk₂, hrefresh₂⟩ := h₂
  obtain ⟨draining, hsched⟩ := h₂.toIdle.scheduleTransaction
  rw [hsched]
  refine ⟨⟨⟨h₂.queues, h₂.unifiedQueue, h₂.readQueue, h₂.writeBuffer, h₂.pim⟩, h₂.refreshQ,
    congrArg (· + 1) h₂.queueClk, ?_⟩, ?_⟩
  · show s₂.channelState.Rested config (s₂.clk + 1)
    rw [hclk₂]
    exact h₂.channel
  · show s₂.refresh.clk = s₂.clk + 1
    rw [hrefresh₂, hclk₂]

/-- In every run without transactions, a controller whose bank refreshes fit into the
interval has at most one request waiting after each tick. -/
theorem bank_refresh_keeps_up (hpolicy : config.refreshPolicy = .bankLevelStaggered)
    (hfits : config.BankRefreshFits) {n : Nat}
    (hrun : (controllerSystem config).Run (List.replicate n .tick) s) :
    s.channelState.refreshQ.length ≤ 1 := by
  have hticks : ((controllerSystem config).restrict fun _ op => op = .tick).Run _ s :=
    hrun.restrict_labels fun op hop => List.eq_of_mem_replicate hop
  have h : s.Rested s.clk ∧ s.refresh.clk = s.clk := by
    refine hticks.invariant (fun s => s.Rested s.clk ∧ s.refresh.clk = s.clk) ⟨.init, rfl⟩ ?_
    rintro s op s' ⟨h, hclk⟩ ⟨hstep, rfl⟩
    exact h.clockTick hpolicy hfits hclk hstep
  rw [h.1.refreshQ]
  exact Nat.zero_le 1

/-- One request every four cycles, and all gaps of four cycles. -/
theorem bank_refresh_keeps_up_four :
    ∃ s : Controller { Config.defaults with
        refreshPolicy := .bankLevelStaggered, tREFIb := 4, tREFI := 4, tRFC := 4, tRFCb := 4 },
      s.refreshes.length = 3 ∧ s.channelState.refreshQ.length ≤ 1 := by
  have hsome : ((replay { Config.defaults with
      refreshPolicy := .bankLevelStaggered, tREFIb := 4, tREFI := 4, tRFC := 4, tRFCb := 4 }
      (List.replicate 13 .tick)).any fun s => s.refreshes.length = 3) = true := by
    decide +kernel
  obtain ⟨s, hs, hlen⟩ := (Option.any_eq_true _ _).mp hsome
  have hrun := (run_of_replay (fun _ => True) hs fun _ _ => trivial).of_restrict
  exact ⟨s, of_decide_eq_true hlen, bank_refresh_keeps_up rfl (.inr (by decide)) hrun⟩

/-- The default `tREFI = 7800` with an interval of 80 cycles, above `tRFC = 74` and
`tRFCb = 20`: the second request waits for `tREFI`, and the third joins it. -/
theorem bank_refresh_backlog :
    ∃ s : Controller { Config.defaults with refreshPolicy := .bankLevelStaggered, tREFIb := 80 },
      (controllerSystem _).Run (List.replicate 241 .tick) s ∧
      s.channelState.refreshQ.length = 2 := by
  have hsome : ((replay { Config.defaults with refreshPolicy := .bankLevelStaggered, tREFIb := 80 }
      (List.replicate 241 .tick)).any fun s => s.channelState.refreshQ.length = 2) = true := by
    decide +kernel
  obtain ⟨s, hs, hlen⟩ := (Option.any_eq_true _ _).mp hsome
  exact ⟨s, (run_of_replay (fun _ => True) hs fun _ _ => trivial).of_restrict,
    of_decide_eq_true hlen⟩

end Controller

end Dramsim
