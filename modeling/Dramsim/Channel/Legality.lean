import Dramsim.Channel.Runs

/-!
# Banks are driven legally

Whatever `getReadyCommand` answers, `updateState` takes: the two switches over
seventeen command types agree, also where one bank answers for its rank.  Along
every run the banks of a rank are in self refresh exactly when the rank is
flagged, a bank without an open row has forgotten it, and an open bank holds the
row of the last activate it was given.
-/

namespace Dramsim

variable {config : Config} {cmd : Command} {clk : Nat} {t : ChannelTrace} {ix : BankIndex}
  {issued : List (Nat × Command)} {e : Nat × Command} {s : ChannelState}
  {timing : Timing} {s' : ChannelState}

/-- The row of the last activate issued to a bank. -/
def lastActivatedRow (issued : List (Nat × Command)) (ix : BankIndex) : Option Int :=
  (issued.filter fun e => e.2.cmdType.isActivate && e.2.bankIndex = ix).getLast?.map
    fun e => e.2.addr.row

/-- A command that is not an activate of the bank leaves its last row. -/
theorem lastActivatedRow_append (h : e.2.cmdType.isActivate = true → e.2.bankIndex ≠ ix) :
    lastActivatedRow (issued ++ [e]) ix = lastActivatedRow issued ix := by
  have hfalse : (e.2.cmdType.isActivate && e.2.bankIndex = ix) = false := by
    cases hact : e.2.cmdType.isActivate with
    | false => rfl
    | true => simpa using h hact
  simp [lastActivatedRow, hfalse]

theorem lastActivatedRow_append_self (h : e.2.cmdType.isActivate = true) :
    lastActivatedRow (issued ++ [e]) e.2.bankIndex = some e.2.addr.row := by
  simp [lastActivatedRow, h]

theorem CommandType.isRankCMD_of_isActivate {ty : CommandType} (h : ty.isActivate = true) :
    ty.isRankCMD = false := by
  cases ty <;> first | rfl | cases h

namespace ChannelState

/-- Commands other than the two self-refresh commands leave a bank in or out of
self refresh. -/
theorem state_eq_sref_iff_of_ne (h : s.updateTimingAndStates config timing cmd clk = .ok s')
    (hix : config.HasBank ix) (henter : cmd.cmdType ≠ .srefEnter)
    (hexit : cmd.cmdType ≠ .srefExit) :
    (s'.bankStates ix).state = .sref ↔ (s.bankStates ix).state = .sref := by
  obtain ⟨s₁, hs₁, rfl⟩ := updateTimingAndStates_spec h
  rw [updateTiming_bankStates hix, BankState.updateTimings_state]
  by_cases hreach : config.Reaches cmd ix
  · have htaken := hs₁.taken ix hreach
    exact ⟨fun hs => absurd ((BankState.updateState_sref htaken).mp hs) henter,
      fun hs => absurd (BankState.updateState_of_sref htaken hs) hexit⟩
  · rw [hs₁.kept ix hreach]

/-- The flags of the ranks follow the two self-refresh commands. -/
theorem rankIsSref_of_update (h : s.updateTimingAndStates config timing cmd clk = .ok s') :
    s'.rankIsSref =
      if cmd.cmdType = .srefEnter then Function.update s.rankIsSref cmd.addr.rank true
      else if cmd.cmdType = .srefExit then Function.update s.rankIsSref cmd.addr.rank false
      else s.rankIsSref := by
  obtain ⟨s₁, hs₁, rfl⟩ := updateTimingAndStates_spec h
  rw [(s₁.updateTiming_rest config timing cmd clk).2]
  exact hs₁.sref

end ChannelState

/-- What holds of the banks along every run. -/
structure BankInvariant (config : Config) (t : ChannelTrace) : Prop where
  uniform : t.channel.SrefUniform config
  /-- The flag of a rank tells whether its banks are in self refresh. -/
  sref : ∀ ix, config.HasBank ix →
    ((t.channel.bankStates ix).state = .sref ↔ t.channel.rankIsSref ix.rank = true)
  /-- A bank without an open row has no row and no hits. -/
  notOpen : ∀ ix, config.HasBank ix → (t.channel.bankStates ix).state ≠ .opened →
    (t.channel.bankStates ix).openRow = -1 ∧ (t.channel.bankStates ix).rowHitCount = 0
  /-- An open bank holds the row of its last activate. -/
  openRow : ∀ ix, config.HasBank ix → (t.channel.bankStates ix).state = .opened →
    lastActivatedRow t.issued ix = some (t.channel.bankStates ix).openRow

theorem BankInvariant.init (config : Config) (timing : Timing) :
    BankInvariant config (channelSystem config timing).init where
  uniform := fun _ _ _ _ _ => ⟨Iff.rfl, rfl⟩
  sref := fun _ _ => by simp [channelSystem]
  notOpen := fun _ _ _ => ⟨rfl, rfl⟩
  openRow := fun _ _ hopen => by cases hopen

/-- The flag follows the banks. -/
theorem BankInvariant.sref_step (hinv : BankInvariant config t)
    (h : t.channel.updateTimingAndStates config timing cmd clk = .ok s') (hix : config.HasBank ix) :
    (s'.bankStates ix).state = .sref ↔ s'.rankIsSref ix.rank = true := by
  have hflag := ChannelState.rankIsSref_of_update h
  have hold := hinv.sref ix hix
  by_cases henter : cmd.cmdType = .srefEnter
  · rw [ChannelState.state_eq_sref_iff h hix, hflag, if_pos henter]
    by_cases hr : ix.rank = cmd.addr.rank
    · simp [hr, henter, Command.isRankCMD, CommandType.isRankCMD]
    · simpa [hr] using hold
  · by_cases hexit : cmd.cmdType = .srefExit
    · rw [ChannelState.state_eq_sref_iff h hix, hflag, if_neg henter, if_pos hexit]
      by_cases hr : ix.rank = cmd.addr.rank
      · simp [hr, hexit, Command.isRankCMD, CommandType.isRankCMD]
      · simpa [hr] using hold
    · rw [ChannelState.state_eq_sref_iff_of_ne h hix henter hexit, hflag, if_neg henter,
        if_neg hexit]
      exact hold

/-- One bank after a command, by the six ways in which it can change. -/
theorem BankInvariant.bank_step (hinv : BankInvariant config t)
    (h : t.channel.updateTimingAndStates config timing cmd clk = .ok s') (hix : config.HasBank ix) :
    ((s'.bankStates ix).state ≠ .opened →
      (s'.bankStates ix).openRow = -1 ∧ (s'.bankStates ix).rowHitCount = 0) ∧
    ((s'.bankStates ix).state = .opened →
      lastActivatedRow (t.issued ++ [(clk, cmd)]) ix = some (s'.bankStates ix).openRow) := by
  obtain ⟨s₁, hs₁, rfl⟩ := ChannelState.updateTimingAndStates_spec h
  simp only [ChannelState.updateTiming_bankStates hix, BankState.updateTimings_state,
    BankState.updateTimings_openRow, BankState.updateTimings_rowHitCount]
  have hnot := hinv.notOpen ix hix
  have hopen := hinv.openRow ix hix
  by_cases hreach : config.Reaches cmd ix
  · rcases BankState.updateState_cases (hs₁.taken ix hreach) with
      ⟨hs, ⟨hty, hb⟩ | ⟨hty, hb⟩⟩ | ⟨hs, ⟨hty, hb⟩ | ⟨hty, hb⟩ | ⟨hty, hb⟩⟩ | ⟨hs, hty, hb⟩ <;>
      rw [hb]
    · have hact : cmd.cmdType.isActivate = false := by
        cases hc : cmd.cmdType <;> rw [hc] at hty <;> first | rfl | cases hty
      refine ⟨fun hne => absurd hs hne, fun _ => ?_⟩
      rw [lastActivatedRow_append (by simp [hact])]
      exact hopen hs
    · exact ⟨fun _ => ⟨rfl, rfl⟩, fun ho => by cases ho⟩
    · rw [hs] at hnot ⊢
      exact ⟨fun _ => hnot (by simp), fun ho => by cases ho⟩
    · refine ⟨fun hne => absurd rfl hne, fun _ => ?_⟩
      have hself : ix = cmd.bankIndex := by
        rw [Config.Reaches, Command.isRankCMD, CommandType.isRankCMD_of_isActivate hty] at hreach
        simpa using hreach
      subst hself
      exact lastActivatedRow_append_self (e := (clk, cmd)) hty
    · exact ⟨fun _ => hnot (by simp [hs]), fun ho => by cases ho⟩
    · exact ⟨fun _ => hnot (by simp [hs]), fun ho => by cases ho⟩
  · rw [hs₁.kept ix hreach]
    refine ⟨hnot, fun ho => ?_⟩
    rw [lastActivatedRow_append]
    · exact hopen ho
    · intro hact he
      apply hreach
      rw [Config.Reaches, Command.isRankCMD, CommandType.isRankCMD_of_isActivate hact]
      simpa using he.symm

theorem BankInvariant.step {t' : ChannelTrace} {a : ChannelAction} (hinv : BankInvariant config t)
    (h : (channelSystem config (Timing.ofConfig config)).step t a t') :
    BankInvariant config t' := by
  cases a with
  | command req clk =>
      obtain ⟨cmd, _, hupd, hiss⟩ := h
      exact ⟨hinv.uniform.step hupd, fun ix hix => hinv.sref_step hupd hix,
        fun ix hix => (hinv.bank_step hupd hix).1,
        fun ix hix => hiss ▸ (hinv.bank_step hupd hix).2⟩
  | environment =>
      obtain ⟨hsame, hiss⟩ := h
      refine ⟨?_, ?_, ?_, ?_⟩
      · intro ix ix' hix hix' hr
        rw [hsame.bankStates]
        exact hinv.uniform ix ix' hix hix' hr
      · rw [hsame.bankStates, hsame.rankIsSref]
        exact hinv.sref
      · rw [hsame.bankStates]
        exact hinv.notOpen
      · rw [hsame.bankStates, hiss]
        exact hinv.openRow

theorem bankInvariant_of_run {actions : List ChannelAction}
    (h : (channelSystem config (Timing.ofConfig config)).Run actions t) : BankInvariant config t :=
  h.invariant (BankInvariant config) (BankInvariant.init config _)
    (fun _ _ _ hinv hstep => hinv.step hstep)

/-- The banks take every answer. -/
theorem ChannelTrace.Issues.exists_update {req : Command} (h : t.Issues config req clk cmd)
    (hs : t.channel.SrefUniform config) (timing : Timing) :
    ∃ s', t.channel.updateTimingAndStates config timing cmd clk = .ok s' := by
  have hans := ChannelState.getReadyCommand_spec h.2.2
  have htaken : ∀ ix, config.Reaches cmd ix →
      ∃ b, (t.channel.bankStates ix).updateState cmd = .ok b :=
    fun ix hix => BankState.updateState_of_requiredType (hans.due hs h.1 hix).1
  obtain ⟨s₁, hs₁⟩ := ChannelState.exists_updateState htaken
  exact ⟨_, Library.bind_eq_ok.mpr ⟨s₁, hs₁, rfl⟩⟩

/-- The bank state machines of a channel are only driven legally: no answer ends
the process, and the state of every bank says what the history of commands
says. -/
theorem banks_driven_legally (config : Config) {t : ChannelTrace} {actions : List ChannelAction}
    (h : (channelSystem config (Timing.ofConfig config)).Run actions t) :
    (∀ req clk cmd, t.Issues config req clk cmd →
      ∃ s', t.channel.updateTimingAndStates config (Timing.ofConfig config) cmd clk = .ok s') ∧
    (∀ ix, config.HasBank ix →
      ((t.channel.bankStates ix).state = .sref ↔ t.channel.rankIsSref ix.rank = true)) ∧
    (∀ ix, config.HasBank ix → (t.channel.bankStates ix).state ≠ .opened →
      (t.channel.bankStates ix).openRow = -1 ∧ (t.channel.bankStates ix).rowHitCount = 0) ∧
    (∀ ix, config.HasBank ix → (t.channel.bankStates ix).state = .opened →
      lastActivatedRow t.issued ix = some (t.channel.bankStates ix).openRow) := by
  have hinv := bankInvariant_of_run h
  exact ⟨fun req clk cmd hissue => hissue.exists_update hinv.uniform _, hinv.sref, hinv.notOpen,
    hinv.openRow⟩

/-- A rank goes to sleep, a read wakes it up and opens a row. -/
theorem banks_driven_legally_wake_up :
    ∃ t : ChannelTrace, ∃ actions : List ChannelAction,
      (channelSystem .defaults (.ofConfig .defaults)).Run actions t ∧
      (t.issued.map fun e => (e.1, e.2.cmdType)) =
        [(0, .srefEnter), (12, .srefExit), (444, .activate)] ∧
      ∀ ix, Config.defaults.HasBank ix → (t.channel.bankStates ix).state = .opened →
        lastActivatedRow t.issued ix = some (t.channel.bankStates ix).openRow := by
  have hsome : ((ChannelTrace.replay .defaults (.ofConfig .defaults)
      [.command ⟨.srefEnter, { rank := 0 }, 0⟩ 0,
        .command ⟨.read, Config.defaults.addressMapping 0, 0⟩ 12,
        .command ⟨.read, Config.defaults.addressMapping 0, 0⟩ 444]).map
      fun t => t.issued.map fun e => (e.1, e.2.cmdType)) =
      some [(0, .srefEnter), (12, .srefExit), (444, .activate)] := by
    decide
  obtain ⟨t, ht, hissued⟩ := Option.map_eq_some_iff.mp hsome
  have hrun := ChannelTrace.run_of_replay ht
  exact ⟨t, _, hrun, hissued, (banks_driven_legally .defaults hrun).2.2.2⟩

end Dramsim
