import Dramsim.Channel.Updates
import Dramsim.Library.System

/-!
# Sequences of commands on a channel

The commands of a channel are applied one after the other, each an answer of
`getReadyCommand` at its clock, in the state just before it, to some request.
Between commands the queue of refresh requests and the idle counters may change
freely, since neither is read by the banks.

`timing_enforced` is the purpose of the running maxima kept in the banks: any two
commands of a run, however far apart, keep the distance that the tables ask for.
-/

namespace Dramsim

variable {config : Config} {cmd req : Command} {s s' : ChannelState} {clk : Nat} {timing : Timing}
  {t' : ChannelTrace} {a : ChannelAction} {actions : List ChannelAction}
  {t : ChannelTrace} {ix : BankIndex}

open Library (System)

/-! ## Runs -/

/-- A request that a controller may make: a type that can be asked for, and an
address in the device. -/
def Config.Request (config : Config) (req : Command) : Prop :=
  req.cmdType.isRequest = true ∧
    if req.isRankCMD then 0 ≤ req.addr.rank ∧ req.addr.rank < config.ranks
    else config.HasBank req.bankIndex

instance (config : Config) (req : Command) : Decidable (config.Request req) :=
  inferInstanceAs (Decidable (_ ∧ if req.isRankCMD then _ else _))

/-- A channel with the commands applied to it so far, oldest first. -/
structure ChannelTrace where
  channel : ChannelState
  issued : List (Nat × Command)

/-- Steps of a channel. -/
inductive ChannelAction where
  /-- A request is answered at a clock and the answer applied. -/
  | command (req : Command) (clk : Nat)
  /-- The state outside the banks changes. -/
  | environment

/-- The parts of a channel that its commands work on are the same. -/
structure ChannelState.SameBanks (s s' : ChannelState) : Prop where
  bankStates : s'.bankStates = s.bankStates
  rankIsSref : s'.rankIsSref = s.rankIsSref
  fourAw : s'.fourAw = s.fourAw
  thirtyTwoAw : s'.thirtyTwoAw = s.thirtyTwoAw

theorem ChannelState.SameBanks.refl (s : ChannelState) : s.SameBanks s := ⟨rfl, rfl, rfl, rfl⟩

theorem ChannelState.SameBanks.trans {s'' : ChannelState} (h : s.SameBanks s')
    (h' : s'.SameBanks s'') : s.SameBanks s'' :=
  ⟨h'.bankStates.trans h.bankStates, h'.rankIsSref.trans h.rankIsSref, h'.fourAw.trans h.fourAw,
    h'.thirtyTwoAw.trans h.thirtyTwoAw⟩

/-- One command: the answer to a request is applied at a clock no earlier than
the clocks before. -/
def ChannelTrace.Issues (config : Config) (t : ChannelTrace) (req : Command) (clk : Nat)
    (cmd : Command) : Prop :=
  config.Request req ∧ (∀ e ∈ t.issued, e.1 ≤ clk) ∧
    t.channel.getReadyCommand config req clk = .ok (some cmd)

/-- The channel as a transition system. -/
def channelSystem (config : Config) (timing : Timing) : System ChannelTrace ChannelAction where
  init := ⟨{}, []⟩
  step t a t' :=
    match a with
    | .command req clk =>
        ∃ cmd, t.Issues config req clk cmd ∧
          t.channel.updateTimingAndStates config timing cmd clk = .ok t'.channel ∧
          t'.issued = t.issued ++ [(clk, cmd)]
    | .environment => t.channel.SameBanks t'.channel ∧ t'.issued = t.issued

/-- The step that an action asks for, if its request is answered. -/
def ChannelTrace.perform (config : Config) (timing : Timing) (t : ChannelTrace) :
    ChannelAction → Option ChannelTrace
  | .command req clk =>
      if config.Request req ∧ ∀ e ∈ t.issued, e.1 ≤ clk then
        match t.channel.getReadyCommand config req clk with
        | .ok (some cmd) =>
            match t.channel.updateTimingAndStates config timing cmd clk with
            | .ok channel => some ⟨channel, t.issued ++ [(clk, cmd)]⟩
            | .error _ => none
        | _ => none
      else none
  | .environment => some t

/-- Run a list of actions, as far as each request is answered. -/
def ChannelTrace.replay (config : Config) (timing : Timing) (actions : List ChannelAction) :
    Option ChannelTrace :=
  System.replay (perform config timing) actions ⟨{}, []⟩

theorem ChannelTrace.step_of_perform (h : t.perform config timing a = some t') :
    (channelSystem config timing).step t a t' := by
  cases a with
  | environment =>
      cases h
      exact ⟨.refl _, rfl⟩
  | command req clk =>
      rw [perform] at h
      split at h
      · rename_i hreq
        split at h
        · rename_i cmd hcmd
          split at h
          · rename_i channel hupd
            cases h
            exact ⟨cmd, ⟨hreq.1, hreq.2, hcmd⟩, hupd, rfl⟩
          · cases h
        · cases h
      · cases h

theorem ChannelTrace.run_of_replay (h : replay config timing actions = some t) :
    (channelSystem config timing).Run actions t :=
  System.run_of_replay (fun _ _ _ (_ : True) hs => step_of_perform hs) .start (fun _ _ => trivial) h

namespace ChannelState

/-! ## Effect of one command -/

/-- A command leaves every bank with its state update and the row that governs
it. -/
theorem updateTimingAndStates_spec (h : s.updateTimingAndStates config timing cmd clk = .ok s') :
    ∃ s₁, StateUpdated config s cmd s₁ ∧ s' = s₁.updateTiming config timing cmd clk := by
  obtain ⟨s₁, hs₁, hs'⟩ := Library.bind_eq_ok.mp h
  exact ⟨s₁, updateState_spec hs₁, (Except.ok.inj hs').symm⟩

/-- State updates do not touch timing entries. -/
theorem StateUpdated.cmdTiming {s₁ : ChannelState} (h : StateUpdated config s cmd s₁)
    (ix : BankIndex) : (s₁.bankStates ix).cmdTiming = (s.bankStates ix).cmdTiming := by
  by_cases hix : config.Reaches cmd ix
  · exact BankState.updateState_cmdTiming (h.taken ix hix)
  · rw [h.kept ix hix]

/-- An entry after a command is the least bound of the old entry and of the gaps
that the governing row gives for its type. -/
theorem cmdTiming_le_iff {bound : Nat} {ty : CommandType}
    (h : s.updateTimingAndStates config timing cmd clk = .ok s') (hix : config.HasBank ix) :
    (s'.bankStates ix).cmdTiming ty ≤ bound ↔
      (s.bankStates ix).cmdTiming ty ≤ bound ∧
        ∀ d, (ty, d) ∈ timing.governing cmd ix → addClk clk d ≤ bound := by
  obtain ⟨s₁, hs₁, rfl⟩ := updateTimingAndStates_spec h
  rw [updateTiming_bankStates hix, BankState.updateTimings_le_iff, hs₁.cmdTiming ix]

/-! ## Banks of a rank enter and leave self refresh together -/

/-- The banks of a rank agree on self refresh, and so do the times at which they
may leave it. -/
def SrefUniform (config : Config) (s : ChannelState) : Prop :=
  ∀ ix ix', config.HasBank ix → config.HasBank ix' → ix.rank = ix'.rank →
    ((s.bankStates ix).state = .sref ↔ (s.bankStates ix').state = .sref) ∧
      (s.bankStates ix).cmdTiming .srefExit = (s.bankStates ix').cmdTiming .srefExit

/-- Every bank that a command goes to needs it for the request, and it is due
there.  For `SREF_EXIT`, which one bank asks for on behalf of the rank, this is
what `SrefUniform` is for. -/
theorem Answered.due (hs : SrefUniform config s) (hreq : config.Request req)
    (h : Answered config s req clk cmd) (hix : config.Reaches cmd ix) :
    s.Due req clk ix cmd.cmdType := by
  cases h with
  | wholeRank hrank hall =>
      rw [Config.Reaches, if_pos hrank] at hix
      exact hall ix hix
  | @bankOfRank _ ix₀ hrank hmem hdue hne haddr =>
      have hcmd : cmd.cmdType = .precharge := by
        rcases BankState.requiredType_of_isRankCMD hdue.1 hrank with ⟨_, he⟩ | ⟨_, he⟩
        · exact absurd he hne
        · exact he
      have hix₀ : ix = ix₀ := by
        have hr := (Config.mem_rankBanks.mp hmem).1
        simp only [Config.Reaches, Command.isRankCMD, hcmd, CommandType.isRankCMD] at hix
        rw [hix, Command.bankIndex, haddr]
        obtain ⟨r, j, k⟩ := ix₀
        simp only [Address.bankIndex, BankIndex.mk.injEq, and_true]
        exact hr.symm
      exact hix₀ ▸ hdue
  | bank hrank hdue haddr hhex _ =>
      by_cases hcmd : cmd.isRankCMD = true
      · obtain ⟨hsref, hcol, hty⟩ := BankState.requiredType_isRankCMD hdue.1 hrank hcmd
        have hbank : config.HasBank req.bankIndex := by
          simpa [Config.Request, hrank] using hreq.2
        rw [Config.Reaches, if_pos hcmd, haddr] at hix
        have hsame : ix.rank = req.bankIndex.rank := (Config.mem_rankBanks.mp hix).1
        have hixb := Config.hasBank_of_mem_rankBanks hbank.1 hix
        obtain ⟨hstate, htime⟩ := hs ix req.bankIndex hixb hbank hsame
        rw [hty]
        refine ⟨BankState.requiredType_of_sref (hstate.mpr hsref) hcol, ?_⟩
        rw [htime]
        exact hty ▸ hdue.2
      · rw [Config.Reaches, if_neg hcmd, Command.bankIndex, haddr] at hix
        exact hix ▸ hdue

/-- The gap to `SREF_EXIT` depends on the rank of a bank only. -/
theorem mem_governing_srefExit {d : Int} :
    (CommandType.srefExit, d) ∈ (Timing.ofConfig config).governing cmd ix ↔
      cmd.isRankCMD = true ∧ ix.rank = cmd.addr.rank ∧
        (CommandType.srefExit, d) ∈ Timing.sameRankOf config cmd.cmdType := by
  obtain ⟨hbank, hgroup, hrank, hother⟩ := Timing.not_mem_srefExit config cmd.cmdType d
  unfold Timing.governing
  by_cases hcmd : cmd.isRankCMD = true
  · by_cases hr : ix.rank = cmd.addr.rank
    · simp [hcmd, hr, Timing.ofConfig]
    · simp [hcmd, hr]
  · simp only [hcmd, if_false, false_and, iff_false, Bool.false_eq_true]
    split
    · split
      · exact hbank
      · exact List.not_mem_nil
    · cases cmd.addr.position ix with
      | sameBank => exact hbank
      | otherBankSameBankgroup => exact hgroup
      | otherBankgroupSameRank => exact hrank
      | otherRank => exact hother

theorem reaches_iff_of_isRankCMD (hrank : cmd.isRankCMD = true) (hix : config.HasBank ix) :
    config.Reaches cmd ix ↔ ix.rank = cmd.addr.rank := by
  rw [Config.Reaches, if_pos hrank, Config.mem_rankBanks]
  exact ⟨fun h => h.1, fun h => ⟨h, hix.2⟩⟩

/-- The self-refresh state of a bank after a command. -/
theorem state_eq_sref_iff (h : s.updateTimingAndStates config timing cmd clk = .ok s')
    (hix : config.HasBank ix) :
    (s'.bankStates ix).state = .sref ↔
      if cmd.isRankCMD = true ∧ ix.rank = cmd.addr.rank then cmd.cmdType = .srefEnter
      else (s.bankStates ix).state = .sref := by
  obtain ⟨s₁, hs₁, rfl⟩ := updateTimingAndStates_spec h
  rw [updateTiming_bankStates hix, BankState.updateTimings_state]
  by_cases hreach : config.Reaches cmd ix
  · have htaken := hs₁.taken ix hreach
    rw [BankState.updateState_sref htaken]
    by_cases hrank : cmd.isRankCMD = true
    · rw [if_pos ⟨hrank, (reaches_iff_of_isRankCMD hrank hix).mp hreach⟩]
    · rw [if_neg (fun hc => hrank hc.1)]
      constructor
      · intro he
        simp [Command.isRankCMD, he, CommandType.isRankCMD] at hrank
      · intro hsref
        have he := BankState.updateState_of_sref htaken hsref
        simp [Command.isRankCMD, he, CommandType.isRankCMD] at hrank
  · rw [hs₁.kept ix hreach, if_neg]
    rintro ⟨hrank, hr⟩
    exact hreach ((reaches_iff_of_isRankCMD hrank hix).mpr hr)

theorem SrefUniform.step (hs : SrefUniform config s)
    (h : s.updateTimingAndStates config (Timing.ofConfig config) cmd clk = .ok s') :
    SrefUniform config s' := by
  intro ix ix' hix hix' hr
  obtain ⟨hstate, htime⟩ := hs ix ix' hix hix' hr
  constructor
  · rw [state_eq_sref_iff h hix, state_eq_sref_iff h hix', hr]
    split
    · exact Iff.rfl
    · exact hstate
  · have hle : ∀ bound, (s'.bankStates ix).cmdTiming .srefExit ≤ bound ↔
        (s'.bankStates ix').cmdTiming .srefExit ≤ bound := by
      intro bound
      rw [cmdTiming_le_iff h hix, cmdTiming_le_iff h hix', htime]
      simp only [mem_governing_srefExit, hr]
    exact Nat.le_antisymm ((hle _).mpr (Nat.le_refl _)) ((hle _).mp (Nat.le_refl _))

end ChannelState

/-! ## The tables hold between all pairs of commands -/

/-- What a command of the history imposes on the entry of a bank and a type. -/
def Imposes (config : Config) (timing : Timing) (e : Nat × Command)
    (key : BankIndex × CommandType) (time : Nat) : Prop :=
  config.HasBank key.1 ∧ ∃ d, (key.2, d) ∈ timing.governing e.2 key.1 ∧ time = addClk e.1 d

/-- The entries of a channel as one table. -/
def ChannelState.entries (s : ChannelState) (key : BankIndex × CommandType) : Nat :=
  (s.bankStates key.1).cmdTiming key.2

/-- The later command keeps the distance that the tables ask for, at every bank it
goes to. -/
def KeepsDistance (config : Config) (timing : Timing) (e e' : Nat × Command) : Prop :=
  ∀ ix, config.HasBank ix → config.Reaches e'.2 ix →
    ∀ d, (e'.2.cmdType, d) ∈ timing.governing e.2 ix → (e.1 : Int) + d ≤ e'.1

/-- What holds along every run of commands. -/
structure TimingInvariant (config : Config) (t : ChannelTrace) : Prop where
  uniform : t.channel.SrefUniform config
  covers : Library.Covers (Imposes config (Timing.ofConfig config)) t.channel.entries t.issued
  distance : t.issued.Pairwise (KeepsDistance config (Timing.ofConfig config))

theorem TimingInvariant.init (config : Config) :
    TimingInvariant config (channelSystem config (Timing.ofConfig config)).init where
  uniform := fun _ _ _ _ _ => ⟨Iff.rfl, rfl⟩
  covers := Library.Covers.nil
  distance := List.Pairwise.nil

/-- The entry that a command had to pass covers every earlier gap, so the command
keeps its distance to the whole history. -/
theorem TimingInvariant.keepsDistance (hinv : TimingInvariant config t)
    (h : t.Issues config req clk cmd) :
    ∀ e ∈ t.issued, KeepsDistance config (Timing.ofConfig config) e (clk, cmd) := by
  intro e he ix hix hreach d hd
  have hans := ChannelState.getReadyCommand_spec h.2.2
  have hdue := hans.due hinv.uniform h.1 hreach
  have hentry := hinv.covers e he (ix, cmd.cmdType) _ ⟨hix, d, hd, rfl⟩
  have hle := le_addClk e.1 d
  have hclk : addClk e.1 d ≤ clk := Nat.le_trans hentry hdue.2
  simp only
  omega

/-- The entries cover a command more, whatever asked for it.  Outside the device
nothing is imposed, and the entries there are not compared. -/
theorem ChannelState.covers_update {issued : List (Nat × Command)}
    (hcov : Library.Covers (Imposes config (Timing.ofConfig config)) s.entries issued)
    (h : s.updateTimingAndStates config (Timing.ofConfig config) cmd clk = .ok s') :
    Library.Covers (Imposes config (Timing.ofConfig config)) s'.entries
      (issued ++ [(clk, cmd)]) := by
  have hdevice : Library.Covers (Imposes config (Timing.ofConfig config))
      (fun key => if config.HasBank key.1 then s.entries key else 0) issued := by
    intro e he key time himp
    simp only [if_pos himp.1]
    exact hcov e he key time himp
  refine hdevice.snoc ?_ ?_
  · intro key
    by_cases hix : config.HasBank key.1
    · simp only [if_pos hix]
      exact ((cmdTiming_le_iff h hix).mp (Nat.le_refl _)).1
    · simp [hix]
  · rintro key time ⟨hix, d, hd, rfl⟩
    exact ((cmdTiming_le_iff h hix).mp (Nat.le_refl _)).2 d hd

theorem TimingInvariant.step (hinv : TimingInvariant config t)
    (h : (channelSystem config (Timing.ofConfig config)).step t a t') :
    TimingInvariant config t' := by
  cases a with
  | command req clk =>
      obtain ⟨cmd, hissue, hupd, hiss⟩ := h
      refine ⟨hinv.uniform.step hupd, ?_, ?_⟩
      · rw [hiss]
        exact ChannelState.covers_update hinv.covers hupd
      · rw [hiss, List.pairwise_append]
        refine ⟨hinv.distance, List.pairwise_singleton _ _, fun e he e' he' => ?_⟩
        rw [List.mem_singleton] at he'
        exact he' ▸ hinv.keepsDistance hissue e he
  | environment =>
      obtain ⟨hsame, hiss⟩ := h
      have hentries : t'.channel.entries = t.channel.entries := by
        funext key
        rw [ChannelState.entries, hsame.bankStates, ChannelState.entries]
      refine ⟨?_, ?_, ?_⟩
      · intro ix ix' hix hix' hr
        rw [hsame.bankStates]
        exact hinv.uniform ix ix' hix hix' hr
      · rw [hiss, hentries]
        exact hinv.covers
      · rw [hiss]
        exact hinv.distance

theorem timingInvariant_of_run (h : (channelSystem config (Timing.ofConfig config)).Run actions t) :
    TimingInvariant config t :=
  h.invariant (TimingInvariant config) (TimingInvariant.init config)
    (fun _ _ _ hinv hstep => hinv.step hstep)

/-- Any two commands of a run keep the distance of the table that applies to
them, not only adjacent ones. -/
theorem timing_enforced (config : Config) {t : ChannelTrace} {actions : List ChannelAction}
    (h : (channelSystem config (Timing.ofConfig config)).Run actions t) :
    t.issued.Pairwise fun e e' =>
      ∀ ix, config.HasBank ix → config.Reaches e'.2 ix →
        ∀ d, (e'.2.cmdType, d) ∈ (Timing.ofConfig config).governing e.2 ix →
          (e.1 : Int) + d ≤ e'.1 :=
  (timingInvariant_of_run h).distance

/-- A read of a closed bank: the activate at clock 0 and the read `tRCD` later. -/
theorem timing_enforced_activate_read :
    ∃ t : ChannelTrace,
      (channelSystem .defaults (.ofConfig .defaults)).Run
        [.command ⟨.read, Config.defaults.addressMapping 0, 0⟩ 0,
          .command ⟨.read, Config.defaults.addressMapping 0, 0⟩ 10] t ∧
      (t.issued.map fun e => (e.1, e.2.cmdType)) = [(0, .activate), (10, .read)] ∧
      t.issued.Pairwise fun e e' =>
        ∀ ix, Config.defaults.HasBank ix → Config.defaults.Reaches e'.2 ix →
          ∀ d, (e'.2.cmdType, d) ∈ (Timing.ofConfig .defaults).governing e.2 ix →
            (e.1 : Int) + d ≤ e'.1 := by
  have hsome : ((ChannelTrace.replay .defaults (.ofConfig .defaults)
      [.command ⟨.read, Config.defaults.addressMapping 0, 0⟩ 0,
        .command ⟨.read, Config.defaults.addressMapping 0, 0⟩ 10]).map
      fun t => t.issued.map fun e => (e.1, e.2.cmdType)) =
      some [(0, .activate), (10, .read)] := by
    decide
  obtain ⟨t, ht, hissued⟩ := Option.map_eq_some_iff.mp hsome
  have hrun := ChannelTrace.run_of_replay ht
  exact ⟨t, hrun, hissued, timing_enforced .defaults hrun⟩

end Dramsim
