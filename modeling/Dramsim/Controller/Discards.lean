import Dramsim.Channel.Columns
import Dramsim.Controller.Conservation
import Dramsim.Controller.History

/-!
# Commands that leave their queue and are not issued

`GetCommandToIssue` removes a column command from its queue before `ClockTick`
decides what becomes of it.  Two things can come in between: a PIM command that
takes the slot, and, with dual issue, a first command that is a column command too.

Both are excluded here by a condition: for PIM commands by one on the state before
the tick, for dual issue by one on the timing parameters, under which no two column
commands are due in one cycle.
-/

namespace Dramsim

/-- The column command is removed from its queue. -/
def Event.erases (cmd : Command) : Event → Bool
  | .erased c => c = cmd
  | _ => false

/-- The command is issued. -/
def Event.issues (cmd : Command) : Event → Bool
  | .issued _ c _ => c = cmd
  | _ => false

/-- Every column command that is removed is issued, as often as it is removed. -/
def Event.Balanced (events : List Event) : Prop :=
  ∀ cmd : Command, cmd.isReadWrite = true →
    events.countP (Event.erases cmd) = events.countP (Event.issues cmd)

theorem Event.Balanced.append {events events' : List Event} (h : Event.Balanced events)
    (h' : Event.Balanced events') : Event.Balanced (events ++ events') := by
  intro cmd hcol
  rw [List.countP_append, List.countP_append, h cmd hcol, h' cmd hcol]

theorem Event.balanced_nil : Event.Balanced [] := fun _ _ => rfl

/-- Other commands do not count. -/
theorem Event.balanced_issued {clk : Nat} {cmd : Command} {waiting : List Transaction}
    (hcmd : cmd.isReadWrite = false) : Event.Balanced [.issued clk cmd waiting] := by
  intro c hcol
  have hne : cmd ≠ c := by
    rintro rfl
    rw [hcmd] at hcol
    cases hcol
  simp [Event.erases, Event.issues, hne]

theorem Event.balanced_serve {clk : Nat} {cmd : Command} {waiting : List Transaction} :
    Event.Balanced [.erased cmd, .issued clk cmd waiting] := by
  intro c _
  by_cases hc : cmd = c <;> simp [Event.erases, Event.issues, hc]

namespace Controller

variable {config : Config}

/-! ## Ticks without a discarded command -/

/-- What is recorded since the start of the tick is balanced. -/
def TickBalanced (o s : Controller config) : Prop :=
  ∃ events, s.log = o.log ++ events ∧ Event.Balanced events

theorem TickBalanced.extend {o s s' : Controller config} (h : TickBalanced o s)
    {more : List Event} (hlog : s'.log = s.log ++ more) (hmore : Event.Balanced more) :
    TickBalanced o s' := by
  obtain ⟨events, he, hbal⟩ := h
  refine ⟨events ++ more, ?_, hbal.append hmore⟩
  rw [hlog, he, List.append_assoc]

theorem TickBalanced.step {o s s' : Controller config} (hno : NoDiscard o) (hs : s.Sound)
    (hb : TickBalanced o s) (h : Step o s s') : TickBalanced o s' := by
  cases h with
  | quiet hquiet =>
      exact hb.extend (hquiet.log.trans (List.append_nil _).symm) Event.balanced_nil
  | serve hrem hissue =>
      have hlog := (issueCommand_spec hissue).log
      rw [hrem.log, List.append_assoc, List.singleton_append] at hlog
      exact hb.extend hlog Event.balanced_serve
  | discard hrem hdis => exact absurd hdis (hno s s' _ hs hrem)
  | answer hans hissue =>
      exact hb.extend (issueCommand_spec hissue).log (Event.balanced_issued hans.1)
  | pim hdue hissue =>
      exact hb.extend (issueCommand_spec hissue).log (Event.balanced_issued (hs.pim _ hdue.1))
  | schedule =>
      have h := scheduleTransaction_spec hs.split
      exact hb.extend (h.log.trans (List.append_nil _).symm) Event.balanced_nil
  | advance => exact hb.extend (List.append_nil _).symm Event.balanced_nil

/-- In a tick without discards every removed column command is issued. -/
theorem clockTick_balanced {s s' : Controller config} (hs : s.Sound) (hno : NoDiscard s)
    (h : s.clockTick = .ok s') : TickBalanced s s' := by
  have hinv := (clockTick_proceeds hs.requests).preserves h
    (fun s₁ => s₁.Sound ∧ TickBalanced s s₁)
    ⟨hs, [], (List.append_nil _).symm, Event.balanced_nil⟩
    (fun _ _ hinv hstep => ⟨hinv.1.step hstep, hinv.2.step hno hinv.1 hstep⟩)
  exact hinv.2

/-! ## PIM commands -/

end Controller

theorem ChannelState.SameBanks.rankReadyCommand {config : Config} {s s' : ChannelState}
    (h : s.SameBanks s') (cmd : Command) (clk : Nat) :
    ∀ (l : List BankIndex) (numReady : Nat) (last : Option Command),
      ChannelState.rankReadyCommand config s' cmd clk l numReady last =
        ChannelState.rankReadyCommand config s cmd clk l numReady last
  | [], _, _ => rfl
  | ix :: rest, numReady, last => by
      rw [ChannelState.rankReadyCommand, ChannelState.rankReadyCommand, h.bankStates]
      simp only [h.rankReadyCommand cmd clk rest]

/-- Answers depend on the banks only. -/
theorem ChannelState.SameBanks.getReadyCommand {config : Config} {s s' : ChannelState}
    (h : s.SameBanks s') (cmd : Command) (clk : Nat) :
    s'.getReadyCommand config cmd clk = s.getReadyCommand config cmd clk := by
  unfold ChannelState.getReadyCommand ChannelState.activationWindowOk ChannelState.isFAWReady
    ChannelState.is32AWReady
  rw [h.rankReadyCommand, h.bankStates, h.fourAw, h.thirtyTwoAw]

namespace CommandQueue

variable {config : Config}

theorem firstReadyFrom_congr {ch ch' : ChannelState} (h : ch.SameBanks ch') (clk : Nat) :
    ∀ before rest : List Command,
      firstReadyFrom config ch' clk before rest = firstReadyFrom config ch clk before rest
  | _, [] => rfl
  | before, entry :: rest => by
      have harb : ∀ pending, arbitratePrecharge ch' before entry pending =
          arbitratePrecharge ch before entry pending := by
        intro pending
        rw [arbitratePrecharge, h.bankStates, arbitratePrecharge]
      rw [firstReadyFrom, firstReadyFrom, h.getReadyCommand]
      simp only [firstReadyFrom_congr h clk, harb]

/-- Some queue yields a column command. -/
def offersColumn (q : CommandQueue config) (channel : ChannelState) : Bool :=
  (List.range config.numQueues).any fun i =>
    match getFirstReadyInQueue config channel q.clk (q.queues i) with
    | .ok (some cmd) => cmd.isReadWrite
    | _ => false

theorem Offers.offersColumn {q : CommandQueue config} {channel : ChannelState} {cmd : Command}
    (h : q.Offers channel cmd) (hcol : cmd.isReadWrite = true) : q.offersColumn channel = true := by
  obtain ⟨i, hi, hfirst⟩ := h
  refine List.any_eq_true.mpr ⟨i, List.mem_range.mpr hi, ?_⟩
  rw [hfirst]
  exact hcol

theorem offersColumn_congr {q q' : CommandQueue config} {ch ch' : ChannelState}
    (hq : q.SameQueues q') (h : ch.SameBanks ch') :
    q'.offersColumn ch' = q.offersColumn ch := by
  unfold CommandQueue.offersColumn getFirstReadyInQueue
  rw [hq.queues, hq.clk]
  simp only [firstReadyFrom_congr h]

end CommandQueue

namespace Controller

variable {config : Config}

/-- A tick in which PIM commands take no slot from an ordinary column command: none
is waiting, or no queue has a column command that is ready. -/
def spares (s : Controller config) : Op → Bool
  | .tick => s.pimIdle || !s.cmdQueue.offersColumn s.channelState
  | _ => true

theorem noDiscard_of_spares {o : Controller config} (hdual : config.enableHbmDualCmd = false)
    (h : o.spares .tick = true) : NoDiscard o := by
  rintro s s' cmd _ hrem (⟨hquiet, hidle⟩ | ⟨henabled, _⟩)
  · have hoff : o.cmdQueue.offersColumn o.channelState = true := by
      rw [← CommandQueue.offersColumn_congr hquiet.queues hquiet.banks]
      exact hrem.offered.offersColumn hrem.column
    have hpim : o.pimIdle = false := by
      rw [Bool.eq_false_iff]
      intro ho
      have hnil : o.pimCmds = [] := by
        simpa [pimIdle, pimCmds, List.isEmpty_iff, and_assoc] using ho
      rw [hquiet.pimIdle hnil] at hidle
      cases hidle
    rw [spares, hpim, hoff] at h
    cases h
  · rw [hdual] at henabled
    cases henabled

theorem Kept.preserves {cond : Controller config → Op → Prop}
    (hno : ∀ o, cond o .tick → o.Sound → NoDiscard o) :
    Preserves cond fun s => s.Booked ∧ s.Kept where
  add := fun _ it _ hinv _ _ => ⟨hinv.1.addTransaction it, hinv.2.addTransaction it⟩
  done := fun s clk hs hinv =>
    ⟨(Booked.preserves cond).done s clk hs hinv.1,
      hinv.2.congr (fun w a => (s.returnDoneTrans_entries clk w a).1)
        (fun w a => (s.returnDoneTrans_entries clk w a).2)⟩
  pim := fun s op s' hc hop hs hinv hpim => by
    refine ⟨(Booked.preserves cond).pim s op s' hc hop hs hinv.1 hpim, ?_⟩
    rw [hpim]
    exact hinv.2.congr (fun _ _ => rfl) (fun _ _ => rfl)
  step := fun o _ _ htick ho _ hs hinv hstep =>
    ⟨hinv.1.step hs hstep, hinv.2.step hs hinv.1 (hno o htick ho) hstep⟩

/-- While PIM commands take no slot from a column command that is ready, every
column command that leaves its queue is issued in the same tick, and an accepted
read has its command queued until it is issued. -/
theorem pim_spares_commands (config : Config) (hdual : config.enableHbmDualCmd = false)
    {ops : List Op} {s : Controller config}
    (h : ((controllerSystem config).restrict fun s op => s.spares op = true).Run ops s) :
    (∀ s', s.spares .tick = true → s.clockTick = .ok s' →
      ∃ events, s'.log = s.log ++ events ∧ Event.Balanced events) ∧
    ∀ before it after, s.log = before ++ .accepted it false :: after → it.isWrite = false →
      (∃ e ∈ after, e.serves it.addr false = true) ∨ s.entryTotal false it.addr = 1 := by
  obtain ⟨hs, hb, hk⟩ := run_invariant h ⟨Booked.init, Kept.init⟩
    (Kept.preserves fun _ htick _ => noDiscard_of_spares hdual htick)
  obtain ⟨_, _, hout⟩ := run_invariant h ⟨Booked.init, Outstanding.init⟩ (Outstanding.preserves _)
  refine ⟨fun s' hspare htick => clockTick_balanced hs (noDiscard_of_spares hdual hspare) htick, ?_⟩
  intro before it after hlog hread
  by_cases hserved : ∃ e ∈ after, e.serves it.addr false = true
  · exact Or.inl hserved
  · have hpend : s.pendingOf false it.addr ≠ [] := by
      refine hout false it.addr ⟨before, _, after, hlog, ?_, fun e he hserve => ?_⟩
      · simp [Event.awaits, carries_iff, hread]
      · exact hserved ⟨e, he, hserve⟩
    have hpos := hk false it.addr hpend
    have hle := hb.entry false it.addr
    rw [entryTotal_eq hs]
    exact Or.inr (by omega)

/-- A read is accepted while a PIM kernel opens a row in another bank. -/
theorem pim_spares_commands_pim_activate :
    ∃ s : Controller .defaults, ∃ ops,
      ((controllerSystem .defaults).restrict fun s op => s.spares op = true).Run ops s ∧
      Op.pushRdW ⟨.pimActivate, Config.defaults.addressMapping 8192, 8192⟩ ∈ ops ∧
      (∃ after, s.log = .accepted ⟨0, false, 0, 0⟩ false :: after ∧
        ∀ e ∈ after, e.serves 0 false = false) ∧
      s.entryTotal false 0 = 1 := by
  have hsome : ((replayWhere (fun (s : Controller .defaults) op => s.spares op)
      [.add ⟨0, false, 0, 0⟩, .pushRdW ⟨.pimActivate, Config.defaults.addressMapping 8192, 8192⟩,
        .tick, .tick]).map fun s =>
      (s.log.take 1, (s.log.drop 1).all fun e => !e.serves 0 false)) =
      some ([.accepted ⟨0, false, 0, 0⟩ false], true) := by
    decide +kernel
  obtain ⟨s, hs, hresult⟩ := Option.map_eq_some_iff.mp hsome
  simp only [Prod.mk.injEq, List.all_eq_true, Bool.not_eq_true'] at hresult
  have hrun := run_of_replayWhere hs
  have hlog : s.log = .accepted ⟨0, false, 0, 0⟩ false :: s.log.drop 1 := by
    conv_lhs => rw [← List.take_append_drop 1 s.log, hresult.1, List.singleton_append]
  refine ⟨s, _, hrun, by simp, ⟨_, hlog, hresult.2⟩, ?_⟩
  rcases (pim_spares_commands .defaults rfl hrun).2 [] _ _ hlog rfl with ⟨e, he, hserve⟩ | hentry
  · rw [hresult.2 e he] at hserve
    cases hserve
  · exact hentry

/-- A tick in which a command leaves its queue and is not issued, while a read of its address is
pending without a command. -/
theorem exists_lost (config : Config) (ops : List Op) (cmd : Command)
    (h : ((replay config ops).any fun s => s.clockTick.toOption.any fun s' =>
      let events := s'.log.drop s.log.length
      s'.log = s.log ++ events && events.countP (Event.erases cmd) = 1 &&
        events.countP (Event.issues cmd) = 0 && s'.readsOf cmd.hexAddr ≠ [] &&
          s'.entryTotal false cmd.hexAddr = 0) = true) :
    ∃ s s', replay config ops = some s ∧ s.clockTick = .ok s' ∧ ∃ events, s'.log = s.log ++ events ∧
      events.countP (Event.erases cmd) = 1 ∧ events.countP (Event.issues cmd) = 0 ∧
      s'.readsOf cmd.hexAddr ≠ [] ∧ s'.entryTotal false cmd.hexAddr = 0 := by
  obtain ⟨s, hs, htick⟩ := (Option.any_eq_true _ _).mp h
  obtain ⟨s', hs', hlost⟩ := (Option.any_eq_true _ _).mp htick
  simp only [Bool.and_eq_true, decide_eq_true_eq] at hlost
  obtain ⟨⟨⟨⟨hlog, herased⟩, hissued⟩, hreads⟩, hentry⟩ := hlost
  exact ⟨s, s', hs, Library.toOption_eq_some.mp hs', _, hlog, herased, hissued, hreads, hentry⟩

/-- The command of a read becomes ready in the tick in which a PIM activate waits: it
leaves its queue and is not issued, and the pending read has no command any more. -/
theorem pim_loses_ready_read :
    ∃ s s' : Controller .defaults, ∃ ops, ∃ cmd : Command, ∃ events,
      Config.defaults.enableHbmDualCmd = false ∧ (controllerSystem .defaults).Run ops s ∧
      s.clockTick = .ok s' ∧ s'.log = s.log ++ events ∧ cmd.isReadWrite = true ∧
      events.countP (Event.erases cmd) = 1 ∧ events.countP (Event.issues cmd) = 0 ∧
      s'.readsOf cmd.hexAddr ≠ [] ∧ s'.entryTotal false cmd.hexAddr = 0 := by
  obtain ⟨s, s', hs, htick, events, hlog, hlost⟩ := exists_lost .defaults
    (.add ⟨0, false, 0, 0⟩ :: List.replicate 11 .tick ++
      [.pushRdW ⟨.pimActivate, Config.defaults.addressMapping 8192, 8192⟩])
    ⟨.read, Config.defaults.addressMapping 0, 0⟩ (by decide +kernel)
  have hrun := (run_of_replay (fun _ => True) hs (fun _ _ => trivial)).of_restrict
  exact ⟨s, s', _, _, events, rfl, hrun, htick, hlog, rfl, hlost⟩

/-! ## Dual issue -/

/-- Where all gaps are positive, no column command is ready in the cycle in which
another one has been issued. -/
theorem not_ready_of_spaced (hsp : config.ColumnsSpaced) {s s' : ChannelState}
    {it it' : Transaction} {clk : Nat}
    (h : s.updateTimingAndStates config (Timing.ofConfig config) (transToCommand config it) clk =
      .ok s') :
    s'.getReadyCommand config (transToCommand config it') clk ≠
      .ok (some (transToCommand config it')) := by
  intro hready
  have hcol : (transToCommand config it).isReadWrite = true :=
    columnType_isReadWrite config it.isWrite
  have hcol' : (transToCommand config it').isReadWrite = true :=
    columnType_isReadWrite config it'.isWrite
  obtain ⟨hopen, hdue⟩ := ChannelState.opened_of_ready hcol' hready
  have hbank : config.HasBank (transToCommand config it').bankIndex := hasBank_transToCommand it'
  -- The bank of the first command is closed behind it unless the page policy keeps it open.
  have hkeep : (transToCommand config it').bankIndex = (transToCommand config it).bankIndex →
      (transToCommand config it).cmdType.keepsRow = true := by
    intro hsame
    by_contra hnot
    have hclosed := ChannelState.closed_of_column h hcol (by simpa using hnot)
      (hasBank_transToCommand it)
    rw [← hsame, hopen] at hclosed
    cases hclosed
  have hpos : config.HasPosition
      ((transToCommand config it).addr.position (transToCommand config it').bankIndex) := by
    by_cases hsame : (transToCommand config it').bankIndex = (transToCommand config it).bankIndex
    · rw [Address.position_eq_sameBank.mpr hsame]
      exact transToCommand_keepsRow.mp (hkeep hsame)
    · exact Config.hasPosition_of_ne (hasBank_transToCommand it) hbank hsame
  have hgap := hsp _ hpos (transToCommand config it).isWrite (transToCommand config it').isWrite
  have hmem := config.columnGap_mem_governing hcol hcol' hkeep
  have hle := ((ChannelState.cmdTiming_le_iff h hbank).mp hdue).2 _ hmem
  have hlt := le_addClk clk (config.columnGap
    ((transToCommand config it).addr.position (transToCommand config it').bankIndex)
    (transToCommand config it).isWrite (transToCommand config it').isWrite)
  omega

theorem noDiscard_of_spaced {o : Controller config} (hsp : config.ColumnsSpaced) (ho : o.Sound)
    (hpim : o.pimCmds = []) : NoDiscard o := by
  rintro s s' cmd hs hrem (⟨hquiet, hidle⟩ | ⟨_, s₀, s₁, first, hquiet, hfirst, hissue⟩)
  · rw [hquiet.pimIdle hpim] at hidle
    cases hidle
  · obtain ⟨_, _, _, ⟨it, rfl⟩, _⟩ := (ho.of_quiet hquiet).offered hfirst.column hfirst.offered
    obtain ⟨_, _, _, ⟨it', rfl⟩, hready, _⟩ := hs.offered hrem.column hrem.offered
    have h := issueCommand_spec hissue
    rw [h.clk] at hready
    exact not_ready_of_spaced hsp h.channel hready

/-- Where all gaps between column commands are positive, every column command that
one of the two selections of a tick takes from its queue is issued in that tick. The gaps are
exact integers, which are those of the source as long as they are values of `int`. -/
theorem dual_issue_keeps_commands (config : Config) (hsp : config.ColumnsSpaced) {ops : List Op}
    {s s' : Controller config} (h : (ordinarySystem config).Run ops s)
    (htick : s.clockTick = .ok s') :
    ∃ events, s'.log = s.log ++ events ∧ Event.Balanced events := by
  obtain ⟨hs, hpim⟩ := sound_of_ordinary h
  exact clockTick_balanced hs (noDiscard_of_spaced hsp hs hpim) htick

/-- One rank of the HBM2 device, in the tick that takes a read from its queue. -/
theorem dual_issue_keeps_commands_single_rank :
    ∃ s s' : Controller .hbm2Rank, ∃ ops, Config.hbm2Rank.enableHbmDualCmd = true ∧
      (ordinarySystem .hbm2Rank).Run ops s ∧ s.clockTick = .ok s' ∧
      ∃ events, s'.log = s.log ++ events ∧ Event.Balanced events ∧
        events.countP (Event.erases ⟨.read, Config.hbm2Rank.addressMapping 0, 0⟩) = 1 := by
  have hsp : Config.hbm2Rank.ColumnsSpaced := by
    intro p hp isWrite isWrite'
    cases p <;> cases isWrite <;> cases isWrite' <;> first | decide | exact absurd hp (by decide)
  have hsome : ((replay .hbm2Rank (.add ⟨0, false, 0, 0⟩ :: List.replicate 15 .tick)).bind fun s =>
      s.clockTick.toOption.map fun s' => (s'.log.drop s.log.length).countP
        (Event.erases ⟨.read, Config.hbm2Rank.addressMapping 0, 0⟩)) = some 1 := by
    decide +kernel
  obtain ⟨s, hs, htick⟩ := Option.bind_eq_some_iff.mp hsome
  obtain ⟨s', hs', herased⟩ := Option.map_eq_some_iff.mp htick
  have hrun := ordinary_of_replay hs (by decide)
  have hok := Library.toOption_eq_some.mp hs'
  obtain ⟨events, hlog, hbal⟩ := dual_issue_keeps_commands _ hsp hrun hok
  rw [hlog, List.drop_left] at herased
  exact ⟨s, s', _, rfl, hrun, hok, events, hlog, hbal, herased⟩

/-- With two ranks of the HBM2 device, the gap from a write to a read in the other rank is
negative.  While nine writes to one rank are issued, a read of the other
rank becomes ready in the cycle of a write: it leaves its queue and is not issued. -/
theorem dual_issue_loses_read :
    ∃ s s' : Controller .hbm2, ∃ ops, ∃ cmd : Command, ∃ events,
      Config.hbm2.enableHbmDualCmd = true ∧ (ordinarySystem .hbm2).Run ops s ∧
      s.clockTick = .ok s' ∧ s'.log = s.log ++ events ∧ cmd.isReadWrite = true ∧
      events.countP (Event.erases cmd) = 1 ∧ events.countP (Event.issues cmd) = 0 ∧
      s'.readsOf cmd.hexAddr ≠ [] ∧ s'.entryTotal false cmd.hexAddr = 0 := by
  obtain ⟨s, s', hs, htick, events, hlog, hlost⟩ := exists_lost .hbm2
    ((List.range 9).map (fun i => .add ⟨i % 2 * 8192 + i / 2 * 256, true, 0, 0⟩) ++
      List.replicate 10 .tick ++ [.add ⟨131072, false, 0, 0⟩] ++ List.replicate 15 .tick)
    ⟨.read, Config.hbm2.addressMapping 131072, 131072⟩ (by decide +kernel)
  exact ⟨s, s', _, _, events, rfl, ordinary_of_replay hs (by decide), htick, hlog, rfl, hlost⟩

end Controller

end Dramsim
