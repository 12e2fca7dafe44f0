import Dramsim.Controller.Progress

/-!
# What a tick does

Without PIM commands and self refresh every tick comes to an end (`exists_turn`).  It has a turn
(`Turn`): it serves an entry of a queue (`Dispatched`), or gives the first refresh that waits the
command that it needs, or is idle because neither has anything to offer.  While a refresh waits, the
queues that it concerns are passed over (`Guards`).  With dual issue the queues may have another
turn (`Again`).  Then the tick ends with a transaction that is scheduled (`endTick`).
-/

namespace Dramsim

namespace Controller

variable {config : Config} {s s₁ s₂ s' : Controller config} {ref cmd entry : Command}
  {found : Option Command} {rest : List Command} {ops : List Op} {i : Nat}

/-! ## Commands from the queues -/

/-- A command that an entry of a queue needs is issued.  Only a column command leaves the queue. -/
structure Dispatched (s : Controller config) (i : Nat) (entry cmd : Command)
    (s' : Controller config) : Prop where
  turn : i < config.numQueues ∧ ¬ s.cmdQueue.Skips i
  queue : ∃ before after,
    CommandQueue.Yields config s.channelState s.clk (s.cmdQueue.queues i) cmd before entry after ∧
      s'.cmdQueue.queues =
        if cmd.isReadWrite then Function.update s.cmdQueue.queues i (before ++ after)
        else s.cmdQueue.queues
  channel : s.channelState.updateTimingAndStates config (Timing.ofConfig config) cmd s.clk =
    .ok s'.channelState
  clk : s'.clk = s.clk
  unifiedQueue : s'.unifiedQueue = s.unifiedQueue
  marks : s'.cmdQueue.isInRef = s.cmdQueue.isInRef ∧
    s'.cmdQueue.refQIndices = s.cmdQueue.refQIndices

/-- Selecting a command changes the queues and the log. -/
theorem getCommandToIssue_spec (h : s.getCommandToIssue = .ok (found, s₁)) :
    ∃ q, s.cmdQueue.getCommandToIssue s.channelState = .ok (found, q) ∧
      s₁ = { s with cmdQueue := q, log := s₁.log } := by
  obtain ⟨⟨found', q⟩, hfound, h⟩ := Library.bind_eq_ok.mp h
  dsimp only at h
  split at h
  · split at h <;> cases h <;> exact ⟨q, hfound, rfl⟩
  · cases h
    exact ⟨q, hfound, rfl⟩

/-- Issuing what the queues have selected. -/
theorem dispatched_of_getCommandToIssue (h : s.Healthy)
    (hget : s.getCommandToIssue = .ok (some cmd, s₁)) (hissue : s₁.issueCommand cmd = .ok s') :
    ∃ i entry, Dispatched s i entry cmd s' := by
  obtain ⟨q, hfound, hs₁⟩ := getCommandToIssue_spec hget
  obtain ⟨k, hk, hfirst⟩ := CommandQueue.commandFrom_found _ _ hfound
  have hserved := served_of_found h.sound h.booked hk hfirst
  have hissued := issueCommand_spec hissue
  have hq : s'.cmdQueue = q := by rw [hissued.cmdQueue, hs₁]
  have hmarks := commandFrom_marks s.channelState _ _ hfound
  have hclock : s.cmdQueue.clk = s.clk := h.sound.clock
  have hchannel := hissued.channel
  rw [hs₁] at hchannel
  -- only the queues and the log have changed before the command is issued
  have hrest : ∀ entry, (∃ before after, CommandQueue.Yields config s.channelState s.clk
        (s.cmdQueue.queues q.queueIdx) cmd before entry after ∧ s'.cmdQueue.queues =
          if cmd.isReadWrite then Function.update s.cmdQueue.queues q.queueIdx (before ++ after)
          else s.cmdQueue.queues) → Dispatched s q.queueIdx entry cmd s' := fun entry hqueue =>
    ⟨⟨q.queueIdx.isLt, hserved.offers.1⟩, hqueue, hchannel, by rw [hissued.clk, hs₁],
      by rw [hissued.unifiedQueue, hs₁], by rw [hq]; exact hmarks⟩
  cases hcol : cmd.isReadWrite with
  | true =>
      obtain ⟨before, after, hready, hqueue⟩ := hserved.column hcol
      refine ⟨_, cmd, hrest cmd ⟨before, after, hclock ▸ hready.toYields, ?_⟩⟩
      rw [hq, if_pos hcol, hqueue]
  | false =>
      obtain ⟨before, entry, after, hyields⟩ :=
        CommandQueue.getFirstReadyInQueue_spec hserved.offers.2
      refine ⟨_, entry, hrest entry ⟨before, after, hclock ▸ hyields, ?_⟩⟩
      rw [hq, hcol, if_neg Bool.false_ne_true, hserved.other hcol]

namespace Dispatched

variable (h : s.Healthy) (hd : Dispatched s i entry cmd s')

include hd

theorem mem : entry ∈ s.cmdQueue.queues i := by
  obtain ⟨before, after, hyields, _⟩ := hd.queue
  rw [hyields.split]
  simp

theorem mem_entries : entry ∈ s.cmdQueue.entries :=
  List.mem_flatMap.mpr ⟨i, List.mem_range.mpr hd.turn.1, hd.mem⟩

include h

theorem isReadWrite : entry.isReadWrite = true := h.sound.holdsColumns i entry hd.mem

theorem hasBank : config.HasBank entry.bankIndex := by
  obtain ⟨_, it, rfl⟩ := h.sound.entries i entry hd.mem
  exact hasBank_transToCommand it

/-- It goes to the bank of the entry, which needs it and takes it. -/
theorem answer : s.channelState.Due entry s.clk entry.bankIndex cmd.cmdType ∧
    cmd.addr = entry.addr ∧ cmd.hexAddr = entry.hexAddr := by
  have hrank : entry.isRankCMD = false := CommandType.isRankCMD_of_isReadWrite (hd.isReadWrite h)
  obtain ⟨before, after, hyields, _⟩ := hd.queue
  cases ChannelState.getReadyCommand_spec hyields.answer with
  | wholeRank h => rw [hrank] at h; cases h
  | bankOfRank h => rw [hrank] at h; cases h
  | bank _ hdue haddr hhex => exact ⟨hdue, haddr, hhex⟩

/-- Which one it is, is a matter of the row buffer. -/
theorem cases :
    ((s.channelState.bankStates entry.bankIndex).state = .closed ∧ cmd.cmdType = .activate) ∨
    ((s.channelState.bankStates entry.bankIndex).state = .opened ∧ cmd = entry) ∨
    ((s.channelState.bankStates entry.bankIndex).state = .opened ∧ cmd.cmdType = .precharge) := by
  obtain ⟨⟨hdue, _⟩, haddr, hhex⟩ := hd.answer h
  rcases BankState.requiredType_of_column (h.awake entry.bankIndex) (hd.isReadWrite h) with
    ⟨hs, hreq⟩ | ⟨hs, _, hreq⟩ | ⟨hs, _, hreq⟩ <;> rw [hdue, Except.ok.injEq] at hreq
  · exact Or.inl ⟨hs, hreq⟩
  · refine Or.inr (Or.inl ⟨hs, ?_⟩)
    cases cmd
    cases entry
    simp only at hreq haddr hhex
    rw [hreq, haddr, hhex]
  · exact Or.inr (Or.inr ⟨hs, hreq⟩)

theorem isQueued : cmd.cmdType.IsQueued := by
  rcases hd.cases h with ⟨_, hty⟩ | ⟨_, rfl⟩ | ⟨_, hty⟩
  · exact Or.inr (Or.inl hty)
  · exact Or.inl (hd.isReadWrite h)
  · exact Or.inr (Or.inr hty)

theorem reaches {ix : BankIndex} : config.Reaches cmd ix ↔ ix = entry.bankIndex := by
  have hrank : cmd.isRankCMD = false := by
    rcases hd.isQueued h with hty | hty | hty
    · exact CommandType.isRankCMD_of_isReadWrite hty
    all_goals rw [Command.isRankCMD, hty]; rfl
  rw [Config.Reaches, hrank, if_neg Bool.false_ne_true, Command.bankIndex, (hd.answer h).2.1]
  rfl

/-- The row buffer of the bank takes the command. -/
theorem rowBuffer : ∃ b, (s.channelState.bankStates entry.bankIndex).updateState cmd = .ok b ∧
    b.SameRow (s'.channelState.bankStates entry.bankIndex) := by
  obtain ⟨b, hb, hrest⟩ := ChannelState.rowBuffer_of_update hd.channel entry.bankIndex
  rw [if_pos ((hd.reaches h).mpr rfl)] at hb
  exact ⟨b, hb, hrest⟩

/-- The other row buffers stay. -/
theorem sameRow {ix : BankIndex} (hne : ix ≠ entry.bankIndex) :
    (s.channelState.bankStates ix).SameRow (s'.channelState.bankStates ix) :=
  ChannelState.sameRow_of_not_reaches hd.channel fun hr => hne ((hd.reaches h).mp hr)

theorem refreshQ : s'.channelState.refreshQ = s.channelState.refreshQ := by
  refine ChannelState.refreshQ_of_update hd.channel ?_
  rw [Command.isRefresh]
  rcases hd.isQueued h with hty | hty | hty
  · exact ChannelState.isRefresh_of_isReadWrite hty
  all_goals rw [hty]; rfl

end Dispatched

/-! ## Turns -/

/-- The queues that a refresh concerns are passed over. -/
def Guards (q : CommandQueue config) (ref : Command) : Prop :=
  q.isInRef = true ∧ q.refQIndices = CommandQueue.getRefQIndices config ref

/-- If a refresh waits, it has to wait on, and the queues that it concerns as well. -/
def PutsOff (s : Controller config) : Prop :=
  ∀ ref rest, s.channelState.refreshQ = ref :: rest →
    s.channelState.getReadyCommand config ref s.clk = .ok none ∧ Guards s.cmdQueue ref

/-- With dual issue the queues may have another turn.  The command that they select is lost if it
is of the same kind as the first one. -/
inductive Again (s s' : Controller config) : Prop where
  | ends : s' = s → Again s s'
  | loses : config.enableHbmDualCmd = true → s'.channelState = s.channelState → Again s s'
  | serves {i : Nat} {entry cmd : Command} : config.enableHbmDualCmd = true →
      Dispatched s i entry cmd s' → Again s s'

theorem Again.refreshQ (h : s.Healthy) (hagain : Again s s') :
    s'.channelState.refreshQ = s.channelState.refreshQ := by
  cases hagain with
  | ends hsame => rw [hsame]
  | loses _ hsame => rw [hsame]
  | serves _ hd => exact hd.refreshQ h

theorem Again.eq (hdual : config.enableHbmDualCmd = false) (hagain : Again s s') : s' = s := by
  cases hagain with
  | ends hsame => exact hsame
  | loses hsecond | serves hsecond => rw [hdual] at hsecond; cases hsecond

/-- What a tick does before it schedules a transaction. -/
inductive Turn (s s' : Controller config) : Prop where
  /-- Without a refresh nothing is offered. -/
  | idle : s.PutsOff → (s.channelState.refreshQ = [] → ∀ i < config.numQueues,
        CommandQueue.getFirstReadyInQueue config s.channelState s.clk (s.cmdQueue.queues i) =
          .ok none) →
      Quiet s s' → Turn s s'
  | serve {i : Nat} {entry cmd : Command} {s₁ : Controller config} : s.PutsOff →
      Dispatched s i entry cmd s₁ → s₁.Healthy → Again s₁ s' → Turn s s'
  /-- The first refresh, or what it needs before. -/
  | attend {ref cmd : Command} {rest : List Command} {s₁ : Controller config} :
      s.channelState.refreshQ = ref :: rest →
      s.channelState.getReadyCommand config ref s.clk = .ok (some cmd) →
      (cmd.isRefresh = false → Guards s.cmdQueue ref) → Issued s cmd s₁ → s₁.Healthy →
      Again s₁ s' → Turn s s'

/-- The end of a tick, after its commands: the idle counters, a transaction and the clocks. -/
def endTick (s : Controller config) : Controller config :=
  { s.updateIdleCycles.scheduleTransaction with
    clk := s.updateIdleCycles.scheduleTransaction.clk + 1
    cmdQueue := s.updateIdleCycles.scheduleTransaction.cmdQueue.clockTick }

theorem endTick_clk (s : Controller config) : s.endTick.clk = s.clk + 1 :=
  congrArg (· + 1) (scheduleTransaction_bookkeeping s.updateIdleCycles).clk

theorem endTick_channelState (s : Controller config) :
    s.channelState.SameBanks s.endTick.channelState ∧
      s.endTick.channelState.refreshQ = s.channelState.refreshQ := by
  have h : s.endTick.channelState = s.updateIdleCycles.channelState :=
    (scheduleTransaction_same s.updateIdleCycles).channelState
  rw [h]
  exact ⟨⟨rfl, rfl, rfl, rfl⟩, rfl⟩

/-- `FinishRefresh` asks for the first refresh, and has the queues wait that it concerns until it
goes. -/
theorem finishRefresh_waiting (hs : s.Sound) (hm : s.Marked)
    (hq : s.channelState.refreshQ = ref :: rest) {answer : Option Command}
    {q : CommandQueue config}
    (h : s.cmdQueue.finishRefresh s.channelState = .ok (answer, q)) :
    s.channelState.getReadyCommand config ref s.clk = .ok answer ∧
      ((∀ cmd, answer = some cmd → cmd.isRefresh = false) → Guards q ref) := by
  rw [CommandQueue.finishRefresh, hq] at h
  dsimp only at h
  obtain ⟨answer', hanswer, h⟩ := Library.bind_eq_ok.mp h
  have hguards : Guards (if !s.cmdQueue.isInRef then
      { s.cmdQueue with
        refQIndices := s.cmdQueue.refQIndices ++ CommandQueue.getRefQIndices config ref
        isInRef := true }
      else s.cmdQueue) ref := by
    cases hbusy : s.cmdQueue.isInRef with
    | false => simp [Guards, hm.idle hbusy]
    | true =>
        obtain ⟨ref', rest', hq', hindices⟩ := hm.busy hbusy
        rw [hq] at hq'
        cases hq'
        exact ⟨hbusy, hindices⟩
  have hclk : s.channelState.getReadyCommand config ref s.clk = .ok answer' := by
    rw [← hanswer, ← hs.clock]
    split <;> rfl
  cases answer' with
  | none =>
      cases h
      exact ⟨hclk, fun _ => hguards⟩
  | some cmd =>
      dsimp only at h
      split at h <;> cases h
      · rename_i hrefresh
        refine ⟨hclk, fun hnot => ?_⟩
        rw [hnot cmd rfl] at hrefresh
        cases hrefresh
      · exact ⟨hclk, fun _ => hguards⟩

/-- A timer with an interval of zero has no next tick. -/
theorem interval_of_clockTick (htick : s.clockTick = .ok s') :
    toU64 config.refreshInterval ≠ 0 := by
  obtain ⟨_, channel, hrefresh⟩ := clockTick_timers htick
  exact (Refresh.clockTick_eq hrefresh).1.ne'

/-- What becomes of the command that has been selected. -/
def IssuesFound (found : Option Command) (s s' : Controller config) : Prop :=
  match found with
  | some cmd => s.issueSelected cmd = .ok s'
  | none => s' = s

section Ticks

variable (hself : config.enableSelfRefresh = false) (h : s.Healthy)

include hself h

/-- A selected command goes, and the second one of a cycle can go as well. -/
theorem exists_issueSelected (hp : s.Picked (some cmd) s') :
    ∃ s₁ s₂, s'.issueCommand cmd = .ok s₁ ∧ s₁.Healthy ∧ s'.issueSelected cmd = .ok s₂ ∧
      Again s₁ s₂ := by
  obtain ⟨s₁, hissue, h₁⟩ := hp.exists_issueCommand hself h
  refine ⟨s₁, ?_⟩
  rw [issueSelected, hissue]
  change ∃ s₂, _ ∧ _ ∧ (if config.enableHbmDualCmd then _ else _) = _ ∧ _
  split
  · rename_i hdual
    obtain ⟨⟨second, s₂⟩, hsecond⟩ := exists_getCommandToIssue_of_healthy h₁
    have hsame := (getCommandToIssue_same hsecond).channelState
    rw [hsecond]
    cases second with
    | none => exact ⟨s₂, rfl, h₁, rfl, .loses hdual hsame⟩
    | some second =>
        change ∃ s₂, _ ∧ _ ∧ (if second.isReadWrite ≠ cmd.isReadWrite then _ else _) = _ ∧ _
        split
        · obtain ⟨s₃, hs₃, _⟩ :=
            Picked.exists_issueCommand hself h₁ (s₁.getCommandToIssue_ensures.of_ok hsecond)
          obtain ⟨i, entry, hd⟩ := dispatched_of_getCommandToIssue h₁ hsecond hs₃
          rw [hs₃]
          exact ⟨_, rfl, h₁, rfl, .serves hdual
            ⟨hd.turn, hd.queue, hd.channel, hd.clk, hd.unifiedQueue, hd.marks⟩⟩
        · exact ⟨s₂, rfl, h₁, rfl, .loses hdual hsame⟩
  · exact ⟨s₁, rfl, h₁, rfl, .ends rfl⟩

/-- The queues have their turn. -/
theorem exists_getCommandToIssue_turn (hoff : s.PutsOff)
    (hfree : s.channelState.refreshQ = [] → ∀ i, ¬ s.cmdQueue.Skips i) :
    ∃ found s₁ s₂, s.getCommandToIssue = .ok (found, s₁) ∧ IssuesFound found s₁ s₂ ∧ Turn s s₂ := by
  obtain ⟨⟨found, s₁⟩, hget⟩ := exists_getCommandToIssue_of_healthy h
  have hpicked : s.Picked found s₁ := (getCommandToIssue_ensures s).of_ok hget
  cases found with
  | none =>
      refine ⟨none, s₁, s₁, hget, rfl, .idle hoff (fun hnil i hi => ?_) (Still.toQuiet hpicked)⟩
      obtain ⟨q, hfound, _⟩ := getCommandToIssue_spec hget
      rw [← h.sound.clock]
      exact CommandQueue.getCommandToIssue_none hfound hi (hfree hnil i)
  | some cmd =>
      obtain ⟨s₃, s₂, hs₃, h₃, hsel, hagain⟩ := exists_issueSelected hself h hpicked
      obtain ⟨i, entry, hd⟩ := dispatched_of_getCommandToIssue h hget hs₃
      exact ⟨some cmd, s₁, s₂, hget, hsel, .serve hoff hd h₃ hagain⟩

/-- The first refresh that waits comes before the queues. -/
theorem exists_selectCommand_turn (hm : s.Marked) :
    ∃ found s₁ s₂, s.selectCommand = .ok (found, s₁) ∧ IssuesFound found s₁ s₂ ∧
      ∃ s₀, Quiet s s₀ ∧ s₀.channelState = s.channelState ∧ Turn s₀ s₂ := by
  rw [selectCommand, ChannelState.isRefreshWaiting]
  cases hq : s.channelState.refreshQ with
  | nil =>
      obtain ⟨found, s₁, s₂, hget, hissue, hturn⟩ := exists_getCommandToIssue_turn hself h
        (fun ref rest hcons => by rw [hq] at hcons; cases hcons)
        (fun _ i hskips => by
          obtain ⟨ref, rest, hcons, _⟩ := hm.busy hskips.1
          rw [hq] at hcons
          cases hcons)
      exact ⟨found, s₁, s₂, hget, hissue, s, .refl s, rfl, hturn⟩
  | cons ref rest =>
      obtain ⟨⟨answer, q⟩, hfinish⟩ := finishRefresh_of_steady h.steady
      have hsame := ((s.cmdQueue.finishRefresh_ensures s.channelState).of_ok hfinish).1
      have h₀ := h.quiet (.of_queue hsame)
      obtain ⟨hanswer, hguards⟩ := finishRefresh_waiting h.sound hm hq hfinish
      rw [hfinish]
      cases answer with
      | none =>
          obtain ⟨found, s₁, s₂, hget, hissue, hturn⟩ := exists_getCommandToIssue_turn hself h₀
            (fun ref' rest' hcons => by
              cases hq.symm.trans hcons
              refine ⟨hanswer, hguards ?_⟩
              intro cmd hcmd
              cases hcmd)
            (fun hnil => by cases hq.symm.trans hnil)
          exact ⟨found, s₁, s₂, hget, hissue, _, .of_queue hsame, rfl, hturn⟩
      | some cmd =>
          have hsel : s.selectCommand = .ok (some cmd, { s with cmdQueue := q }) := by
            rw [selectCommand, ChannelState.isRefreshWaiting, hq, hfinish]
            rfl
          obtain ⟨s₀, hstill, hpicked⟩ :=
            (selectCommand_ensures (o := s) h.sound.requests).of_ok hsel
          obtain ⟨s₁, s₂, hs₁, h₁, hissue, hagain⟩ :=
            exists_issueSelected hself (h.quiet hstill.toQuiet) hpicked
          refine ⟨some cmd, _, s₂, rfl, hissue, _, .of_queue hsame, rfl, .attend hq hanswer
            (fun hnot => hguards ?_) (issueCommand_spec hs₁) h₁ hagain⟩
          intro cmd' hcmd
          cases hcmd
          exact hnot

/-- Every tick has a turn and comes to an end. -/
theorem exists_turn (hm : s.Marked) (hinterval : toU64 config.refreshInterval ≠ 0) :
    ∃ s₁ s₂, Quiet s s₁ ∧ s₁.channelState.refreshQ = s.channelState.refreshQ ++ s.inserted ∧
      Turn s₁ s₂ ∧ s.clockTick = .ok s₂.endTick := by
  obtain ⟨s₀, hs₀⟩ := s.exists_tickRefresh hinterval
  have hquiet := s.tickRefresh_ensures.of_ok hs₀
  have h₀ := h.quiet hquiet
  obtain ⟨found, s₁, s₂, hsel, hissue, s₀', hstill, hchannel, hturn⟩ :=
    exists_selectCommand_turn hself h₀ (hm.tickRefresh hs₀)
  refine ⟨s₀', s₂, hquiet.trans hstill, by rw [hchannel, (tickRefresh_inserts hs₀).1], hturn, ?_⟩
  have hidle : s₁.pimIdle = true :=
    pimIdle_of_pimCmds ((selectCommand_same hsel).pimCmds.trans h₀.idle)
  have hissued : ∃ issued, s₀.issueCommands = .ok (issued, s₂) := by
    rw [issueCommands, hsel]
    change ∃ issued, (if (found.any fun cmd => cmd.isRefresh) || s₁.pimIdle then _ else _) = _
    rw [hidle, Bool.or_true, if_pos rfl]
    cases found with
    | none =>
        cases hissue
        exact ⟨_, rfl⟩
    | some cmd =>
        dsimp only [IssuesFound] at hissue ⊢
        rw [hissue]
        exact ⟨_, rfl⟩
  obtain ⟨issued, hissued⟩ := hissued
  rw [clockTick, beforeSchedule, hs₀]
  show ((s₀.issueCommands >>= _) >>= _) = _
  rw [hissued]
  show ((if config.enableSelfRefresh && !issued then _ else _) >>= _) = _
  rw [hself, Bool.false_and, if_neg Bool.false_ne_true]
  rfl

theorem clockTick_turn (hm : s.Marked) (htick : s.clockTick = .ok s') :
    ∃ s₁ s₂, Quiet s s₁ ∧ s₁.channelState.refreshQ = s.channelState.refreshQ ++ s.inserted ∧
      Turn s₁ s₂ ∧ s' = s₂.endTick := by
  obtain ⟨s₁, s₂, hquiet, hq, hturn, hok⟩ := exists_turn hself h hm (interval_of_clockTick htick)
  cases htick.symm.trans hok
  exact ⟨s₁, s₂, hquiet, hq, hturn, rfl⟩

end Ticks

/-- Without self refresh and PIM commands, no transactions can bring a controller to an exit: the
only tick that fails is that of a timer with an interval of zero. -/
theorem ordinary_ticks_return (hself : config.enableSelfRefresh = false)
    (hrun : (ordinarySystem config).Run ops s) :
    (∃ s', s.clockTick = .ok s') ↔ toU64 config.refreshInterval ≠ 0 := by
  constructor
  · rintro ⟨s', htick⟩
    exact interval_of_clockTick htick
  · intro hinterval
    obtain ⟨_, _, _, _, _, htick⟩ :=
      exists_turn hself (healthy_of_run hself hrun) (marked_of_run hrun) hinterval
    exact ⟨_, htick⟩

/-- A read and a write of the same bank, while its row is open. -/
theorem ordinary_ticks_return_busy :
    ∃ s : Controller Config.defaults,
      (ordinarySystem Config.defaults).Run
        ([.add ⟨0, false, 0, 0⟩, .add ⟨65536, true, 0, 0⟩] ++ List.replicate 20 .tick) s ∧
      s.channelState.isAllBankIdleInRank Config.defaults 0 = false ∧
      ∃ s', s.clockTick = .ok s' := by
  have hsome : ((replay Config.defaults
      ([.add ⟨0, false, 0, 0⟩, .add ⟨65536, true, 0, 0⟩] ++ List.replicate 20 .tick)).any
      fun s => s.channelState.isAllBankIdleInRank Config.defaults 0 = false) = true := by
    decide +kernel
  obtain ⟨s, hs, hopen⟩ := (Option.any_eq_true _ _).mp hsome
  have hrun := ordinary_of_replay hs (by decide)
  exact ⟨s, hrun, of_decide_eq_true hopen, (ordinary_ticks_return rfl hrun).mpr (by decide)⟩

end Controller

end Dramsim
