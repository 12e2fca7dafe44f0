import Dramsim.Channel.Readiness
import Dramsim.Controller.SelectionOrder

/-!
# What can be done is done

A queue whose banks are due has a command to offer (`exists_firstReady`).  Here the rules of
`GetFirstReadyInQueue` meet.  The oldest entry may have to wait although its bank is ready, since
`ArbitratePrecharge` keeps the row open for entries behind it.  Then the first of these goes: it
needs no other command, and no read before it has its column, since such a read would want the open
row as well.

Without PIM commands and self refresh a selected command can be issued (`exists_issueCommand`).
-/

namespace Dramsim

/-- The commands that the queues need: the column commands, and the two that prepare a bank for
them. -/
def CommandType.IsQueued (ty : CommandType) : Prop :=
  ty.isReadWrite = true ∨ ty = .activate ∨ ty = .precharge

/-- The three commands that a column command may need of a bank. -/
theorem BankState.requiredType_of_column {b : BankState} {cmd : Command} (h : b.Awake)
    (hcol : cmd.isReadWrite = true) :
    (b.state = .closed ∧ b.requiredType cmd = .ok .activate) ∨
    (b.state = .opened ∧ cmd.addr.row = b.openRow ∧ b.requiredType cmd = .ok cmd.cmdType) ∨
    (b.state = .opened ∧ cmd.addr.row ≠ b.openRow ∧ b.requiredType cmd = .ok .precharge) := by
  rw [Command.isReadWrite] at hcol
  unfold requiredType
  by_cases hrow : cmd.addr.row = b.openRow <;> rcases h with hs | hs <;>
    cases hty : cmd.cmdType <;> rw [hty] at hcol <;> first | (simp [hs, hrow]; done) | cases hcol

namespace CommandQueue

variable {config : Config} {channel : ChannelState} {clk : Nat}

/-! ## A queue with nothing to offer -/

/-- An entry that yields a command is not passed over. -/
theorem exists_firstReady_of_yields {queue before after : List Command} {entry cmd : Command}
    (hservice : channel.ServesColumns config) (hcols : ∀ e ∈ queue, e.isReadWrite = true)
    (h : Yields config channel clk queue cmd before entry after) :
    ∃ cmd', getFirstReadyInQueue config channel clk queue = .ok (some cmd') := by
  -- the walk reaches the entry, or stops before it
  have hwalk : ∀ passed rest, passed ++ rest = before →
      ∃ cmd', firstReadyFrom config channel clk passed (rest ++ entry :: after) =
        .ok (some cmd') := by
    intro passed rest
    induction rest generalizing passed with
    | nil =>
        intro hbefore
        rw [List.append_nil] at hbefore
        subst hbefore
        have hpre := h.precharge
        have hwrite := h.write
        refine ⟨cmd, ?_⟩
        rw [List.nil_append, firstReadyFrom, h.answer]
        dsimp only [bind, Except.bind]
        grind
    | cons e rest ih =>
        intro hbefore
        have hnext := ih (passed ++ [e]) (by rw [List.append_assoc]; exact hbefore)
        have hmem : e ∈ queue := by
          rw [h.split, ← hbefore]
          simp
        obtain ⟨answer, hanswer⟩ := hservice e clk (hcols e hmem)
        rw [List.cons_append, firstReadyFrom, hanswer]
        cases answer with
        | none => exact hnext
        | some cmd' =>
            dsimp only [bind, Except.bind]
            repeat' split
            all_goals first | exact hnext | exact ⟨_, rfl⟩
  rw [getFirstReadyInQueue, h.split]
  exact hwalk [] before rfl

theorem bankIndex_eq_iff {cmd cmd' : Command} :
    cmd.bankIndex = cmd'.bankIndex ↔ cmd.addr.rank = cmd'.addr.rank ∧
      cmd.addr.bankgroup = cmd'.addr.bankgroup ∧ cmd.addr.bank = cmd'.addr.bank := by
  simp only [Command.bankIndex, Address.bankIndex, BankIndex.mk.injEq]

/-- An entry asks for a row that is open in the bank of another one. -/
def WantsRow (channel : ChannelState) (oldest entry : Command) : Prop :=
  entry.addr.row = (channel.bankStates oldest.bankIndex).openRow ∧
    entry.addr.rank = oldest.addr.rank ∧ entry.addr.bankgroup = oldest.addr.bankgroup ∧
    entry.addr.bank = oldest.addr.bank

/-- If a row is not closed for the oldest entry, it is kept for the first that asks for it. -/
theorem exists_first_hit {oldest : Command} {queue : List Command}
    (h : ¬ arbitratePrecharge channel [] oldest queue = true) :
    ∃ before entry after, queue = before ++ entry :: after ∧ WantsRow channel oldest entry ∧
      ∀ e ∈ before, ¬ WantsRow channel oldest e := by
  rw [arbitratePrecharge, List.any_nil, if_neg Bool.false_ne_true] at h
  simp only [Bool.or_eq_true, not_or, Bool.not_eq_true', Bool.not_eq_false] at h
  rw [List.any_eq_true, ← List.find?_isSome] at h
  obtain ⟨entry, hfind⟩ := Option.isSome_iff_exists.mp h.1
  obtain ⟨hwants, before, after, hsplit, hbefore⟩ := List.find?_eq_some_iff_append.mp hfind
  refine ⟨before, entry, after, hsplit, ?_, fun e he hw => ?_⟩
  · simp_all [WantsRow]
  · have hnot := hbefore e he
    simp_all [WantsRow]

/-- The walk through a queue whose banks are due finds a command. -/
theorem exists_firstReady {queue : List Command} (hne : queue ≠ []) (hawake : channel.Awake)
    (hcols : ∀ e ∈ queue, e.isReadWrite = true)
    (hrank : ∀ e ∈ queue, ∀ e' ∈ queue, e.addr.rank = e'.addr.rank)
    (hdue : ∀ e ∈ queue, channel.DueBy (fun ix => ix = e.bankIndex) CommandType.IsQueued clk)
    (hwindow : ∀ rank, channel.activationWindowOk config rank clk = true) :
    ∃ cmd, getFirstReadyInQueue config channel clk queue = .ok (some cmd) := by
  have hservice := hawake.servesColumns config
  -- what an entry is answered
  have hanswer : ∀ e ∈ queue, ∀ ty, (channel.bankStates e.bankIndex).requiredType e = .ok ty →
      channel.getReadyCommand config e clk = .ok (some ⟨ty, e.addr, e.hexAddr⟩) := by
    intro e he ty hty
    refine ChannelState.getReadyCommand_of_due (CommandType.isRankCMD_of_isReadWrite (hcols e he))
      ⟨hty, hdue e he _ rfl ty ?_⟩ fun _ => hwindow _
    rcases BankState.requiredType_of_column (hawake e.bankIndex) (hcols e he) with
      ⟨_, h⟩ | ⟨_, _, h⟩ | ⟨_, _, h⟩ <;> rw [h] at hty <;> cases hty
    · exact Or.inr (Or.inl rfl)
    · exact Or.inl (hcols e he)
    · exact Or.inr (Or.inr rfl)
  obtain ⟨oldest, rest, rfl⟩ := List.exists_cons_of_ne_nil hne
  have hold := List.mem_cons_self (a := oldest) (l := rest)
  have hoffer {ty : CommandType}
      (hty : (channel.bankStates oldest.bankIndex).requiredType oldest = .ok ty)
      (hpre : ty = .precharge → arbitratePrecharge channel [] oldest (oldest :: rest) = true) :
      ∃ cmd, getFirstReadyInQueue config channel clk (oldest :: rest) = .ok (some cmd) :=
    exists_firstReady_of_yields hservice hcols
      ⟨(List.nil_append _).symm, hanswer oldest hold ty hty, hpre, fun _ => rfl⟩
  rcases BankState.requiredType_of_column (hawake oldest.bankIndex) (hcols oldest hold) with
    ⟨_, hty⟩ | ⟨_, _, hty⟩ | ⟨hopen, _, hty⟩
  · exact hoffer hty fun h => by cases h
  · exact hoffer hty fun h => absurd (hcols oldest hold) (by rw [Command.isReadWrite, h]; decide)
  · by_cases harb : arbitratePrecharge channel [] oldest (oldest :: rest) = true
    · exact hoffer hty fun _ => harb
    · -- the row stays open for the first entry that wants it
      obtain ⟨before, entry, after, hsplit, hwants, hfirst⟩ := exists_first_hit harb
      have hentry : entry ∈ oldest :: rest := by
        rw [hsplit]
        simp
      have hix : entry.bankIndex = oldest.bankIndex := bankIndex_eq_iff.mpr hwants.2
      have hreq : (channel.bankStates entry.bankIndex).requiredType entry = .ok entry.cmdType := by
        rcases BankState.requiredType_of_column (hawake entry.bankIndex) (hcols entry hentry) with
          ⟨hclosed, _⟩ | ⟨_, _, h⟩ | ⟨_, hrow, _⟩
        · rw [hix, hopen] at hclosed
          cases hclosed
        · exact h
        · rw [hix] at hrow
          exact absurd hwants.1 hrow
      refine exists_firstReady_of_yields hservice hcols
        ⟨hsplit, hanswer entry hentry _ hreq, fun h => ?_, fun _ => ?_⟩
      · exact absurd (hcols entry hentry) (by rw [Command.isReadWrite, h]; decide)
      · -- a read of the same column would be a hit before the first one
        rw [hasRWDependency, List.any_eq_false]
        intro e he hdep
        simp only [Bool.and_eq_true, decide_eq_true_eq] at hdep
        have hmem : e ∈ oldest :: rest := by
          rw [hsplit]
          exact List.mem_append_left _ he
        exact hfirst e he ⟨hdep.1.1.1.2.trans hwants.1, hrank e hmem oldest hold,
          hdep.2.trans hwants.2.2.1, hdep.1.2.trans hwants.2.2.2⟩

end CommandQueue

namespace Controller

variable {config : Config} {s s' : Controller config} {cmd : Command} {ops : List Op}

/-! ## No tick ends the process -/

/-- What holds between the operations of a controller without PIM commands and self refresh. -/
structure Healthy (s : Controller config) : Prop where
  sound : s.Sound
  booked : s.Booked
  awake : s.channelState.Awake
  idle : s.pimCmds = []

theorem Healthy.steady (h : s.Healthy) : Steady s :=
  ⟨h.awake, h.sound.requests, h.sound.holdsColumns⟩

/-- Only self refresh puts a bank to sleep. -/
theorem awake_of_run {cond : Controller config → Op → Prop}
    (hself : config.enableSelfRefresh = false)
    (hrun : ((controllerSystem config).restrict cond).Run ops s) : s.channelState.Awake := by
  refine issue_invariant hrun (fun s => s.channelState.Awake) (fun _ => Or.inr rfl) ⟨?_, ?_⟩
  · intro s s' hawake hsame ix
    rw [hsame.banks.bankStates]
    exact hawake ix
  · intro o s cmd s' _ _ hpim hs _ hawake hissues hissued
    refine hawake.update (fun hty => ?_) hissued.channel
    cases hissues with
    | serve _ hcol =>
        rw [Command.isReadWrite, hty] at hcol
        cases hcol
    | answer hwanted =>
        obtain ⟨_, req, clk, hreq, _, hready⟩ := hwanted
        have hsteady : Steady s := ⟨hawake, hs.requests, hs.holdsColumns⟩
        exact (ChannelState.getReadyCommand_spec hready).ne_srefEnter
          (hreq.request hself hsteady).1 hty
    | pim _ _ hmem =>
        rcases hpim cmd hmem with h | h <;> rw [hty] at h <;> cases h

theorem healthy_of_run (hself : config.enableSelfRefresh = false)
    (hrun : (ordinarySystem config).Run ops s) : s.Healthy := by
  obtain ⟨hs, hidle⟩ := sound_of_ordinary hrun
  exact ⟨hs, (run_invariant hrun Booked.init (Booked.preserves _)).2, awake_of_run hself hrun,
    hidle⟩

theorem exists_getCommandToIssue_of_healthy (h : s.Healthy) :
    ∃ r, s.getCommandToIssue = .ok r := by
  have halive : s.channelState.Alive := fun ix hpd => by
    rcases h.awake ix with hs | hs <;> rw [hs] at hpd <;> cases hpd
  obtain ⟨found, q', hok⟩ := exists_getCommandToIssue h.sound halive
  rw [getCommandToIssue, hok]
  cases found with
  | none => exact ⟨_, rfl⟩
  | some cmd =>
      show ∃ r, (if cmd.isReadWrite then _ else _) = _
      split <;> exact ⟨_, rfl⟩

theorem Healthy.quiet (h : s.Healthy) (hs : Quiet s s') : s'.Healthy where
  sound := h.sound.of_quiet hs
  booked := h.booked.step h.sound (.quiet (o := s) hs)
  awake := (h.steady.quiet hs).awake
  idle := List.eq_nil_of_subset_nil fun c hc => h.idle ▸ hs.pim c hc

/-- A selected command can be issued. -/
theorem Picked.exists_issueCommand (hself : config.enableSelfRefresh = false) (h : s.Healthy)
    (hp : s.Picked (some cmd) s') : ∃ s'', s'.issueCommand cmd = .ok s'' ∧ s''.Healthy := by
  have htakes := hp.takes hself h.steady
  cases hissue : s'.issueCommand cmd with
  | ok s'' =>
      have hspec := issueCommand_spec hissue
      have hpims : s''.pimCmds = [] :=
        List.eq_nil_of_subset_nil fun c hc => h.idle ▸ hp.pim c (hspec.pimCmds ▸ hc)
      have hawake := (htakes.1.issued hspec htakes.2.1).awake
      refine ⟨s'', rfl, ?_⟩
      rcases hp with ⟨_, hrem⟩ | ⟨hstill, hwanted⟩
      · exact ⟨(h.sound.of_removed hrem).of_issued hspec, h.booked.serve h.sound hrem hspec, hawake,
          hpims⟩
      · have hs' := h.quiet hstill.toQuiet
        exact ⟨hs'.sound.of_issued hspec,
          hs'.booked.step hs'.sound (.answer (o := s) hwanted.answers hissue), hawake, hpims⟩
  | error e =>
      exfalso
      have hbank := issueCommand_error_not_ofBank htakes.2.2 hissue
      rcases hp with ⟨_, hrem⟩ | ⟨hstill, hwanted⟩
      · obtain ⟨_, _, _, ⟨it, rfl⟩, _⟩ := h.sound.offered hrem.column hrem.offered
        have hpend := h.booked.pending_of_removed h.sound hrem
        rcases issueCommand_error hissue with rfl | ⟨hr, hnil⟩ | ⟨hw, hnil⟩
        · exact hbank (Or.inr rfl)
        · rw [transToCommand_isRead, Bool.not_eq_true'] at hr
          rw [pendingOf, hr] at hpend
          exact hpend hnil
        · rw [transToCommand_isWrite] at hw
          rw [pendingOf, hw] at hpend
          exact hpend hnil
      · rw [issueCommand_error_of_not_column hwanted.1 hissue] at hbank
        exact hbank (Or.inr rfl)

theorem exists_tickRefresh (hinterval : toU64 config.refreshInterval ≠ 0)
    (s : Controller config) : ∃ s', s.tickRefresh = .ok s' := by
  simp [tickRefresh, Refresh.clockTick, hinterval, bind, Except.bind]

end Controller

end Dramsim
