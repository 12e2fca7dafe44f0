import Dramsim.Controller.RowHistory

/-!
# From activate to column, and from activate to refresh

`ACTIVATE` starts the timers of the ordinary column commands, `PIM_ACTIVATE` those of
the PIM ones, while a bank lets either kind of command hit a row that the other kind
opened.  A column command keeps its distance to the activate of its row as long as it
does not wait for a row that the other kind of activate has opened a short time ago.

A refresh keeps the row cycle time to the last activate of its bank when the row has
been closed late enough.  `PRECHARGE` waits for `tRAS`.  A column command with
auto-precharge does not, and neither does a `PRECHARGE` of the stream `rd_w_cmds_`,
which is issued without asking the bank.
-/

namespace Dramsim

/-! ## Gaps of a row -/

namespace CommandType

/-- The activate that a column command asks for. -/
def opener (ty : CommandType) : CommandType := if ty.isPimColumn then .pimActivate else .activate

/-- The column commands that write, ordinary or PIM. -/
def writesColumn : CommandType → Bool
  | .write | .writePrecharge | .pimWrite | .pimWritePrecharge => true
  | _ => false

end CommandType

namespace Config

/-- `activate_to_read` or `activate_to_write`, for a column command. -/
def activateDelay (config : Config) (ty : CommandType) : Int :=
  if ty.writesColumn then Timing.activateToWrite config else Timing.activateToRead config

/-- The cycles after which a command that closes a row has closed it. -/
def closeDelay (config : Config) : CommandType → Int
  | .precharge => 0
  | ty => if ty.writesColumn then Timing.writeToPrecharge config else Timing.readToPrecharge config

theorem activateDelay_mem (config : Config) {ty : CommandType} (h : ty.isColumn = true) :
    (ty, config.activateDelay ty) ∈ Timing.sameBankOf config ty.opener := by
  cases ty <;> simp [CommandType.isColumn, CommandType.isReadWrite, CommandType.isRead,
    CommandType.isWrite, CommandType.isPimColumn] at h <;>
    simp [activateDelay, CommandType.writesColumn, CommandType.opener, CommandType.isPimColumn,
      Timing.sameBankOf, Timing.columnRow]

theorem tRAS_mem (config : Config) {ty : CommandType} (h : ty.isActivate = true) :
    (.precharge, config.tRAS) ∈ Timing.sameBankOf config ty := by
  cases ty <;> cases h <;> simp [Timing.sameBankOf, Timing.activateToPrecharge]

theorem closeDelay_mem (config : Config) {ty ty' : CommandType} (h : ty.closesRow = true)
    (h' : ty'.isMaintenance = true) :
    (ty', config.closeDelay ty + config.tRP) ∈ Timing.sameBankOf config ty := by
  have hrow : ∀ toAct toRef, (ty', toRef) ∈ Timing.prechargedRow toAct toRef := by
    intro toAct toRef
    cases ty' <;> cases h' <;> simp [Timing.prechargedRow]
  have hzero : (0 : Int) + config.tRP = config.tRP := Int.zero_add _
  cases ty <;> cases h <;> simp only [closeDelay, CommandType.writesColumn, hzero, if_true,
    if_false, Bool.false_eq_true] <;> exact hrow _ _

end Config

/-- A command of one bank imposes the row `same_bank` on its own bank. -/
theorem Timing.governing_self {timing : Timing} {cmd : Command} (h : cmd.isRankCMD = false) :
    timing.governing cmd cmd.bankIndex = timing.sameBank cmd.cmdType := by
  have hpos : cmd.addr.position cmd.bankIndex = .sameBank := Address.position_eq_sameBank.mpr rfl
  rw [Timing.governing, h, if_neg Bool.false_ne_true, hpos]
  split
  · rw [if_pos rfl]
  · rfl

/-- A command that closes the row of a bank of the device does so `tRAS` after every
activate of the bank. -/
def Config.ClosesAfter (config : Config) (e e' : Nat × Command) : Prop :=
  config.HasBank e'.2.bankIndex → e.2.Activates e'.2.bankIndex → e'.2.cmdType.closesRow = true →
    (e.1 : Int) + config.tRAS ≤ e'.1 + config.closeDelay e'.2.cmdType

namespace Controller

variable {config : Config} {cmd : Command} {o s : Controller config} {e : Nat × Command}

/-! ## From activate to column -/

/-- No activate of the other kind has opened the row of the command less than its
delay ago. -/
def settled (s : Controller config) (cmd : Command) : Bool :=
  s.issuedCommands.all fun e =>
    !(e.2.cmdType.isActivate && e.2.cmdType ≠ cmd.cmdType.opener &&
      e.2.bankIndex = cmd.bankIndex && e.2.addr.row = cmd.addr.row) ||
      e.1 + config.activateDelay cmd.cmdType ≤ (s.clk : Int)

theorem le_of_settled (h : s.settled cmd = true) (he : e ∈ s.issuedCommands)
    (hact : e.2.Activates cmd.bankIndex) (hother : e.2.cmdType ≠ cmd.cmdType.opener)
    (hrow : e.2.addr.row = cmd.addr.row) :
    (e.1 : Int) + config.activateDelay cmd.cmdType ≤ s.clk := by
  have hall := List.all_eq_true.mp h e he
  simpa [hact.1, hact.2, hother, hrow] using hall

/-- An answer is no PIM command. -/
theorem WantedFirst.ne_pimActivate (ho : o.Sound) (h : o.WantedFirst cmd) :
    cmd.cmdType ≠ .pimActivate := by
  obtain ⟨s, hquiet, _, req, clk, hwants, _, hready⟩ := h
  have hpim := (hwants.asks.request (ho.of_quiet hquiet)).2
  have hnot : ∀ {b : BankState}, b.requiredType req = .ok cmd.cmdType →
      cmd.cmdType ≠ .pimActivate := by
    intro b hreq hty
    rw [hty] at hreq
    rcases BankState.requiredType_cases hreq with ⟨_, hc⟩ | ⟨_, ho⟩ | ⟨_, _, he⟩
    · rcases hc with ⟨_, he⟩ | ⟨hcol, _⟩ | ⟨hm, he⟩
      · cases he
      · rw [hpim] at hcol
        cases hcol
      · rw [← he] at hm
        cases hm
    · rcases ho with ⟨hcol, _, he⟩ | ⟨_, _, he⟩ | ⟨_, he⟩
      · rw [← he] at hcol
        cases hcol
      · cases he
      · cases he
    · cases he
  cases ChannelState.getReadyCommand_spec hready with
  | wholeRank hrank _ =>
      intro hty
      rw [Command.isRankCMD, hty] at hrank
      cases hrank
  | bankOfRank _ _ hdue _ _ => exact hnot hdue.1
  | bank _ hdue _ _ _ => exact hnot hdue.1

/-- A column command that does not wait for a row just opened by the other kind of
activate keeps its distance to every activate of its bank. -/
theorem Issues.activateDelay (hos : o.Sound) (hpim : o.Streams) (hs : s.Sound) (hin : Within o s)
    (ht : s.Tracks) (h : Issues o s cmd) (hcol : cmd.cmdType.isColumn = true)
    (hsettled : o.settled cmd = true) (hix : config.HasBank cmd.bankIndex)
    (he : e ∈ s.issuedCommands) (hact : e.2.Activates cmd.bankIndex) :
    (e.1 : Int) + config.activateDelay cmd.cmdType ≤ s.clk := by
  obtain ⟨_, hopen, hrow, hdue⟩ := h.hit hos hs hcol
  obtain ⟨f, hf, hfact, hfrow, hlast⟩ := ht.opener hix hopen
  have hle : e.1 ≤ f.1 := hlast e he hact
  suffices hfirst : (f.1 : Int) + config.activateDelay cmd.cmdType ≤ s.clk by omega
  by_cases hkind : f.2.cmdType = cmd.cmdType.opener
  · refine ht.distance hix hdue hf ?_
    rw [← hfact.2, Timing.governing_self (CommandType.isRankCMD_of_isActivate hfact.1), hkind]
    exact config.activateDelay_mem hcol
  · -- the row was opened before the tick, since a tick issues commands of one kind
    have hold : f ∈ o.issuedCommands := by
      cases h with
      | serve _ hrw _ hsince =>
          refine (hsince.mem hf).resolve_right fun hwanted => hkind ?_
          rw [CommandType.opener, CommandType.isPimColumn_of_isReadWrite hrw]
          exact CommandType.eq_activate_of_ne hfact.1 (hwanted.ne_pimActivate hos)
      | answer hwanted _ =>
          rw [hwanted.isColumn hs] at hcol
          cases hcol
      | pim _ hsince hmem =>
          refine (hsince.mem hf).resolve_right fun hstream => hkind ?_
          have hcmd : cmd.cmdType.isPimColumn = true := by
            have hrw := isReadWrite_of_isPim (hpim cmd hmem)
            rw [CommandType.isColumn] at hcol
            rw [Command.isReadWrite] at hrw
            rwa [hrw, Bool.false_or] at hcol
          rw [CommandType.opener, hcmd, if_pos rfl]
          have hpimf := hpim f.2 hstream
          have hactf := hfact.1
          rw [Command.IsPim] at hpimf
          cases hc : f.2.cmdType <;> simp [hc, CommandType.isPim, CommandType.isPimColumn,
            CommandType.isActivate] at hpimf hactf ⊢
    rw [hin.clk]
    exact le_of_settled hsettled hold hfact hkind (hfrow.trans hrow.symm)

/-- No column command waits for a row that the other kind of activate has opened less
than its delay ago. -/
def keepsKindsApart (s : Controller config) : Op → Bool
  | .tick => s.waitingCommands.all fun cmd => !cmd.cmdType.isColumn || s.settled cmd
  | _ => true

/-- Activate-to-column delay: in a run that keeps the kinds apart, every column command
keeps `activate_to_read` or `activate_to_write` to every activate of its bank, and so to
the one that opened its row. -/
theorem columns_keep_activate_delay (config : Config) {ops : List Op} {s : Controller config}
    (h : ((controllerSystem config).restrict fun s op =>
      s.keepsKindsApart op = true).Run ops s) :
    s.issuedCommands.Pairwise fun e e' =>
      config.HasBank e'.2.bankIndex → e'.2.cmdType.isColumn = true →
        e.2.cmdType.isActivate = true → e.2.bankIndex = e'.2.bankIndex →
        (e.1 : Int) + config.activateDelay e'.2.cmdType ≤ e'.1 := by
  refine (issue_invariant h (fun s => s.Tracks ∧ s.issuedCommands.Pairwise fun e e' =>
      config.HasBank e'.2.bankIndex → e'.2.cmdType.isColumn = true →
        e.2.cmdType.isActivate = true → e.2.bankIndex = e'.2.bankIndex →
        (e.1 : Int) + config.activateDelay e'.2.cmdType ≤ e'.1)
    ⟨.init, List.Pairwise.nil⟩ ⟨fun s s' hinv hsame => ?_, ?_⟩).2
  · rw [hsame.issued]
    exact ⟨hinv.1.frame hsame, hinv.2⟩
  · intro o s cmd s' hcond hos hpim hs hin ⟨ht, hinv⟩ hissues hissue
    refine ⟨ht.issued hissue, ?_⟩
    rw [hissue.issuedCommands, List.pairwise_append]
    refine ⟨hinv, List.pairwise_singleton _ _, fun e he e' he' hix hcol hact hsame => ?_⟩
    rw [List.mem_singleton.mp he'] at hix hcol hsame ⊢
    have hwait := List.all_eq_true.mp hcond cmd (hissues.hit hos hs hcol).1
    simp only [hcol, Bool.not_true, Bool.false_or] at hwait
    exact hissues.activateDelay hos hpim hs hin ht hcol hwait hix he ⟨hact, hsame⟩

/-- A PIM kernel opens a row at clock 0, and a read of the row arrives ten cycles
later. -/
theorem columns_keep_activate_delay_late_read :
    ∃ s : Controller .defaults,
      (s.issuedCommands.map fun e => (e.1, e.2.cmdType)) = [(0, .pimActivate), (11, .read)] ∧
      s.issuedCommands.Pairwise fun e e' =>
        Config.defaults.HasBank e'.2.bankIndex → e'.2.cmdType.isColumn = true →
          e.2.cmdType.isActivate = true → e.2.bankIndex = e'.2.bankIndex →
          (e.1 : Int) + Config.defaults.activateDelay e'.2.cmdType ≤ e'.1 := by
  have hsome : ((replayWhere (fun (s : Controller .defaults) op => s.keepsKindsApart op)
      ([.pushRdW ⟨.pimActivate, Config.defaults.addressMapping 0, 0⟩] ++ List.replicate 10 .tick ++
        [.add ⟨0, false, 0, 0⟩] ++ List.replicate 2 .tick)).map
      fun s => s.issuedCommands.map fun e => (e.1, e.2.cmdType)) =
      some [(0, .pimActivate), (11, .read)] := by
    decide +kernel
  obtain ⟨s, hs, hissued⟩ := Option.map_eq_some_iff.mp hsome
  exact ⟨s, hissued, columns_keep_activate_delay _ (run_of_replayWhere hs)⟩

/-- A PIM kernel opens a row at clock 0, and a read of the row is issued at clock 2. -/
theorem column_hits_foreign_row_early :
    ∃ s : Controller .defaults, (∃ ops, (controllerSystem _).Run ops s) ∧
      (s.issuedCommands.map fun e => (e.1, e.2.cmdType, e.2.bankIndex)) =
        [(0, .pimActivate, ⟨0, 0, 0⟩), (2, .read, ⟨0, 0, 0⟩)] ∧
      Config.defaults.activateDelay .read = 10 := by
  have hsome : ((replay .defaults
      ([.pushRdW ⟨.pimActivate, Config.defaults.addressMapping 0, 0⟩, .tick,
        .add ⟨0, false, 0, 0⟩, .tick, .tick])).map
      fun s => s.issuedCommands.map fun e => (e.1, e.2.cmdType, e.2.bankIndex)) =
      some [(0, .pimActivate, ⟨0, 0, 0⟩), (2, .read, ⟨0, 0, 0⟩)] := by
    decide +kernel
  obtain ⟨s, hs, hissued⟩ := Option.map_eq_some_iff.mp hsome
  exact ⟨s, ⟨_, (run_of_replay (fun _ => True) hs fun _ _ => trivial).of_restrict⟩, hissued,
    by decide⟩

/-! ## From activate to refresh -/

/-- An auto-precharge closes the row no earlier than `tRAS` after its activate. -/
def closesLate (s : Controller config) (cmd : Command) : Bool :=
  config.tRAS ≤ config.activateDelay cmd.cmdType + config.closeDelay cmd.cmdType && s.settled cmd

/-- The row of the bank has been open long enough, and no `PIM_ACTIVATE` waits to open
another one. -/
def rested (s : Controller config) (cmd : Command) : Bool :=
  (s.issuedCommands.all fun e => !(e.2.cmdType.isActivate && e.2.bankIndex = cmd.bankIndex) ||
    e.1 + config.tRAS ≤ s.clk + config.closeDelay cmd.cmdType) &&
  s.pimCmds.all fun c => c.cmdType ≠ .pimActivate || c.bankIndex ≠ cmd.bankIndex

/-- Every waiting command that closes a row closes it no earlier than `tRAS` after the
activate of the row.  In the streams it may have waited that long. -/
def closesInTime (s : Controller config) : Op → Bool
  | .tick =>
      (s.cmdQueue.entries.all fun cmd => !cmd.cmdType.closesRow || s.closesLate cmd) &&
      s.pimCmds.all fun cmd =>
        !cmd.cmdType.closesRow || s.rested cmd || (cmd.cmdType.isColumn && s.closesLate cmd)
  | _ => true

theorem closes_of_rested (hpim : o.Streams) (hin : Within o s)
    (hsince : IssuedSince o s fun c => c ∈ o.pimCmds) (h : o.rested cmd = true)
    (he : e ∈ s.issuedCommands) (hact : e.2.Activates cmd.bankIndex) :
    (e.1 : Int) + config.tRAS ≤ s.clk + config.closeDelay cmd.cmdType := by
  rw [rested, Bool.and_eq_true] at h
  obtain ⟨hlong, hnone⟩ := h
  rcases hsince.mem he with hold | hstream
  · have hall := List.all_eq_true.mp hlong e hold
    rw [hin.clk]
    simpa [hact.1, hact.2] using hall
  · have hpimact : e.2.cmdType = .pimActivate := by
      have hp := hpim e.2 hstream
      have hactivate := hact.1
      rw [Command.IsPim] at hp
      cases hc : e.2.cmdType <;> simp [hc, CommandType.isPim, CommandType.isPimColumn,
        CommandType.isActivate] at hp hactivate ⊢
    have hall := List.all_eq_true.mp hnone e.2 hstream
    simp [hpimact, hact.2] at hall

theorem Issues.closesAfter (hos : o.Sound) (hpim : o.Streams) (hs : s.Sound) (hin : Within o s)
    (ht : s.Tracks) (hcond : o.closesInTime .tick = true) (h : Issues o s cmd)
    (he : e ∈ s.issuedCommands) : config.ClosesAfter e (s.clk, cmd) := by
  intro hix hact hclose
  simp only at hix hact hclose ⊢
  have hlate : cmd.cmdType.isColumn = true → o.closesLate cmd = true →
      (e.1 : Int) + config.tRAS ≤ s.clk + config.closeDelay cmd.cmdType := by
    intro hcol hlate
    rw [closesLate, Bool.and_eq_true, decide_eq_true_eq] at hlate
    have hdelay := h.activateDelay hos hpim hs hin ht hcol hlate.2 hix he hact
    omega
  rw [closesInTime, Bool.and_eq_true] at hcond
  cases h with
  | @serve i hmem hrw hready hsince =>
      have hcol := CommandType.isColumn_of_isReadWrite hrw
      have hentry : cmd ∈ o.cmdQueue.entries := by
        obtain ⟨rfl, it, rfl⟩ := hos.entries i cmd hmem
        exact List.mem_flatMap.mpr
          ⟨_, List.mem_range.mpr (Config.queueOf_lt (hasBank_transToCommand it)), hmem⟩
      have hq := List.all_eq_true.mp hcond.1 cmd hentry
      simp only [hclose, Bool.not_true, Bool.false_or] at hq
      exact hlate hcol hq
  | answer hwanted _ =>
      have hpre : cmd.cmdType = .precharge := by
        have hcol := hwanted.isColumn hs
        cases hc : cmd.cmdType <;> simp [hc, CommandType.closesRow, CommandType.isColumn,
          CommandType.isReadWrite, CommandType.isRead, CommandType.isWrite,
          CommandType.isPimColumn] at hclose hcol ⊢
      have hreach : config.Reaches cmd cmd.bankIndex := by
        rw [Config.Reaches, Command.isRankCMD, hpre]
        rfl
      obtain ⟨req, _, hdue⟩ := hwanted.due hs ht hreach
      have hdist : (e.1 : Int) + config.tRAS ≤ s.clk := by
        refine ht.distance hix hdue he ?_
        rw [← hact.2, Timing.governing_self (CommandType.isRankCMD_of_isActivate hact.1), hpre]
        exact config.tRAS_mem hact.1
      rw [hpre, Config.closeDelay]
      omega
  | pim _ hsince hmem =>
      have hp := List.all_eq_true.mp hcond.2 cmd hmem
      simp only [hclose, Bool.not_true, Bool.false_or, Bool.or_eq_true, Bool.and_eq_true] at hp
      rcases hp with hrest | ⟨hcol, hlong⟩
      · exact closes_of_rested hpim hin hsince hrest he hact
      · exact hlate hcol hlong

/-- A command of a refresh reaches banks that have been closed `tRP` ago. -/
theorem Issues.rowCycle (hpim : o.Streams) (hs : s.Sound) (ht : s.Tracks)
    (hclosed : s.issuedCommands.Pairwise config.ClosesAfter) (h : Issues o s cmd)
    (hty : cmd.cmdType.isMaintenance = true) {ix : BankIndex} (hix : config.HasBank ix)
    (hreach : config.Reaches cmd ix) (he : e ∈ s.issuedCommands) (hact : e.2.Activates ix) :
    (e.1 : Int) + config.tRC ≤ s.clk := by
  cases h with
  | serve _ hrw _ _ =>
      rw [Command.isReadWrite] at hrw
      cases hc : cmd.cmdType <;> simp [hc, CommandType.isMaintenance, CommandType.isReadWrite,
        CommandType.isRead, CommandType.isWrite] at hty hrw
  | pim _ _ hmem =>
      rcases hpim cmd hmem with hp | hp
      · cases hc : cmd.cmdType <;> simp [hc, CommandType.isMaintenance, CommandType.isPim,
          CommandType.isPimColumn] at hty hp
      · rw [hp] at hty
        cases hty
  | answer hwanted _ =>
      obtain ⟨req, hreq, hdue⟩ := hwanted.due hs ht hreach
      have hshut : (s.channelState.bankStates ix).state ≠ .opened := by
        intro hopen
        rcases BankState.requiredType_cases hreq with ⟨hst, _⟩ | ⟨_, ho⟩ | ⟨hst, _⟩
        · rw [hopen] at hst
          cases hst
        · rcases ho with ⟨hcol, _, he⟩ | ⟨_, _, he⟩ | ⟨_, he⟩
          · rw [← he] at hcol
            cases hc : cmd.cmdType <;> simp [hc, CommandType.isMaintenance, CommandType.isColumn,
              CommandType.isReadWrite, CommandType.isRead, CommandType.isWrite,
              CommandType.isPimColumn] at hty hcol
          · rw [he] at hty
            cases hty
          · rw [he] at hty
            cases hty
        · rw [hopen] at hst
          cases hst
      obtain ⟨g, hg, hclose, hafter⟩ := ht.closing hix hshut hclosed he hact
      have hlong : (e.1 : Int) + config.tRAS ≤ g.1 + config.closeDelay g.2.cmdType :=
        hafter (hclose.2 ▸ hix) (hclose.2 ▸ hact) hclose.1
      have hdist : (g.1 : Int) + (config.closeDelay g.2.cmdType + config.tRP) ≤ s.clk := by
        refine ht.distance hix hdue hg ?_
        rw [← hclose.2, Timing.governing_self (CommandType.isRankCMD_of_closesRow hclose.1)]
        exact config.closeDelay_mem hclose.1 hty
      rw [Config.tRC]
      omega

/-- Row cycle before refresh: in a run whose rows are closed in time, a refresh or the
entry of self refresh takes effect on a bank `tRC` after every activate of the bank, and
so after the last one. -/
theorem refresh_keeps_row_cycle (config : Config) {ops : List Op} {s : Controller config}
    (h : ((controllerSystem config).restrict fun s op => s.closesInTime op = true).Run ops s) :
    s.issuedCommands.Pairwise fun e e' =>
      e'.2.cmdType.isMaintenance = true → ∀ ix, config.HasBank ix → config.Reaches e'.2 ix →
        e.2.cmdType.isActivate = true → e.2.bankIndex = ix → (e.1 : Int) + config.tRC ≤ e'.1 := by
  refine (issue_invariant h (fun s => s.Tracks ∧
      s.issuedCommands.Pairwise config.ClosesAfter ∧ s.issuedCommands.Pairwise fun e e' =>
        e'.2.cmdType.isMaintenance = true → ∀ ix, config.HasBank ix → config.Reaches e'.2 ix →
          e.2.cmdType.isActivate = true → e.2.bankIndex = ix → (e.1 : Int) + config.tRC ≤ e'.1)
    ⟨.init, List.Pairwise.nil, List.Pairwise.nil⟩ ⟨fun s s' hinv hsame => ?_, ?_⟩).2.2
  · rw [hsame.issued]
    exact ⟨hinv.1.frame hsame, hinv.2⟩
  · intro o s cmd s' hcond hos hpim hs hin ⟨ht, hclosed, hinv⟩ hissues hissue
    refine ⟨ht.issued hissue, ?_, ?_⟩ <;> rw [hissue.issuedCommands, List.pairwise_append]
    · refine ⟨hclosed, List.pairwise_singleton _ _, fun e he e' he' => ?_⟩
      rw [List.mem_singleton.mp he']
      exact hissues.closesAfter hos hpim hs hin ht hcond he
    · refine ⟨hinv, List.pairwise_singleton _ _, fun e he e' he' hty ix hix hreach hact hsame => ?_⟩
      rw [List.mem_singleton.mp he'] at hty hreach ⊢
      exact hissues.rowCycle hpim hs ht hclosed hty hix hreach he ⟨hact, hsame⟩

/-- A row of an open-page device is closed for the refresh that is due at clock 20. -/
theorem refresh_keeps_row_cycle_precharge :
    ∃ s : Controller { Config.defaults with tREFI := 20 },
      (s.issuedCommands.map fun e => (e.1, e.2.cmdType)) =
        [(1, .activate), (11, .read), (25, .precharge), (35, .refresh)] ∧
      s.issuedCommands.Pairwise fun e e' =>
        e'.2.cmdType.isMaintenance = true → ∀ ix,
          Config.HasBank { Config.defaults with tREFI := 20 } ix →
          Config.Reaches { Config.defaults with tREFI := 20 } e'.2 ix →
          e.2.cmdType.isActivate = true → e.2.bankIndex = ix → (e.1 : Int) + 34 ≤ e'.1 := by
  have hsome : ((replayWhere (fun (s : Controller { Config.defaults with tREFI := 20 }) op =>
      s.closesInTime op)
      ([.add ⟨0, false, 0, 0⟩] ++ List.replicate 36 .tick)).map
      fun s => s.issuedCommands.map fun e => (e.1, e.2.cmdType)) =
      some [(1, .activate), (11, .read), (25, .precharge), (35, .refresh)] := by
    decide +kernel
  obtain ⟨s, hs, hissued⟩ := Option.map_eq_some_iff.mp hsome
  exact ⟨s, hissued, refresh_keeps_row_cycle _ (run_of_replayWhere hs)⟩

/-- A close-page device refreshes a bank 25 cycles after its activate, where
`tRC = 34`. -/
theorem refresh_after_auto_precharge_early :
    ∃ s : Controller { Config.defaults with tREFI := 20, rowBufPolicy := .closePage },
      (∃ ops, (controllerSystem _).Run ops s) ∧
      (s.issuedCommands.map fun e => (e.1, e.2.cmdType, e.2.addr.rank)) =
        [(1, .activate, 0), (11, .readPrecharge, 0), (26, .refresh, 0)] ∧
      Config.tRC { Config.defaults with tREFI := 20, rowBufPolicy := .closePage } = 34 := by
  have hsome : ((replay { Config.defaults with tREFI := 20, rowBufPolicy := .closePage }
      ([.add ⟨0, false, 0, 0⟩] ++ List.replicate 27 .tick)).map
      fun s => s.issuedCommands.map fun e => (e.1, e.2.cmdType, e.2.addr.rank)) =
      some [(1, .activate, 0), (11, .readPrecharge, 0), (26, .refresh, 0)] := by
    decide +kernel
  obtain ⟨s, hs, hissued⟩ := Option.map_eq_some_iff.mp hsome
  exact ⟨s, ⟨_, (run_of_replay (fun _ => True) hs fun _ _ => trivial).of_restrict⟩, hissued,
    by decide⟩

end Controller

end Dramsim
