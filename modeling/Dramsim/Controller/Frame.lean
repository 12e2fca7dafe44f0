import Dramsim.Controller.Steps

/-!
# What a tick leaves alone

The counter of the refreshes is advanced once at the start of a tick, and `rd_in_cmds_` is
walked through once, together with `release_time`.  Nothing else in a tick touches them.

Apart from the commands that it issues, a tick does bookkeeping in the queues, the record and the
statistics.  `Passes` is the rule for the pieces of a tick that follows: what bookkeeping and
commands preserve is preserved.  `Frame` is such a fact, and `clockTick_frame` the sum: the counter
makes its own tick, and the entries that are left in the two lists still belong together.
-/

namespace Dramsim

namespace Controller

variable {config : Config} {s s' s'' : Controller config} {cmd : Command}

/-- The counter and the clock are the same. -/
structure SameTimers (s s' : Controller config) : Prop where
  refresh : s'.refresh = s.refresh
  clk : s'.clk = s.clk

/-- So are the inputs with their release times. -/
structure Frame (s s' : Controller config) : Prop extends SameTimers s s' where
  rdInCmds : s'.rdInCmds = s.rdInCmds
  releaseTime : s'.releaseTime = s.releaseTime

theorem SameTimers.trans (h : SameTimers s s') (h' : SameTimers s' s'') : SameTimers s s'' :=
  ⟨h'.refresh.trans h.refresh, h'.clk.trans h.clk⟩

theorem Frame.refl (s : Controller config) : Frame s s := ⟨⟨rfl, rfl⟩, rfl, rfl⟩

theorem Frame.trans (h : Frame s s') (h' : Frame s' s'') : Frame s s'' where
  toSameTimers := h.toSameTimers.trans h'.toSameTimers
  rdInCmds := h'.rdInCmds.trans h.rdInCmds
  releaseTime := h'.releaseTime.trans h.releaseTime

/-! ## Transactions -/

theorem addTransaction_frame (s : Controller config) (it : Transaction) :
    Frame s (s.addTransaction it) := by
  rcases s.addTransaction_cases it with ⟨_, _, he⟩ | ⟨_, he⟩ | ⟨_, _, _, he⟩ | ⟨_, _, _, he⟩ <;>
    rw [he]
  · rw [enqueue_eq]
    exact ⟨⟨rfl, rfl⟩, rfl, rfl⟩
  · exact ⟨⟨rfl, rfl⟩, rfl, rfl⟩
  · rw [enqueue_eq]
    exact ⟨⟨rfl, rfl⟩, rfl, rfl⟩
  · exact ⟨⟨rfl, rfl⟩, rfl, rfl⟩

theorem returnDoneTrans_frame (s : Controller config) (clk : Nat) :
    Frame s (s.returnDoneTrans clk).2 := by
  unfold returnDoneTrans
  split <;> exact ⟨⟨rfl, rfl⟩, rfl, rfl⟩

/-! ## Commands -/

theorem issueCommand_frame (h : s.issueCommand cmd = .ok s') : Frame s s' := by
  obtain ⟨s₁, hpend, h⟩ := Library.bind_eq_ok.mp h
  obtain ⟨channel, _, h⟩ := Library.bind_eq_ok.mp h
  cases h
  rcases completePending_cases hpend with ⟨_, rfl⟩ | ⟨_, _, _, rfl⟩ | ⟨_, _, rfl⟩ <;>
    exact ⟨⟨rfl, rfl⟩, rfl, rfl⟩

/-! ## The pieces of a tick -/

/-- Neither a bank nor the record of the commands changes, and of the statistics only the count of
dual commands. -/
structure Bookkeeping (s s' : Controller config) : Prop extends Frame s s' where
  channelState : s'.channelState = s.channelState
  issued : s'.issuedCommands = s.issuedCommands
  stats : ∀ c ≠ Counter.hbmDualCmds, s'.simpleStats c = s.simpleStats c

theorem Bookkeeping.of_rest (h : Frame s s') (hchannel : s'.channelState = s.channelState)
    (hissued : s'.issuedCommands = s.issuedCommands) (hstats : s'.simpleStats = s.simpleStats) :
    Bookkeeping s s' :=
  ⟨h, hchannel, hissued, fun _ _ => congrFun hstats _⟩

theorem Bookkeeping.increment_hbmDualCmds (s : Controller config) :
    Bookkeeping s (s.increment .hbmDualCmds) :=
  ⟨⟨⟨rfl, rfl⟩, rfl, rfl⟩, rfl, rfl, fun _ hc => Function.update_of_ne hc _ _⟩

/-- Facts that bookkeeping and commands preserve. -/
structure Passes (Inv : Controller config → Prop) : Prop where
  book : ∀ {s s'}, Inv s → Bookkeeping s s' → Inv s'
  issue : ∀ {s cmd s'}, Inv s → s.issueCommand cmd = .ok s' → Inv s'

namespace Passes

variable {Inv : Controller config → Prop} (hp : Passes Inv)

include hp

theorem getCommandToIssue {found : Option Command} (h : s.getCommandToIssue = .ok (found, s'))
    (hs : Inv s) : Inv s' := by
  obtain ⟨⟨cmd, q⟩, -, h⟩ := Library.bind_eq_ok.mp h
  cases cmd with
  | none =>
      cases h
      exact hp.book hs (.of_rest ⟨⟨rfl, rfl⟩, rfl, rfl⟩ rfl rfl rfl)
  | some cmd =>
      dsimp only at h
      split at h <;> cases h <;>
        exact hp.book hs (.of_rest ⟨⟨rfl, rfl⟩, rfl, rfl⟩ rfl
          (by simp [issuedCommands, record, Event.command?]) rfl)

theorem selectCommand {found : Option Command} (h : s.selectCommand = .ok (found, s'))
    (hs : Inv s) : Inv s' := by
  rw [Controller.selectCommand] at h
  split at h
  · obtain ⟨⟨cmd, q⟩, -, h⟩ := Library.bind_eq_ok.mp h
    have hqueue : Inv { s with cmdQueue := q } :=
      hp.book hs (.of_rest ⟨⟨rfl, rfl⟩, rfl, rfl⟩ rfl rfl rfl)
    cases cmd with
    | none => exact hp.getCommandToIssue h hqueue
    | some cmd =>
        cases h
        exact hqueue
  · exact hp.getCommandToIssue h hs

theorem issueSelected (h : s.issueSelected cmd = .ok s') (hs : Inv s) : Inv s' := by
  obtain ⟨s₁, hs₁, h⟩ := Library.bind_eq_ok.mp h
  have hfirst := hp.issue hs hs₁
  split at h
  · obtain ⟨⟨second, s₂⟩, hs₂, h⟩ := Library.bind_eq_ok.mp h
    have hget := hp.getCommandToIssue hs₂ hfirst
    cases second with
    | none =>
        cases h
        exact hget
    | some second =>
        dsimp only at h
        split at h
        · obtain ⟨s₃, hs₃, h⟩ := Library.bind_eq_ok.mp h
          cases h
          exact hp.book (hp.issue hget hs₃) (.increment_hbmDualCmds s₃)
        · cases h
          exact hget
  · cases h
    exact hfirst

theorem issuePim (h : s.issuePim cmd = .ok s') (hs : Inv s) : Inv s' := by
  rw [Controller.issuePim] at h
  split at h
  · cases h
    exact hs
  · exact hp.issue hs h

theorem issueRdW : ∀ (l kept : List Command) {s s' : Controller config},
    s.issueRdW kept l = .ok s' → Inv s → Inv s'
  | [], _, _, _, h, hs => by
      cases h
      exact hp.book hs (.of_rest ⟨⟨rfl, rfl⟩, rfl, rfl⟩ rfl rfl rfl)
  | cmd :: rest, kept, s, s', h, hs => by
      rw [Controller.issueRdW] at h
      obtain ⟨ready, -, h⟩ := Library.bind_eq_ok.mp h
      split at h
      · obtain ⟨s₁, hs₁, h⟩ := Library.bind_eq_ok.mp h
        exact issueRdW rest kept h (hp.issuePim hs₁ hs)
      · exact issueRdW rest _ h hs

theorem issueWr : ∀ (l kept : List Command) {s s' : Controller config},
    s.issueWr kept l = .ok s' → Inv s → Inv s'
  | [], _, _, _, h, hs => by
      cases h
      exact hp.book hs (.of_rest ⟨⟨rfl, rfl⟩, rfl, rfl⟩ rfl rfl rfl)
  | cmd :: rest, kept, s, s', h, hs => by
      rw [Controller.issueWr] at h
      obtain ⟨ready, -, h⟩ := Library.bind_eq_ok.mp h
      split at h
      · split at h
        · exact issueWr rest kept h hs
        · obtain ⟨s₁, hs₁, h⟩ := Library.bind_eq_ok.mp h
          have hfirst := hp.issue hs hs₁
          split at h
          · cases h
            exact hp.book hfirst (.of_rest ⟨⟨rfl, rfl⟩, rfl, rfl⟩ rfl rfl rfl)
          · exact issueWr rest kept h hfirst
      · exact issueWr rest _ h hs

/-- The walk through the inputs sets the two lists at its end. -/
theorem issueRdIn (hinputs : ∀ {s : Controller config} cmds times, Inv s →
      Inv { s with rdInCmds := cmds, releaseTime := times }) :
    ∀ (l : List Command) (times : List Int) (kept : List Command) (keptTime : List Int)
      {s s' : Controller config}, s.issueRdIn kept keptTime l times = .ok s' → Inv s → Inv s'
  | [], _, _, _, _, _, h, hs => by
      cases h
      exact hinputs _ _ hs
  | cmd :: rest, times, kept, keptTime, s, s', h, hs => by
      unfold Controller.issueRdIn at h
      obtain ⟨ready, -, h⟩ := Library.bind_eq_ok.mp h
      split at h
      · cases times with
        | nil => cases h
        | cons time times =>
            dsimp only at h
            split at h
            · obtain ⟨s₁, hs₁, h⟩ := Library.bind_eq_ok.mp h
              exact issueRdIn hinputs rest times _ _ h (hp.issuePim hs₁ hs)
            · exact issueRdIn hinputs rest times _ _ h hs
      · exact issueRdIn hinputs rest _ _ _ h hs

end Passes

theorem SameTimers.passes (o : Controller config) : Passes (SameTimers o) :=
  ⟨fun h hbook => h.trans hbook.toSameTimers,
    fun h hissue => h.trans (issueCommand_frame hissue).toSameTimers⟩

theorem Frame.passes (o : Controller config) : Passes (Frame o) :=
  ⟨fun h hbook => h.trans hbook.toFrame, fun h hissue => h.trans (issueCommand_frame hissue)⟩

/-! ## The inputs -/

section Entries

variable {ι : Type} (command : ι → Command) (time : ι → Int)

/-- The two lists belong together: they are columns of one list of entries. -/
def Columns (entries : List ι) (s : Controller config) : Prop :=
  s.rdInCmds = entries.map command ∧ s.releaseTime = entries.map time

variable {command time}

theorem Columns.frame {entries : List ι} (hcols : Columns command time entries s)
    (h : Frame s s') : Columns command time entries s' :=
  ⟨h.rdInCmds.trans hcols.1, h.releaseTime.trans hcols.2⟩

/-- The walk through the two lists takes an entry out of both or leaves it in both. -/
theorem issueRdIn_columns :
    ∀ (entries kept : List ι) (s : Controller config) {s' : Controller config},
      s.issueRdIn (kept.map command) (kept.map time) (entries.map command) (entries.map time) =
        .ok s' →
      ∃ rest, rest.Sublist entries ∧ Columns command time (kept ++ rest) s'
  | [], kept, s, _, h => by
      cases h
      exact ⟨[], .slnil, by simp, by simp⟩
  | e :: entries, kept, s, s', h => by
      have hkeep : kept.map command ++ [command e] = (kept ++ [e]).map command ∧
          kept.map time ++ [time e] = (kept ++ [e]).map time := by simp
      have hstays (h : s.issueRdIn ((kept ++ [e]).map command) ((kept ++ [e]).map time)
            (entries.map command) (entries.map time) = .ok s') :
          ∃ rest, rest.Sublist (e :: entries) ∧ Columns command time (kept ++ rest) s' := by
        obtain ⟨rest, hsub, hcols⟩ := issueRdIn_columns entries (kept ++ [e]) s h
        exact ⟨e :: rest, hsub.cons_cons e, by simpa using hcols⟩
      rw [List.map_cons, List.map_cons, issueRdIn] at h
      obtain ⟨ready, _, h⟩ := Library.bind_eq_ok.mp h
      split at h
      · split at h
        · obtain ⟨s₁, _, h⟩ := Library.bind_eq_ok.mp h
          obtain ⟨rest, hsub, hcols⟩ := issueRdIn_columns entries kept s₁ h
          exact ⟨rest, hsub.cons e, hcols⟩
        · rw [hkeep.1, hkeep.2] at h
          exact hstays h
      · rw [List.take_succ_cons, List.take_zero, List.drop_succ_cons, List.drop_zero, hkeep.1,
          hkeep.2] at h
        exact hstays h

end Entries

/-! ## A tick -/

/-- The commands of a tick select one or walk through the streams. -/
theorem issueCommands_cases {issued : Bool} (h : s.issueCommands = .ok (issued, s')) :
    ∃ selected s₁, s.selectCommand = .ok (selected, s₁) ∧
      ((selected = none ∧ s' = s₁) ∨
        (∃ cmd, selected = some cmd ∧ s₁.issueSelected cmd = .ok s') ∨
        ∃ s₂ s₃, s₁.issueRdW [] s₁.rdWCmds = .ok s₂ ∧
          s₂.issueRdIn [] [] s₂.rdInCmds s₂.releaseTime = .ok s₃ ∧
          s₃.issueWr [] s₃.wrCmds = .ok s') := by
  obtain ⟨⟨selected, s₁⟩, hs₁, h⟩ := Library.bind_eq_ok.mp h
  refine ⟨selected, s₁, hs₁, ?_⟩
  dsimp only at h
  split at h
  · cases selected with
    | none =>
        cases h
        exact Or.inl ⟨rfl, rfl⟩
    | some cmd =>
        obtain ⟨s₂, hs₂, h⟩ := Library.bind_eq_ok.mp h
        cases h
        exact Or.inr (Or.inl ⟨cmd, rfl, hs₂⟩)
  · obtain ⟨s₄, hs₄, h⟩ := Library.bind_eq_ok.mp h
    cases h
    obtain ⟨s₂, hs₂, hs₄⟩ := Library.bind_eq_ok.mp hs₄
    obtain ⟨s₃, hs₃, hs₄⟩ := Library.bind_eq_ok.mp hs₄
    exact Or.inr (Or.inr ⟨s₂, s₃, hs₂, hs₃, hs₄⟩)

theorem Passes.issueCommands {Inv : Controller config → Prop} (hp : Passes Inv)
    (hinputs : ∀ {s : Controller config} cmds times, Inv s →
      Inv { s with rdInCmds := cmds, releaseTime := times })
    {issued : Bool} (h : s.issueCommands = .ok (issued, s')) (hs : Inv s) : Inv s' := by
  obtain ⟨selected, s₁, hselect, hcases⟩ := issueCommands_cases h
  have hs₁ := hp.selectCommand hselect hs
  rcases hcases with ⟨-, rfl⟩ | ⟨cmd, -, hissue⟩ | ⟨s₂, s₃, hrdW, hrdIn, hwr⟩
  · exact hs₁
  · exact hp.issueSelected hissue hs₁
  · exact hp.issueWr _ _ hwr (hp.issueRdIn hinputs _ _ _ _ hrdIn (hp.issueRdW _ _ hrdW hs₁))

/-- The commands of a tick leave everything alone, except for one walk through the inputs. -/
theorem issueCommands_frame {issued : Bool} (h : s.issueCommands = .ok (issued, s')) :
    Frame s s' ∨ ∃ s₁ s₂, Frame s s₁ ∧
      s₁.issueRdIn [] [] s₁.rdInCmds s₁.releaseTime = .ok s₂ ∧ Frame s₂ s' := by
  obtain ⟨selected, s₁, hselect, hcases⟩ := issueCommands_cases h
  have hs₁ := (Frame.passes s).selectCommand hselect (.refl s)
  rcases hcases with ⟨-, rfl⟩ | ⟨cmd, -, hissue⟩ | ⟨s₂, s₃, hrdW, hrdIn, hwr⟩
  · exact Or.inl hs₁
  · exact Or.inl ((Frame.passes s).issueSelected hissue hs₁)
  · exact Or.inr ⟨s₂, s₃, (Frame.passes s).issueRdW _ _ hrdW hs₁, hrdIn,
      (Frame.passes s₃).issueWr _ _ hwr (.refl s₃)⟩

theorem updateSelfRefresh_frame {l : List Nat} (h : s.updateSelfRefresh l = .ok s') :
    Frame s s' := by
  rcases updateSelfRefresh_cases l h with rfl | ⟨_, _, _, _, _, hissue⟩
  · exact .refl _
  · exact issueCommand_frame hissue

theorem scheduleTransaction_bookkeeping (s : Controller config) :
    Bookkeeping s s.scheduleTransaction := by
  obtain ⟨draining, -, hstart⟩ := s.startDraining_eq
  have hset (queue : List Transaction) :
      Bookkeeping s (s.startDraining.setScheduledQueue queue) := by
    rw [hstart, setScheduledQueue]
    split
    · exact .of_rest ⟨⟨rfl, rfl⟩, rfl, rfl⟩ rfl rfl rfl
    · split <;> exact .of_rest ⟨⟨rfl, rfl⟩, rfl, rfl⟩ rfl rfl rfl
  cases hfirst : firstAccepted s.cmdQueue [] s.startDraining.scheduledQueue with
  | none =>
      rw [scheduleTransaction_of_none hfirst, hstart]
      exact .of_rest ⟨⟨rfl, rfl⟩, rfl, rfl⟩ rfl rfl rfl
  | some found =>
      obtain ⟨before, it, after⟩ := found
      obtain ⟨⟨⟨hrefresh, hclk⟩, hcmds, htimes⟩, hchannel, hissued, hstats⟩ :=
        hset (before ++ after)
      rw [scheduleTransaction_of_some hfirst]
      repeat' split
      · rw [hstart]
        exact .of_rest ⟨⟨rfl, rfl⟩, rfl, rfl⟩ rfl rfl rfl
      all_goals exact ⟨⟨⟨hrefresh, hclk⟩, hcmds, htimes⟩, hchannel, hissued, hstats⟩

/-- A tick starts with the counter, then issues commands, and leaves the rest alone. -/
theorem clockTick_frame (h : s.clockTick = .ok s') :
    ∃ refresh channel s₁ issued s₂,
      s.refresh.clockTick s.channelState = .ok (refresh, channel) ∧
      s₁ = { s with refresh := refresh, channelState := channel } ∧
      s₁.issueCommands = .ok (issued, s₂) ∧
      s'.refresh = s₂.refresh ∧ s'.clk = s₂.clk + 1 ∧ s'.rdInCmds = s₂.rdInCmds ∧
      s'.releaseTime = s₂.releaseTime := by
  obtain ⟨s₁, issued, s₂, s₃, htick, hissue, hsleep, rfl⟩ := clockTick_parts h
  obtain ⟨⟨refresh, channel⟩, hrefresh, htick⟩ := Library.bind_eq_ok.mp htick
  have hidle : Frame s₂ s₂.updateIdleCycles := ⟨⟨rfl, rfl⟩, rfl, rfl⟩
  have hrest : Frame s₂ s₃.scheduleTransaction := by
    refine Frame.trans ?_ (scheduleTransaction_bookkeeping s₃).toFrame
    rcases hsleep with rfl | ⟨_, _, hsleep⟩
    · exact hidle
    · exact hidle.trans (updateSelfRefresh_frame hsleep)
  exact ⟨refresh, channel, s₁, issued, s₂, hrefresh, (Except.ok.inj htick).symm, hissue,
    hrest.refresh, congrArg (· + 1) hrest.clk, hrest.rdInCmds, hrest.releaseTime⟩

/-- The counter makes its own tick. -/
theorem clockTick_timers (h : s.clockTick = .ok s') :
    s'.clk = s.clk + 1 ∧
      ∃ channel, s.refresh.clockTick s.channelState = .ok (s'.refresh, channel) := by
  obtain ⟨refresh, channel, s₁, issued, s₂, hrefresh, rfl, hissue, hr, hclk, -, -⟩ :=
    clockTick_frame h
  have htimers : s₂.refresh = refresh ∧ s₂.clk = s.clk := by
    obtain ⟨hrefresh', hclk'⟩ := (SameTimers.passes _).issueCommands
      (fun _ _ h => ⟨h.refresh, h.clk⟩) hissue ⟨rfl, rfl⟩
    exact ⟨hrefresh', hclk'⟩
  rw [hclk, hr, htimers.1, htimers.2]
  exact ⟨rfl, channel, hrefresh⟩

/-- Some entries leave both lists. -/
theorem clockTick_columns {ι : Type} {command : ι → Command} {time : ι → Int} {entries : List ι}
    (hcols : Columns command time entries s) (h : s.clockTick = .ok s') :
    ∃ rest, rest.Sublist entries ∧ Columns command time rest s' := by
  obtain ⟨refresh, channel, s₁, issued, s₂, -, rfl, hissue, -, -, hcmds, htimes⟩ :=
    clockTick_frame h
  have hstart : Columns command time entries
      { s with refresh := refresh, channelState := channel } := hcols
  have hsum : ∃ rest, rest.Sublist entries ∧ Columns command time rest s₂ := by
    rcases issueCommands_frame hissue with hframe | ⟨s₃, s₄, hbefore, hwalk, hafter⟩
    · exact ⟨entries, .refl _, hstart.frame hframe⟩
    · have hcols₃ := hstart.frame hbefore
      rw [hcols₃.1, hcols₃.2] at hwalk
      obtain ⟨rest, hsub, hcols₄⟩ := issueRdIn_columns entries [] s₃ hwalk
      exact ⟨rest, hsub, hcols₄.frame hafter⟩
  obtain ⟨rest, hsub, hrest⟩ := hsum
  exact ⟨rest, hsub, hcmds.trans hrest.1, htimes.trans hrest.2⟩

end Controller

end Dramsim
