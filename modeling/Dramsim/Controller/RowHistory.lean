import Dramsim.Channel.Legality
import Dramsim.Controller.Ticks
import Dramsim.Library.Since

/-!
# The rows of a channel and its history

`Tracks` relates the banks of a channel to the commands that have been issued: the
entries cover every gap, an open bank holds the row of its last activate, and a bank
that is not open has been closed since.  It asks nothing of the commands, so it holds
along every run of a controller, also where a PIM stream issues a `PRECHARGE` that no
bank has been asked about.
-/

namespace Dramsim

namespace CommandType

theorem isRankCMD_of_closesRow {ty : CommandType} (h : ty.closesRow = true) :
    ty.isRankCMD = false := by
  cases ty <;> first | rfl | cases h

theorem closesRow_of_isActivate {ty : CommandType} (h : ty.isActivate = true) :
    ty.closesRow = false := by
  cases ty <;> first | rfl | cases h

end CommandType

namespace Command

/-- The command opens a row of the bank. -/
def Activates (cmd : Command) (ix : BankIndex) : Prop :=
  cmd.cmdType.isActivate = true ∧ cmd.bankIndex = ix

/-- The command closes the row of the bank, at once or after a column access. -/
def Closes (cmd : Command) (ix : BankIndex) : Prop :=
  cmd.cmdType.closesRow = true ∧ cmd.bankIndex = ix

end Command

namespace ChannelState

/-- What a command does to the row of a bank. -/
theorem row_cases {config : Config} {timing : Timing} {s s' : ChannelState} {cmd : Command}
    {clk : Nat} {ix : BankIndex} (h : s.updateTimingAndStates config timing cmd clk = .ok s')
    (hix : config.HasBank ix) :
    (cmd.Activates ix ∧ ¬ cmd.Closes ix ∧ (s'.bankStates ix).state = .opened ∧
      (s'.bankStates ix).openRow = cmd.addr.row) ∨
    (cmd.Closes ix ∧ (s'.bankStates ix).state = .closed) ∨
    (¬ cmd.Activates ix ∧ ¬ cmd.Closes ix ∧
      ((s'.bankStates ix).state = .opened ↔ (s.bankStates ix).state = .opened) ∧
      (s'.bankStates ix).openRow = (s.bankStates ix).openRow) := by
  obtain ⟨s₁, hs₁, rfl⟩ := updateTimingAndStates_spec h
  simp only [updateTiming_bankStates hix, BankState.updateTimings_state,
    BankState.updateTimings_openRow]
  by_cases hreach : config.Reaches cmd ix
  · have hself : cmd.isRankCMD = false → cmd.bankIndex = ix := by
      intro hrank
      rw [Config.Reaches, hrank] at hreach
      exact hreach.symm
    rcases BankState.updateState_cases (hs₁.taken ix hreach) with
      ⟨hs, ⟨hty, hb⟩ | ⟨hty, hb⟩⟩ | ⟨hs, ⟨hty, hb⟩ | ⟨hty, hb⟩ | ⟨hty, hb⟩⟩ | ⟨hs, hty, hb⟩ <;>
      rw [hb]
    · refine Or.inr (Or.inr ⟨?_, ?_, Iff.rfl, rfl⟩) <;> rintro ⟨hc, _⟩ <;>
        cases he : cmd.cmdType <;> simp [he, CommandType.keepsRow, CommandType.isActivate,
          CommandType.closesRow] at hty hc
    · exact Or.inr (Or.inl ⟨⟨hty, hself (CommandType.isRankCMD_of_closesRow hty)⟩, rfl⟩)
    · refine Or.inr (Or.inr ⟨?_, ?_, Iff.rfl, rfl⟩) <;> rintro ⟨hc, _⟩ <;>
        cases he : cmd.cmdType <;> simp [Command.isRefresh, he, CommandType.isRefresh,
          CommandType.isActivate, CommandType.closesRow] at hty hc
    · refine Or.inl ⟨⟨hty, hself (CommandType.isRankCMD_of_isActivate hty)⟩, ?_, rfl, rfl⟩
      rintro ⟨hc, _⟩
      rw [CommandType.closesRow_of_isActivate hty] at hc
      cases hc
    · refine Or.inr (Or.inr ⟨?_, ?_, by simp [hs], rfl⟩) <;> rintro ⟨hc, _⟩ <;>
        rw [hty] at hc <;> cases hc
    · refine Or.inr (Or.inr ⟨?_, ?_, by simp [hs], rfl⟩) <;> rintro ⟨hc, _⟩ <;>
        rw [hty] at hc <;> cases hc
  · have hnot : cmd.isRankCMD = false → cmd.bankIndex ≠ ix := by
      intro hrank he
      apply hreach
      rw [Config.Reaches, hrank]
      exact he.symm
    rw [hs₁.kept ix hreach]
    refine Or.inr (Or.inr ⟨?_, ?_, Iff.rfl, rfl⟩)
    · rintro ⟨hc, he⟩
      exact hnot (CommandType.isRankCMD_of_isActivate hc) he
    · rintro ⟨hc, he⟩
      exact hnot (CommandType.isRankCMD_of_closesRow hc) he

end ChannelState

namespace Controller

variable {config : Config} {s s' : Controller config} {cmd : Command} {ix : BankIndex}
  {e : Nat × Command}

/-! ## The invariant -/

/-- What the banks say of the commands that have been issued. -/
structure Tracks (s : Controller config) : Prop where
  uniform : s.channelState.SrefUniform config
  covers : Library.Covers (Imposes config (Timing.ofConfig config)) s.channelState.entries
    s.issuedCommands
  clocks : ∀ e ∈ s.issuedCommands, e.1 ≤ s.clk
  sorted : s.issuedCommands.Pairwise fun e e' => e.1 ≤ e'.1
  /-- An open bank holds the row of its last activate. -/
  opened : ∀ ix, config.HasBank ix → (s.channelState.bankStates ix).state = .opened →
    Library.Since
      (fun e : Nat × Command => e.2.Activates ix ∧
        e.2.addr.row = (s.channelState.bankStates ix).openRow)
      (fun e => e.2.Activates ix) s.issuedCommands
  /-- A bank that is not open has been closed since its last activate. -/
  shut : ∀ ix, config.HasBank ix → (s.channelState.bankStates ix).state ≠ .opened →
    ¬ Library.Since (fun e : Nat × Command => e.2.Activates ix) (fun e => e.2.Closes ix)
      s.issuedCommands

theorem Tracks.init : Tracks ({} : Controller config) where
  uniform := fun _ _ _ _ _ => ⟨Iff.rfl, rfl⟩
  covers := Library.Covers.nil
  clocks := fun _ he => absurd he List.not_mem_nil
  sorted := List.Pairwise.nil
  opened := fun _ _ hopen => by cases hopen
  shut := fun _ _ _ => Library.not_since_nil

theorem Tracks.frame (h : s.Tracks) (hsame : SameCommands s s') : s'.Tracks := by
  obtain ⟨hbanks, hissued, hclk⟩ := hsame
  have hentries : s'.channelState.entries = s.channelState.entries := by
    funext key
    rw [ChannelState.entries, hbanks.bankStates, ChannelState.entries]
  refine ⟨?_, ?_, ?_, ?_, ?_, ?_⟩
  · intro ix ix' hix hix' hr
    rw [hbanks.bankStates]
    exact h.uniform ix ix' hix hix' hr
  · rw [hissued, hentries]
    exact h.covers
  · rw [hissued]
    exact fun e he => Nat.le_trans (h.clocks e he) hclk
  · rw [hissued]
    exact h.sorted
  · rw [hissued, hbanks.bankStates]
    exact h.opened
  · rw [hissued, hbanks.bankStates]
    exact h.shut

/-- Every command is tracked, whatever asked for it. -/
theorem Tracks.issued (h : s.Tracks) (hissue : Issued s cmd s') : s'.Tracks := by
  refine ⟨h.uniform.step hissue.channel, ?_, ?_, ?_, fun ix hix hopen => ?_,
    fun ix hix hshut => ?_⟩ <;>
    rw [hissue.issuedCommands]
  · exact ChannelState.covers_update h.covers hissue.channel
  · rw [hissue.clk]
    intro e he
    rcases List.mem_append.mp he with he | he
    · exact h.clocks e he
    · rw [List.mem_singleton.mp he]
  · rw [List.pairwise_append]
    refine ⟨h.sorted, List.pairwise_singleton _ _, fun e he e' he' => ?_⟩
    rw [List.mem_singleton.mp he']
    exact h.clocks e he
  · rw [Library.since_append]
    rcases ChannelState.row_cases hissue.channel hix with ⟨hact, _, _, hrow⟩ | ⟨_, hclosed⟩ |
      ⟨hact, _, hiff, hrow⟩
    · exact Or.inl ⟨hact, hrow.symm⟩
    · rw [hclosed] at hopen
      cases hopen
    · rw [hrow]
      exact Or.inr ⟨h.opened ix hix (hiff.mp hopen), hact⟩
  · rw [Library.since_append]
    rcases ChannelState.row_cases hissue.channel hix with ⟨_, _, hopen, _⟩ | ⟨hclose, _⟩ |
      ⟨hact, _, hiff, _⟩
    · exact absurd hopen hshut
    · rintro (hact | ⟨_, hnot⟩)
      · rw [Command.Closes, CommandType.closesRow_of_isActivate hact.1] at hclose
        cases hclose.1
      · exact hnot hclose
    · rintro (hact' | ⟨hsince, _⟩)
      · exact hact hact'
      · exact h.shut ix hix (fun hopen => hshut (hiff.mpr hopen)) hsince

/-! ## What it gives -/

/-- A command that is due keeps the gaps to every earlier command. -/
theorem Tracks.distance (h : s.Tracks) {ty : CommandType} (hix : config.HasBank ix)
    (hdue : (s.channelState.bankStates ix).cmdTiming ty ≤ s.clk) (he : e ∈ s.issuedCommands)
    {d : Int} (hd : (ty, d) ∈ (Timing.ofConfig config).governing e.2 ix) :
    (e.1 : Int) + d ≤ s.clk := by
  have hentry := h.covers e he (ix, ty) _ ⟨hix, d, hd, rfl⟩
  have hle := le_addClk e.1 d
  have hclk : addClk e.1 d ≤ s.clk := Nat.le_trans hentry hdue
  omega

/-- The activate that opened the row of a bank is its latest. -/
theorem Tracks.opener (h : s.Tracks) (hix : config.HasBank ix)
    (hopen : (s.channelState.bankStates ix).state = .opened) :
    ∃ f ∈ s.issuedCommands, f.2.Activates ix ∧
      f.2.addr.row = (s.channelState.bankStates ix).openRow ∧
      ∀ e ∈ s.issuedCommands, e.2.Activates ix → e.1 ≤ f.1 := by
  obtain ⟨before, f, after, hl, ⟨hact, hrow⟩, hnone⟩ := h.opened ix hix hopen
  refine ⟨f, by simp [hl], hact, hrow, fun e he heact => ?_⟩
  have hsorted := h.sorted
  rw [hl, List.pairwise_append] at hsorted
  rw [hl] at he
  rcases List.mem_append.mp he with he | he
  · exact hsorted.2.2 e he f (List.mem_cons_self ..)
  · rcases List.mem_cons.mp he with rfl | he
    · exact Nat.le_refl _
    · exact absurd heact (hnone e he)

/-- Between an activate of a bank and now, the bank has been closed. -/
theorem Tracks.closing (h : s.Tracks) (hix : config.HasBank ix)
    (hshut : (s.channelState.bankStates ix).state ≠ .opened)
    {R : Nat × Command → Nat × Command → Prop} (hR : s.issuedCommands.Pairwise R)
    (he : e ∈ s.issuedCommands) (hact : e.2.Activates ix) :
    ∃ g ∈ s.issuedCommands, g.2.Closes ix ∧ R e g := by
  obtain ⟨before, after, hl⟩ := List.append_of_mem he
  by_contra hnone
  refine h.shut ix hix hshut ⟨before, e, after, hl, hact, fun g hg hclose => hnone ?_⟩
  rw [hl, List.pairwise_append, List.pairwise_cons] at hR
  exact ⟨g, by simp [hl, hg], hclose, hR.2.1.1 g hg⟩

/-! ## Commands that hit an open row -/

/-- The commands that wait for a bank at the start of a tick. -/
def waitingCommands (s : Controller config) : List Command := s.cmdQueue.entries ++ s.pimCmds

/-- A column command that answers a request is the request, and hits its row. -/
theorem hit_of_ready {s : ChannelState} {req : Command} {clk : Nat}
    (h : s.getReadyCommand config req clk = .ok (some cmd)) (hcol : cmd.cmdType.isColumn = true) :
    req.cmdType = cmd.cmdType ∧ req.addr = cmd.addr ∧
      (s.bankStates cmd.bankIndex).state = .opened ∧
      cmd.addr.row = (s.bankStates cmd.bankIndex).openRow ∧
      (s.bankStates cmd.bankIndex).cmdTiming cmd.cmdType ≤ clk := by
  have hsame : ∀ {b : BankState}, b.requiredType req = .ok cmd.cmdType →
      req.cmdType = cmd.cmdType ∧ b.state = .opened ∧ req.addr.row = b.openRow := by
    intro b hreq
    rcases BankState.requiredType_cases hreq with ⟨_, hc⟩ | ⟨hs, ho⟩ | ⟨_, _, hty⟩
    · rcases hc with ⟨_, hty⟩ | ⟨_, hty⟩ | ⟨hm, hty⟩
      · rw [hty] at hcol
        cases hcol
      · rw [hty] at hcol
        cases hcol
      · rw [hty] at hcol
        cases he : req.cmdType <;> simp [he, CommandType.isMaintenance, CommandType.isColumn,
          CommandType.isReadWrite, CommandType.isRead, CommandType.isWrite,
          CommandType.isPimColumn] at hm hcol
    · rcases ho with ⟨_, hrow, hty⟩ | ⟨_, _, hty⟩ | ⟨_, hty⟩
      · exact ⟨hty.symm, hs, hrow⟩
      · rw [hty] at hcol
        cases hcol
      · rw [hty] at hcol
        cases hcol
    · rw [hty] at hcol
      cases hcol
  cases ChannelState.getReadyCommand_spec h with
  | wholeRank hrank _ =>
      rw [CommandType.isColumn_of_isRankCMD hrank] at hcol
      cases hcol
  | bankOfRank hrank _ hdue hne _ => exact absurd (hsame hdue.1).1.symm hne
  | bank _ hdue haddr _ _ =>
      obtain ⟨hty, hs, hrow⟩ := hsame hdue.1
      rw [Command.bankIndex, haddr]
      exact ⟨hty, rfl, hs, hrow, hdue.2⟩

/-- An answer is no column command. -/
theorem Wanted.isColumn (hs : s.Sound) (h : s.Wanted cmd) : cmd.cmdType.isColumn = false := by
  by_contra hcol
  rw [Bool.not_eq_false] at hcol
  obtain ⟨hnot, req, clk, hwants, _, hready⟩ := h
  obtain ⟨hty, _⟩ := hit_of_ready hready hcol
  have hpim := (hwants.asks.request hs).2
  rw [hty] at hpim
  rw [CommandType.isColumn, hpim, Bool.or_false] at hcol
  rw [Command.isReadWrite, hcol] at hnot
  cases hnot

/-- An answer is due in every bank that it reaches. -/
theorem Wanted.due (hs : s.Sound) (ht : s.Tracks) (h : s.Wanted cmd) (hix : config.Reaches cmd ix) :
    ∃ req, s.channelState.Due req s.clk ix cmd.cmdType := by
  obtain ⟨_, req, clk, hwants, hclk, hready⟩ := h
  have hnow : clk = s.clk := hclk.elim id fun hq => hq.trans hs.clock
  have hans := ChannelState.getReadyCommand_spec (hnow ▸ hready)
  exact ⟨req, hans.due ht.uniform (hwants.asks.request hs).1 hix⟩

/-- Every column command that a tick issues has waited, and hits its row. -/
theorem Issues.hit {o : Controller config} (hos : o.Sound) (hs : s.Sound) (h : Issues o s cmd)
    (hcol : cmd.cmdType.isColumn = true) :
    cmd ∈ o.waitingCommands ∧ (s.channelState.bankStates cmd.bankIndex).state = .opened ∧
      cmd.addr.row = (s.channelState.bankStates cmd.bankIndex).openRow ∧
      (s.channelState.bankStates cmd.bankIndex).cmdTiming cmd.cmdType ≤ s.clk := by
  cases h with
  | @serve i hmem _ hready _ =>
      refine ⟨List.mem_append_left _ (List.mem_flatMap.mpr ⟨i, ?_, hmem⟩),
        (hit_of_ready hready hcol).2.2⟩
      obtain ⟨rfl, it, rfl⟩ := hos.entries i cmd hmem
      exact List.mem_range.mpr (Config.queueOf_lt (hasBank_transToCommand it))
  | answer hwanted _ =>
      rw [hwanted.isColumn hs] at hcol
      cases hcol
  | pim hdue _ hmem =>
      refine ⟨List.mem_append_right _ hmem, ?_⟩
      rcases hdue.2 with hpre | ⟨req, ready, haddr, hhex, hready, hty⟩
      · rw [hpre] at hcol
        cases hcol
      · rw [← hty] at hcol
        obtain ⟨_, haddr', hs', hrow, htime⟩ := hit_of_ready hready hcol
        have hsame : ready.addr = cmd.addr := haddr'.symm.trans haddr
        rw [Command.bankIndex, hsame] at hrow
        rw [Command.bankIndex, hsame] at hs' htime
        exact ⟨hs', hrow, hty ▸ htime⟩

end Controller

end Dramsim
