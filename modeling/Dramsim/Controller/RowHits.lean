import Dramsim.Controller.Frame
import Dramsim.Controller.RowHistory
import Dramsim.Library.Episodes
import Mathlib.Algebra.GroupWithZero.Nat

/-!
# Row hits

`UpdateCommandStats` counts a column command as a row hit when the bank has served another one
since its row was opened.  A row that is opened and served so accounts for one column command that
is no hit, and all others are hits (`row_hits_balance`).

The counters change only where a command is issued.  `Keeps` collects what an invariant needs to
hold along a tick then: that it does not depend on the rest of the state, and that a command
preserves it.
-/

namespace Dramsim

open Library (System Episodes.served Episodes.pending)

namespace CommandType

/-- The commands that do not work on rows. -/
def leavesRows (ty : CommandType) : Bool := ty.isRankCMD || ty.isRefresh

theorem of_leavesRows {ty : CommandType} (h : ty.leavesRows = true) :
    ty.isColumn = false ∧ ty.closesRow = false ∧ ty.isActivate = false := by
  cases ty <;> first | exact ⟨rfl, rfl, rfl⟩ | cases h

theorem isRankCMD_of_keepsRow {ty : CommandType} (h : ty.keepsRow = true) :
    ty.isRankCMD = false := by
  cases ty <;> first | rfl | cases h

end CommandType

namespace ChannelState

/-- What a command does to the row of a bank and to the count of its hits. -/
inductive RowStep (cmd : Command) (ix : BankIndex) (b b' : BankState) : Prop where
  | opens : cmd.cmdType.isActivate = true → cmd.bankIndex = ix → b.state = .closed →
      b'.state = .opened → b'.rowHitCount = b.rowHitCount → RowStep cmd ix b b'
  | serves : cmd.cmdType.keepsRow = true → cmd.bankIndex = ix → b.state = .opened →
      b'.state = .opened → b'.rowHitCount = b.rowHitCount + 1 → RowStep cmd ix b b'
  | closes : cmd.cmdType.closesRow = true → cmd.bankIndex = ix → b.state = .opened →
      b'.state = .closed → b'.rowHitCount = 0 → RowStep cmd ix b b'
  | other : (cmd.bankIndex = ix → cmd.cmdType.leavesRows = true) →
      (b'.state = .opened ↔ b.state = .opened) → b'.rowHitCount = b.rowHitCount →
        RowStep cmd ix b b'

theorem rowStep {config : Config} {timing : Timing} {s s' : ChannelState} {cmd : Command}
    {clk : Nat} (h : s.updateTimingAndStates config timing cmd clk = .ok s') (ix : BankIndex) :
    RowStep cmd ix (s.bankStates ix) (s'.bankStates ix) := by
  obtain ⟨s₁, hs₁, rfl⟩ := updateTimingAndStates_spec h
  have hstate := updateTiming_keeps BankState.updateTimings_state config timing s₁ cmd clk ix
  have hhits := updateTiming_keeps BankState.updateTimings_rowHitCount config timing s₁ cmd clk ix
  by_cases hreach : config.Reaches cmd ix
  · have hself (hrank : cmd.cmdType.isRankCMD = false) : cmd.bankIndex = ix := by
      rw [Config.Reaches, Command.isRankCMD, hrank] at hreach
      exact hreach.symm
    rcases BankState.updateState_cases (hs₁.taken ix hreach) with
      ⟨hs, ⟨hty, hb⟩ | ⟨hty, hb⟩⟩ | ⟨hs, ⟨hty, hb⟩ | ⟨hty, hb⟩ | ⟨hty, hb⟩⟩ | ⟨hs, hty, hb⟩ <;>
      rw [hb] at hstate hhits
    · exact .serves hty (hself (CommandType.isRankCMD_of_keepsRow hty)) hs (hstate.trans hs) hhits
    · exact .closes hty (hself (CommandType.isRankCMD_of_closesRow hty)) hs hstate hhits
    · refine .other (fun _ => ?_) (by rw [hstate]) hhits
      rw [CommandType.leavesRows, Bool.or_eq_true]
      exact Or.inr hty
    · exact .opens hty (hself (CommandType.isRankCMD_of_isActivate hty)) hs hstate hhits
    · exact .other (fun _ => by rw [hty]; rfl) (by simp [hstate, hs]) hhits
    · exact .other (fun _ => by rw [hty]; rfl) (by simp [hstate, hs]) hhits
  · rw [hs₁.kept ix hreach] at hstate hhits
    refine .other (fun he => ?_) (by rw [hstate]) hhits
    by_contra hrows
    rw [CommandType.leavesRows, Bool.not_eq_true, Bool.or_eq_false_iff] at hrows
    apply hreach
    rw [Config.Reaches, Command.isRankCMD, hrows.1]
    exact he.symm

end ChannelState

namespace Controller

variable {config : Config} {s s' : Controller config} {cmd : Command}

/-! ## What is counted -/

/-- The counters of row hits. -/
def rowHitCounters : List Counter :=
  [.numReadRowHits, .numWriteRowHits, .numLhReadRowHits, .numGhReadRowHits, .numPimWriteRowHits]

/-- The total of the row hits. -/
def rowHits (s : Controller config) : Nat := (rowHitCounters.map s.simpleStats).sum

/-- The column commands that have been issued. -/
def columnCommands (s : Controller config) : Nat :=
  s.issuedCommands.countP fun e => e.2.cmdType.isColumn

/-- The row openings that were followed by a column command to the bank before it closed. -/
def servedOpenings (s : Controller config) : Nat :=
  Episodes.served (fun e => e.2.bankIndex) (fun e => e.2.cmdType.isActivate)
    (fun e => e.2.cmdType.isColumn) (fun e => e.2.cmdType.closesRow) s.issuedCommands

/-- The row openings of a bank that nothing has followed so far. -/
def pendingOpenings (s : Controller config) (ix : BankIndex) : Nat :=
  Episodes.pending (fun e => e.2.bankIndex) (fun e => e.2.cmdType.isActivate)
    (fun e => e.2.cmdType.isColumn) (fun e => e.2.cmdType.closesRow) ix s.issuedCommands

/-! ## Where the counters change -/

/-- A command is counted as a hit if it is a column command of a bank that has served another. -/
theorem issueCommand_rowHits (h : s.issueCommand cmd = .ok s') :
    s'.rowHits = s.rowHits +
      if cmd.cmdType.isColumn ∧ (s.channelState.bankStates cmd.bankIndex).rowHitCount ≠ 0 then 1
      else 0 := by
  obtain ⟨s₁, hpend, h⟩ := Library.bind_eq_ok.mp h
  obtain ⟨channel, -, h⟩ := Library.bind_eq_ok.mp h
  cases h
  have hsame : s₁.simpleStats = s.simpleStats ∧ s₁.channelState = s.channelState := by
    rcases completePending_cases hpend with ⟨_, rfl⟩ | ⟨_, _, _, rfl⟩ | ⟨_, _, rfl⟩ <;>
      exact ⟨rfl, rfl⟩
  simp only [rowHits, updateCommandStats, hsame.1, hsame.2]
  generalize hhit : (s.channelState.bankStates cmd.bankIndex).rowHitCount = n
  by_cases hn : n = 0 <;> cases cmd.cmdType <;>
    simp [hn, commandCounters, bump, rowHitCounters, CommandType.isColumn,
      CommandType.isReadWrite, CommandType.isRead, CommandType.isWrite, CommandType.isPimColumn] <;>
    omega

/-- The commands, the rows and their hits are the same. -/
structure SameRows (s s' : Controller config) : Prop where
  hits : s'.rowHits = s.rowHits
  banks : s'.channelState.bankStates = s.channelState.bankStates
  issued : s'.issuedCommands = s.issuedCommands

theorem SameRows.of_same (hs : SameCommands s s') (hstats : s'.simpleStats = s.simpleStats) :
    SameRows s s' :=
  ⟨by rw [rowHits, hstats, rowHits], hs.banks.bankStates, hs.issued⟩

theorem SameRows.increment (s : Controller config) (counter : Counter)
    (h : counter ∉ rowHitCounters) : SameRows s (s.increment counter) := by
  refine ⟨?_, rfl, rfl⟩
  have hmap : rowHitCounters.map (bump s.simpleStats counter) =
      rowHitCounters.map s.simpleStats := by
    refine List.map_congr_left fun c hc => ?_
    rw [bump, Function.update_of_ne]
    rintro rfl
    exact h hc
  rw [rowHits, Controller.increment, hmap, rowHits]

theorem SameRows.of_bookkeeping (h : Bookkeeping s s') : SameRows s s' := by
  refine ⟨?_, by rw [h.channelState], h.issued⟩
  have hmap : rowHitCounters.map s'.simpleStats = rowHitCounters.map s.simpleStats := by
    refine List.map_congr_left fun c hc => h.stats c ?_
    rintro rfl
    exact absurd hc (by decide)
  rw [rowHits, hmap, rowHits]

/-- What an invariant of the rows and their hits needs. -/
structure Keeps (Inv : Controller config → Prop) : Prop where
  same : ∀ {s s'}, Inv s → SameRows s s' → Inv s'
  issue : ∀ {s cmd s'}, Inv s → s.issueCommand cmd = .ok s' → Inv s'

namespace Keeps

variable {Inv : Controller config → Prop} (hk : Keeps Inv)

include hk

theorem passes : Passes Inv :=
  ⟨fun hs hbook => hk.same hs (.of_bookkeeping hbook), hk.issue⟩

theorem clockTick (h : s.clockTick = .ok s') (hs : Inv s) : Inv s' := by
  obtain ⟨s₁, issued, s₂, s₃, htick, hissue, hsleep, rfl⟩ := clockTick_parts h
  have hrefresh := s.tickRefresh_ensures.of_ok htick
  have hs₁ : Inv s₁ := by
    obtain ⟨⟨refresh, channel⟩, -, htick⟩ := Library.bind_eq_ok.mp htick
    cases htick
    exact hk.same hs (.of_same hrefresh.sameCommands rfl)
  have hs₂ : Inv s₂.updateIdleCycles :=
    hk.same (hk.passes.issueCommands (fun _ _ hs => hk.same hs ⟨rfl, rfl, rfl⟩) hissue hs₁)
      ⟨rfl, rfl, rfl⟩
  have hs₃ : Inv s₃ := by
    rcases hsleep with rfl | ⟨-, -, hsleep⟩
    · exact hs₂
    · rcases updateSelfRefresh_cases _ hsleep with rfl | ⟨_, _, cmd, _, _, hcmd⟩
      · exact hs₂
      · exact hk.issue hs₂ hcmd
  have hs₄ := hk.same hs₃ (.of_bookkeeping (scheduleTransaction_bookkeeping s₃))
  exact hk.same hs₄ ⟨rfl, rfl, rfl⟩

theorem operation {op : Op} (h : (controllerSystem config).step s op s') (hs : Inv s) : Inv s' := by
  cases op with
  | add it =>
      obtain ⟨-, rfl⟩ := h
      refine hk.same hs (.of_same (.addTransaction s it) ?_)
      rcases s.addTransaction_cases it with ⟨-, -, he⟩ | ⟨-, he⟩ | ⟨-, -, -, he⟩ | ⟨-, -, -, he⟩ <;>
        rw [he]
      · rw [enqueue_eq]
        rfl
      · rfl
      · rw [enqueue_eq]
        rfl
      · rfl
  | tick => exact hk.clockTick h hs
  | done clk =>
      cases h
      rcases s.returnDoneTrans_cases clk with he | ⟨before, it, after, -, he⟩ <;> rw [he]
      · exact hs
      · have hdone := hk.same hs
          (.increment s (if it.isWrite then .numWritesDone else .numReadsDone)
            (by cases it.isWrite <;> decide))
        exact hk.same hdone ⟨rfl, rfl, by simp [issuedCommands, record, Event.command?]⟩
  | pushRdW | pushRdIn | pushWr =>
      obtain ⟨-, rfl⟩ := h
      exact hk.same hs ⟨rfl, rfl, rfl⟩
  | setInPim | setWrMultitenant =>
      cases h
      exact hk.same hs ⟨rfl, rfl, rfl⟩

end Keeps

/-! ## The balance -/

/-- Column commands that are no hits are matched by openings, and an open bank whose row has not
been hit is the one that an opening is pending for. -/
structure Balanced (s : Controller config) : Prop where
  hits : s.rowHits + s.servedOpenings = s.columnCommands
  fresh : ∀ ix, (s.channelState.bankStates ix).state = .opened →
    s.pendingOpenings ix = if (s.channelState.bankStates ix).rowHitCount = 0 then 1 else 0
  shut : ∀ ix, (s.channelState.bankStates ix).state ≠ .opened →
    s.pendingOpenings ix = 0 ∧ (s.channelState.bankStates ix).rowHitCount = 0

theorem isColumn_of_keepsRow {ty : CommandType} (h : ty.keepsRow = true) :
    ty.isColumn = true ∧ ty.closesRow = false ∧ ty.isActivate = false := by
  cases ty <;> first | exact ⟨rfl, rfl, rfl⟩ | cases h

theorem isColumn_of_isActivate {ty : CommandType} (h : ty.isActivate = true) :
    ty.isColumn = false := by
  cases ty <;> first | rfl | cases h

/-- What a command adds to the counts of a bank. -/
theorem pendingOpenings_issued (h : Issued s cmd s') (ix : BankIndex) :
    s'.pendingOpenings ix =
      (if cmd.bankIndex = ix ∧ (cmd.cmdType.isColumn = true ∨ cmd.cmdType.closesRow = true) then 0
        else s.pendingOpenings ix) +
        if cmd.cmdType.isActivate = true ∧ cmd.bankIndex = ix then 1 else 0 := by
  rw [pendingOpenings, h.issuedCommands, Library.Episodes.pending_append, pendingOpenings]

theorem servedOpenings_issued (h : Issued s cmd s') :
    s'.servedOpenings =
      s.servedOpenings + if cmd.cmdType.isColumn then s.pendingOpenings cmd.bankIndex else 0 := by
  rw [servedOpenings, h.issuedCommands, Library.Episodes.served_append, servedOpenings,
    pendingOpenings]

theorem columnCommands_issued (h : Issued s cmd s') :
    s'.columnCommands = s.columnCommands + if cmd.cmdType.isColumn then 1 else 0 := by
  rw [columnCommands, h.issuedCommands, List.countP_append, List.countP_singleton, columnCommands]

theorem Balanced.issue (hb : s.Balanced) (h : s.issueCommand cmd = .ok s') : s'.Balanced := by
  have hissued := issueCommand_spec h
  have hrow := ChannelState.rowStep hissued.channel
  refine ⟨?_, fun ix hopen => ?_, fun ix hshut => ?_⟩
  · rw [issueCommand_rowHits h, servedOpenings_issued hissued, columnCommands_issued hissued,
      ← hb.hits]
    cases hcol : cmd.cmdType.isColumn with
    | false => simp
    | true =>
        -- a column command finds its bank open, and is a hit unless an opening is pending for it
        have hopen : (s.channelState.bankStates cmd.bankIndex).state = .opened := by
          cases hrow cmd.bankIndex with
          | opens hty => rw [isColumn_of_isActivate hty] at hcol; cases hcol
          | serves _ _ hs => exact hs
          | closes _ _ hs => exact hs
          | other hty =>
              rw [(CommandType.of_leavesRows (hty rfl)).1] at hcol
              cases hcol
        rw [hb.fresh _ hopen]
        by_cases hzero : (s.channelState.bankStates cmd.bankIndex).rowHitCount = 0 <;>
          simp [hzero] <;> omega
  · rw [pendingOpenings_issued hissued]
    cases hrow ix with
    | opens hty hix hs hs' hhits =>
        have hnone := hb.shut ix (by simp [hs])
        simp [hty, hix, isColumn_of_isActivate hty, CommandType.closesRow_of_isActivate hty,
          hnone.1, hhits, hnone.2]
    | serves hty hix hs hs' hhits =>
        obtain ⟨hcol, -, hact⟩ := isColumn_of_keepsRow hty
        simp [hix, hcol, hact, hhits]
    | closes _ _ _ hs' =>
        rw [hs'] at hopen
        cases hopen
    | other hty hiff hhits =>
        have hsame := hb.fresh ix (hiff.mp hopen)
        by_cases hix : cmd.bankIndex = ix
        · obtain ⟨hcol, hclose, hact⟩ := CommandType.of_leavesRows (hty hix)
          simp [hcol, hclose, hact, hsame, hhits]
        · simp [hix, hsame, hhits]
  · rw [pendingOpenings_issued hissued]
    cases hrow ix with
    | opens _ _ _ hs' => exact absurd hs' hshut
    | serves _ _ _ hs' => exact absurd hs' hshut
    | closes hty hix hs hs' hhits =>
        have hact : cmd.cmdType.isActivate = false := by
          rw [Bool.eq_false_iff]
          intro hact
          rw [CommandType.closesRow_of_isActivate hact] at hty
          cases hty
        simp [hix, hty, hact, hhits]
    | other hty hiff hhits =>
        have hsame := hb.shut ix (fun hopen => hshut (hiff.mpr hopen))
        by_cases hix : cmd.bankIndex = ix
        · obtain ⟨hcol, hclose, hact⟩ := CommandType.of_leavesRows (hty hix)
          simp [hcol, hclose, hact, hsame, hhits]
        · simp [hix, hsame, hhits]

theorem Balanced.keeps : Keeps (Balanced : Controller config → Prop) where
  same := by
    intro s s' hb h
    refine ⟨?_, ?_, ?_⟩
    · rw [h.hits, servedOpenings, columnCommands, h.issued]
      exact hb.hits
    · rw [h.banks]
      simp only [pendingOpenings, h.issued]
      exact hb.fresh
    · rw [h.banks]
      simp only [pendingOpenings, h.issued]
      exact hb.shut
  issue := fun hb h => hb.issue h

theorem Balanced.init : Balanced ({} : Controller config) :=
  ⟨rfl, fun _ hopen => (by cases hopen), fun _ _ => ⟨rfl, rfl⟩⟩

/-- The row hits are the column commands without one for each row that was opened and served. -/
theorem row_hits_balance {ops : List Op} (h : (controllerSystem config).Run ops s) :
    (s.rowHits : Int) = s.columnCommands - s.servedOpenings := by
  have hb : s.Balanced :=
    h.invariant Balanced Balanced.init fun _ _ _ hb hstep => Balanced.keeps.operation hstep hb
  have hsum := hb.hits
  omega

/-- A device with short bursts whose rows are open after one cycle. -/
def quickRows : Config :=
  { Config.shortBurst with tRCD := 1, tCCD_S := 1, tCCD_L := 1, CL := 1, CWL := 1 }

/-- Two reads of a row, and two column commands of a PIM kernel to another bank. -/
def mixedOps : List Op :=
  let pim (ty : CommandType) : Op :=
    .pushRdW ⟨ty, { channel := 0, rank := 0, bankgroup := 0, bank := 1, row := 3, column := 0 }, 0⟩
  [.add ⟨0, false, 0, 0⟩, .add ⟨64, false, 0, 0⟩] ++ List.replicate 5 .tick ++
    [pim .pimActivate, pim .ghRead, pim .ghReadPrecharge] ++ List.replicate 5 .tick

theorem row_hits_balance_mixed : ∃ s : Controller quickRows,
    (controllerSystem quickRows).Run mixedOps s ∧ s.columnCommands = 4 ∧ s.servedOpenings = 2 ∧
      s.rowHits = 2 := by
  have hsome : (replay quickRows mixedOps).any
      (fun s => s.columnCommands = 4 ∧ s.servedOpenings = 2) = true := by
    decide +kernel
  obtain ⟨s, hs, hcounts⟩ := (Option.any_eq_true _ _).mp hsome
  have hrun : (controllerSystem quickRows).Run mixedOps s :=
    (run_of_replay (fun _ => True) hs fun _ _ => trivial).of_restrict
  obtain ⟨hcolumns, hserved⟩ := of_decide_eq_true hcounts
  have hbalance := row_hits_balance hrun
  rw [hcolumns, hserved] at hbalance
  exact ⟨s, hrun, hcolumns, hserved, by omega⟩

end Controller

end Dramsim
