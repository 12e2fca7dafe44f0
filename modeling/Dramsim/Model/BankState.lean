import Dramsim.Library.EarliestTime
import Dramsim.Library.Except
import Dramsim.Model.Timing

/-!
# State of one bank

`class BankState`: whether the row buffer is open, which row it holds, and for
every command type the earliest clock at which the bank takes it.

`getReadyCommand` answers a request with the command the bank needs next, if it
is due.  Two lemmas say all there is to know about it.  `getReadyCommand_eq_some`
reads off the clock test and `requiredType_cases` the state machine.
-/

namespace Dramsim

namespace BankState

/-- `BankState::State`.  No command leads to `pd`. -/
inductive State where
  | opened
  | closed
  | sref
  | pd
deriving DecidableEq, Repr

end BankState

/-- `class BankState`. -/
structure BankState where
  state : BankState.State := .closed
  cmdTiming : CommandType → Nat := fun _ => 0
  openRow : Int := -1
  rowHitCount : Nat := 0

namespace BankState

variable {b b' : BankState} {cmd : Command}

/-- `BankState::IsRowOpen`. -/
def isRowOpen (b : BankState) : Bool := b.state = .opened

/-! ## The command a request needs -/

/-- The command type a request needs next in the current state. -/
def requiredType (b : BankState) (cmd : Command) : Except Exit CommandType :=
  match b.state with
  | .closed =>
      match cmd.cmdType with
      | .read | .readPrecharge | .write | .writePrecharge => .ok .activate
      | .lhRead | .lhReadPrecharge | .ghRead | .ghReadPrecharge | .pimWrite
      | .pimWritePrecharge => .ok .pimActivate
      | .refresh | .refreshBank | .srefEnter => .ok cmd.cmdType
      | _ => .error .unknownType
  | .opened =>
      match cmd.cmdType with
      | .read | .readPrecharge | .write | .writePrecharge | .lhRead | .lhReadPrecharge
      | .ghRead | .ghReadPrecharge | .pimWrite | .pimWritePrecharge =>
          if cmd.addr.row = b.openRow then .ok cmd.cmdType else .ok .precharge
      | .refresh | .refreshBank | .srefEnter => .ok .precharge
      | _ => .error .unknownType
  | .sref =>
      match cmd.cmdType with
      | .read | .readPrecharge | .write | .writePrecharge | .lhRead | .lhReadPrecharge
      | .ghRead | .ghReadPrecharge | .pimWrite | .pimWritePrecharge => .ok .srefExit
      | _ => .error .unknownType
  | .pd => .error .unknownState

/-- `BankState::GetReadyCommand`. -/
def getReadyCommand (b : BankState) (cmd : Command) (clk : Nat) :
    Except Exit (Option Command) := do
  let required ← b.requiredType cmd
  if b.cmdTiming required ≤ clk then
    .ok (some ⟨required, cmd.addr, cmd.hexAddr⟩)
  else
    .ok none

theorem getReadyCommand_eq_some {ready : Command} {clk : Nat} :
    b.getReadyCommand cmd clk = .ok (some ready) ↔
      b.requiredType cmd = .ok ready.cmdType ∧ b.cmdTiming ready.cmdType ≤ clk ∧
        ready.addr = cmd.addr ∧ ready.hexAddr = cmd.hexAddr := by
  obtain ⟨ty, addr, hexAddr⟩ := ready
  rw [getReadyCommand, Library.bind_eq_ok]
  constructor
  · rintro ⟨required, hreq, hif⟩
    split at hif
    · rename_i hclk
      simp only [Except.ok.injEq, Option.some.injEq, Command.mk.injEq] at hif
      obtain ⟨rfl, rfl, rfl⟩ := hif
      exact ⟨hreq, hclk, rfl, rfl⟩
    · simp at hif
  · rintro ⟨hreq, hclk, rfl, rfl⟩
    exact ⟨ty, hreq, by rw [if_pos hclk]⟩

/-- The three states answer a request in seven ways. -/
theorem requiredType_cases {ty : CommandType} (h : b.requiredType cmd = .ok ty) :
    (b.state = .closed ∧
      ((cmd.isReadWrite = true ∧ ty = .activate) ∨
        (cmd.cmdType.isPimColumn = true ∧ ty = .pimActivate) ∨
        (cmd.cmdType.isMaintenance = true ∧ ty = cmd.cmdType))) ∨
    (b.state = .opened ∧
      ((cmd.cmdType.isColumn = true ∧ cmd.addr.row = b.openRow ∧ ty = cmd.cmdType) ∨
        (cmd.cmdType.isColumn = true ∧ cmd.addr.row ≠ b.openRow ∧ ty = .precharge) ∨
        (cmd.cmdType.isMaintenance = true ∧ ty = .precharge))) ∨
    (b.state = .sref ∧ cmd.cmdType.isColumn = true ∧ ty = .srefExit) := by
  unfold requiredType at h
  cases hs : b.state with
  | closed =>
      refine Or.inl ⟨rfl, ?_⟩
      rw [hs] at h
      cases hty : cmd.cmdType <;> rw [hty] at h <;> simp at h <;> subst h <;>
        simp [Command.isReadWrite, hty, CommandType.isReadWrite, CommandType.isRead,
          CommandType.isWrite, CommandType.isPimColumn, CommandType.isMaintenance]
  | opened =>
      refine Or.inr (Or.inl ⟨rfl, ?_⟩)
      rw [hs] at h
      by_cases hrow : cmd.addr.row = b.openRow <;>
        cases hty : cmd.cmdType <;> rw [hty] at h <;> simp [hrow] at h <;> subst h <;>
        simp [hrow, CommandType.isColumn, CommandType.isReadWrite, CommandType.isRead,
          CommandType.isWrite, CommandType.isPimColumn, CommandType.isMaintenance]
  | sref =>
      refine Or.inr (Or.inr ⟨rfl, ?_⟩)
      rw [hs] at h
      cases hty : cmd.cmdType <;> rw [hty] at h <;> simp at h <;> subst h <;>
        simp [CommandType.isColumn, CommandType.isReadWrite, CommandType.isRead,
          CommandType.isWrite, CommandType.isPimColumn]
  | pd =>
      rw [hs] at h
      cases h

/-- A bank in self refresh has to leave it before a column command. -/
theorem requiredType_of_sref (hs : b.state = .sref) (hcol : cmd.cmdType.isColumn = true) :
    b.requiredType cmd = .ok .srefExit := by
  unfold requiredType
  rw [hs]
  cases hty : cmd.cmdType <;> rw [hty] at hcol <;> first | rfl | cases hcol

/-- A request for a rank is answered by itself, or by `PRECHARGE` of an open
bank. -/
theorem requiredType_of_isRankCMD {ty : CommandType} (h : b.requiredType cmd = .ok ty)
    (hrank : cmd.isRankCMD = true) :
    (b.state = .closed ∧ ty = cmd.cmdType) ∨ (b.state = .opened ∧ ty = .precharge) := by
  have hcol := CommandType.isColumn_of_isRankCMD hrank
  rcases requiredType_cases h with ⟨hs, hc⟩ | ⟨hs, ho⟩ | ⟨_, hcol', _⟩
  · rcases hc with ⟨hrw, _⟩ | ⟨hpim, _⟩ | ⟨_, hty⟩
    · rw [CommandType.isColumn_of_isReadWrite hrw] at hcol
      cases hcol
    · rw [CommandType.isColumn_of_isPimColumn hpim] at hcol
      cases hcol
    · exact Or.inl ⟨hs, hty⟩
  · rcases ho with ⟨hcol', _, _⟩ | ⟨hcol', _, _⟩ | ⟨_, hty⟩
    · rw [hcol'] at hcol
      cases hcol
    · rw [hcol'] at hcol
      cases hcol
    · exact Or.inr ⟨hs, hty⟩
  · rw [hcol'] at hcol
    cases hcol

/-- A request for one bank is answered by a command of the whole rank only when
the bank has to leave self refresh. -/
theorem requiredType_isRankCMD {ty : CommandType} (h : b.requiredType cmd = .ok ty)
    (hcmd : cmd.isRankCMD = false) (hty : ty.isRankCMD = true) :
    b.state = .sref ∧ cmd.cmdType.isColumn = true ∧ ty = .srefExit := by
  rcases requiredType_cases h with ⟨_, hc⟩ | ⟨_, ho⟩ | hsref
  · rcases hc with ⟨_, rfl⟩ | ⟨_, rfl⟩ | ⟨_, rfl⟩
    · cases hty
    · cases hty
    · rw [Command.isRankCMD, hty] at hcmd
      cases hcmd
  · rcases ho with ⟨_, _, rfl⟩ | ⟨_, _, rfl⟩ | ⟨_, rfl⟩
    · rw [Command.isRankCMD, hty] at hcmd
      cases hcmd
    · cases hty
    · cases hty
  · exact hsref

/-! ## Updates -/

/-- `BankState::UpdateState`. -/
def updateState (b : BankState) (cmd : Command) : Except Exit BankState :=
  match b.state with
  | .opened =>
      match cmd.cmdType with
      | .read | .write | .lhRead | .ghRead | .pimWrite =>
          .ok { b with rowHitCount := b.rowHitCount + 1 }
      | .readPrecharge | .writePrecharge | .lhReadPrecharge | .ghReadPrecharge
      | .pimWritePrecharge | .precharge =>
          .ok { b with state := .closed, openRow := -1, rowHitCount := 0 }
      | _ => .error .illegalUpdate
  | .closed =>
      match cmd.cmdType with
      | .refresh | .refreshBank => .ok b
      | .activate | .pimActivate => .ok { b with state := .opened, openRow := cmd.addr.row }
      | .srefEnter => .ok { b with state := .sref }
      | _ => .error .illegalUpdate
  | .sref =>
      match cmd.cmdType with
      | .srefExit => .ok { b with state := .closed }
      | _ => .error .illegalUpdate
  | .pd => .error .illegalUpdate

/-- `BankState::UpdateTiming`. -/
def updateTiming (b : BankState) (ty : CommandType) (time : Nat) : BankState :=
  { b with cmdTiming := Library.raise b.cmdTiming ty time }

/-- One row of a timing table applied to a bank: the inner loop of the five
`Update..Timing` functions. -/
def updateTimings (b : BankState) (row : TimingList) (clk : Nat) : BankState :=
  row.foldl (fun b entry => b.updateTiming entry.1 (addClk clk entry.2)) b

/-! ## What updates leave alone -/

theorem updateTimings_eq (b : BankState) (row : TimingList) (clk : Nat) :
    b.updateTimings row clk =
      { b with
        cmdTiming :=
          Library.raiseAll b.cmdTiming (row.map fun entry => (entry.1, addClk clk entry.2)) } := by
  induction row generalizing b with
  | nil => rfl
  | cons entry row ih =>
      have hstep : b.updateTimings (entry :: row) clk =
          (b.updateTiming entry.1 (addClk clk entry.2)).updateTimings row clk := rfl
      rw [hstep, ih]
      rfl

@[simp] theorem updateTimings_state (b : BankState) (row : TimingList) (clk : Nat) :
    (b.updateTimings row clk).state = b.state := by
  rw [updateTimings_eq]

@[simp] theorem updateTimings_openRow (b : BankState) (row : TimingList) (clk : Nat) :
    (b.updateTimings row clk).openRow = b.openRow := by
  rw [updateTimings_eq]

@[simp] theorem updateTimings_rowHitCount (b : BankState) (row : TimingList) (clk : Nat) :
    (b.updateTimings row clk).rowHitCount = b.rowHitCount := by
  rw [updateTimings_eq]

/-- An entry after an update is the least bound of the old one and of the gaps
the row gives for its type. -/
theorem updateTimings_le_iff {row : TimingList} {clk bound : Nat} {ty : CommandType} :
    (b.updateTimings row clk).cmdTiming ty ≤ bound ↔
      b.cmdTiming ty ≤ bound ∧ ∀ d, (ty, d) ∈ row → addClk clk d ≤ bound := by
  rw [updateTimings_eq, Library.raiseAll_le_iff]
  simp only [List.mem_map, Prod.mk.injEq, Prod.exists]
  constructor
  · rintro ⟨hold, hrow⟩
    exact ⟨hold, fun d hd => hrow _ ⟨ty, d, hd, rfl, rfl⟩⟩
  · rintro ⟨hold, hrow⟩
    refine ⟨hold, ?_⟩
    rintro t ⟨ty', d, hd, rfl, rfl⟩
    exact hrow d hd

/-! ## The state machine -/

/-- A bank changes state in six ways. -/
theorem updateState_cases (h : b.updateState cmd = .ok b') :
    (b.state = .opened ∧
      ((cmd.cmdType.keepsRow = true ∧ b' = { b with rowHitCount := b.rowHitCount + 1 }) ∨
        (cmd.cmdType.closesRow = true ∧
          b' = { b with state := .closed, openRow := -1, rowHitCount := 0 }))) ∨
    (b.state = .closed ∧
      ((cmd.isRefresh = true ∧ b' = b) ∨
        (cmd.cmdType.isActivate = true ∧
          b' = { b with state := .opened, openRow := cmd.addr.row }) ∨
        (cmd.cmdType = .srefEnter ∧ b' = { b with state := .sref }))) ∨
    (b.state = .sref ∧ cmd.cmdType = .srefExit ∧ b' = { b with state := .closed }) := by
  unfold updateState at h
  cases hs : b.state with
  | opened =>
      refine Or.inl ⟨rfl, ?_⟩
      rw [hs] at h
      cases hty : cmd.cmdType <;> rw [hty] at h <;> cases h <;>
        simp [CommandType.keepsRow, CommandType.closesRow]
  | closed =>
      refine Or.inr (Or.inl ⟨rfl, ?_⟩)
      rw [hs] at h
      cases hty : cmd.cmdType <;> rw [hty] at h <;> cases h <;>
        simp [Command.isRefresh, hty, CommandType.isRefresh, CommandType.isActivate]
  | sref =>
      refine Or.inr (Or.inr ⟨rfl, ?_⟩)
      rw [hs] at h
      cases hty : cmd.cmdType <;> rw [hty] at h <;> cases h
      exact ⟨rfl, rfl⟩
  | pd =>
      rw [hs] at h
      cases h

/-- `PRECHARGE` and the column commands with auto-precharge close the bank. -/
theorem updateState_closesRow (h : b.updateState cmd = .ok b')
    (hcmd : cmd.cmdType.closesRow = true) : b'.state = .closed := by
  rcases updateState_cases h with ⟨_, hc⟩ | ⟨_, hc⟩ | ⟨_, hty, _⟩
  · rcases hc with ⟨hkeep, _⟩ | ⟨_, rfl⟩
    · cases hty : cmd.cmdType <;> rw [hty] at hcmd hkeep <;> simp [CommandType.closesRow,
        CommandType.keepsRow] at hcmd hkeep
    · rfl
  · rcases hc with ⟨hty, _⟩ | ⟨hty, _⟩ | ⟨hty, _⟩
    · cases he : cmd.cmdType <;> simp [Command.isRefresh, he, CommandType.closesRow,
        CommandType.isRefresh] at hcmd hty
    · cases he : cmd.cmdType <;> rw [he] at hcmd hty <;> simp [CommandType.closesRow,
        CommandType.isActivate] at hcmd hty
    · rw [hty] at hcmd
      cases hcmd
  · rw [hty] at hcmd
    cases hcmd

theorem updateState_error {e : Exit} (h : b.updateState cmd = .error e) : e = .illegalUpdate := by
  unfold updateState at h
  cases hs : b.state <;> rw [hs] at h
  case pd => exact (Except.error.inj h).symm
  all_goals
    cases hty : cmd.cmdType <;> rw [hty] at h <;>
      first | exact (Except.error.inj h).symm | cases h

/-- A state update keeps every timing entry. -/
theorem updateState_cmdTiming (h : b.updateState cmd = .ok b') : b'.cmdTiming = b.cmdTiming := by
  obtain ⟨_, ⟨_, rfl⟩ | ⟨_, rfl⟩⟩ | ⟨_, ⟨_, rfl⟩ | ⟨_, rfl⟩ | ⟨_, rfl⟩⟩ | ⟨_, _, rfl⟩ :=
    updateState_cases h <;> rfl

/-- A bank is in self refresh after a command exactly when the command put it
there. -/
theorem updateState_sref (h : b.updateState cmd = .ok b') :
    b'.state = .sref ↔ cmd.cmdType = .srefEnter := by
  rcases updateState_cases h with ⟨hs, hc⟩ | ⟨hs, hc⟩ | ⟨_, hty, rfl⟩
  · rcases hc with ⟨hty, rfl⟩ | ⟨hty, rfl⟩ <;>
      exact ⟨fun hb => by simp [hs] at hb, fun he => by rw [he] at hty; cases hty⟩
  · rcases hc with ⟨hty, rfl⟩ | ⟨hty, rfl⟩ | ⟨hty, rfl⟩
    · refine ⟨fun hb => by simp [hs] at hb, fun he => ?_⟩
      rw [Command.isRefresh, he] at hty
      cases hty
    · exact ⟨fun hb => by simp at hb, fun he => by rw [he] at hty; cases hty⟩
    · exact ⟨fun _ => hty, fun _ => rfl⟩
  · exact ⟨fun hb => by simp at hb, fun he => by rw [he] at hty; cases hty⟩

/-- A bank in self refresh only takes `SREF_EXIT`. -/
theorem updateState_of_sref (h : b.updateState cmd = .ok b') (hs : b.state = .sref) :
    cmd.cmdType = .srefExit := by
  rcases updateState_cases h with ⟨hs', _⟩ | ⟨hs', _⟩ | ⟨_, hty, _⟩
  · rw [hs] at hs'
    cases hs'
  · rw [hs] at hs'
    cases hs'
  · exact hty

/-- A bank takes every command it answers a request with.  Only the type of the
command matters. -/
theorem updateState_of_requiredType {ready : Command} (h : b.requiredType cmd = .ok ready.cmdType) :
    ∃ b', b.updateState ready = .ok b' := by
  unfold updateState
  rcases requiredType_cases h with ⟨hs, hc⟩ | ⟨hs, ho⟩ | ⟨hs, _, hty⟩
  · rw [hs]
    rcases hc with ⟨_, hty⟩ | ⟨_, hty⟩ | ⟨hm, hty⟩
    · exact ⟨_, by rw [hty]⟩
    · exact ⟨_, by rw [hty]⟩
    · rw [hty]
      cases hc : cmd.cmdType <;> rw [hc] at hm <;> first | exact ⟨_, rfl⟩ | cases hm
  · rw [hs]
    rcases ho with ⟨hcol, _, hty⟩ | ⟨_, _, hty⟩ | ⟨_, hty⟩
    · rw [hty]
      cases hc : cmd.cmdType <;> rw [hc] at hcol <;> first | exact ⟨_, rfl⟩ | cases hcol
    · exact ⟨_, by rw [hty]⟩
    · exact ⟨_, by rw [hty]⟩
  · exact ⟨_, by rw [hs, hty]⟩

end BankState

end Dramsim
