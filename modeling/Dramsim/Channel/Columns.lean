import Dramsim.Channel.Runs

/-!
# Column commands

The sixteen gaps between two column commands of a channel, by the position of the
second bank and by the kinds of the two commands.
-/

namespace Dramsim

variable {config : Config} {cmd : Command}

open Timing in
/-- The gap that the tables ask for between two column commands. -/
def Config.columnGap (config : Config) : Position → Bool → Bool → Int
  | .sameBank, false, false => readToReadL config
  | .sameBank, false, true => readToWrite config
  | .sameBank, true, false => writeToReadL config
  | .sameBank, true, true => writeToWriteL config
  | .otherBankSameBankgroup, false, false => readToReadL config
  | .otherBankSameBankgroup, false, true => readToWrite config
  | .otherBankSameBankgroup, true, false => writeToReadL config
  | .otherBankSameBankgroup, true, true => writeToWriteL config
  | .otherBankgroupSameRank, false, false => readToReadS config
  | .otherBankgroupSameRank, false, true => readToWrite config
  | .otherBankgroupSameRank, true, false => writeToReadS config
  | .otherBankgroupSameRank, true, true => writeToWriteS config
  | .otherRank, false, false => readToReadO config
  | .otherRank, false, true => readToWriteO config
  | .otherRank, true, false => writeToReadO config
  | .otherRank, true, true => writeToWriteO config

theorem Timing.columnRow_mem {ty : CommandType} (hty : ty.isReadWrite = true)
    (toRead toWrite : Int) :
    (ty, if ty.isWrite then toWrite else toRead) ∈ columnRow toRead toWrite := by
  cases ty <;> simp [CommandType.isReadWrite, CommandType.isRead, CommandType.isWrite] at hty <;>
    simp [columnRow, CommandType.isWrite]

/-- The tables hold these gaps.  A bank that is closed by an auto-precharge takes an
activate next, and has no entry for a column command. -/
theorem Config.columnGap_mem (config : Config) {ty ty' : CommandType}
    (hty : ty.isReadWrite = true) (hty' : ty'.isReadWrite = true) {p : Position}
    (hp : p = .sameBank → ty.keepsRow = true) :
    (ty', config.columnGap p ty.isWrite ty'.isWrite) ∈
      (Timing.ofConfig config).atPosition p ty := by
  have hgap : ∀ isWrite, config.columnGap p isWrite ty'.isWrite =
      if ty'.isWrite then config.columnGap p isWrite true
      else config.columnGap p isWrite false := by
    intro isWrite
    cases ty'.isWrite <;> rfl
  have hmem := Timing.columnRow_mem hty' (config.columnGap p ty.isWrite false)
    (config.columnGap p ty.isWrite true)
  rw [hgap]
  cases p with
  | sameBank =>
      have hkeep := hp rfl
      cases ty <;> simp [CommandType.isReadWrite, CommandType.isRead, CommandType.isWrite,
        CommandType.keepsRow] at hty hkeep
      · exact List.mem_append_left _ hmem
      · exact List.mem_append_left _ hmem
  | otherBankSameBankgroup | otherBankgroupSameRank | otherRank =>
      cases ty <;>
        simp [CommandType.isReadWrite, CommandType.isRead, CommandType.isWrite] at hty <;>
        exact hmem

theorem Command.position_bankIndex (cmd : Command) :
    cmd.addr.position cmd.bankIndex = .sameBank :=
  Address.position_eq_sameBank.mpr rfl

theorem Config.reaches_bankIndex (h : cmd.isRankCMD = false) :
    config.Reaches cmd cmd.bankIndex := by
  rw [Config.Reaches, h]
  rfl

theorem governing_column {timing : Timing} (h : cmd.isReadWrite = true) (ix : BankIndex) :
    timing.governing cmd ix = timing.atPosition (cmd.addr.position ix) cmd.cmdType := by
  rw [Timing.governing, Command.isRankCMD, CommandType.isRankCMD_of_isReadWrite h,
    CommandType.isPimColumn_of_isReadWrite h]
  rfl

/-- The gap between two column commands is in the row that governs the second. -/
theorem Config.columnGap_mem_governing (config : Config) {cmd' : Command}
    (hcol : cmd.isReadWrite = true) (hcol' : cmd'.isReadWrite = true)
    (hkeep : cmd'.bankIndex = cmd.bankIndex → cmd.cmdType.keepsRow = true) :
    (cmd'.cmdType, config.columnGap (cmd.addr.position cmd'.bankIndex) cmd.isWrite cmd'.isWrite) ∈
      (Timing.ofConfig config).governing cmd cmd'.bankIndex := by
  rw [governing_column hcol]
  exact config.columnGap_mem hcol hcol' fun hsame =>
    hkeep (Address.position_eq_sameBank.mp hsame)

/-- A column command with auto-precharge closes its bank. -/
theorem ChannelState.closed_of_column {timing : Timing} {s s' : ChannelState} {clk : Nat}
    (h : s.updateTimingAndStates config timing cmd clk = .ok s') (hcol : cmd.isReadWrite = true)
    (hkeep : cmd.cmdType.keepsRow = false) (hbank : config.HasBank cmd.bankIndex) :
    (s'.bankStates cmd.bankIndex).state = .closed := by
  obtain ⟨s₁, hs₁, rfl⟩ := updateTimingAndStates_spec h
  rw [updateTiming_bankStates hbank, BankState.updateTimings_state]
  have hreach : config.Reaches cmd cmd.bankIndex :=
    Config.reaches_bankIndex (CommandType.isRankCMD_of_isReadWrite hcol)
  exact BankState.updateState_closesRow (hs₁.taken _ hreach)
    (CommandType.closesRow_of_isReadWrite hcol hkeep)

/-- The device has banks in this position to each other.  A bank itself takes a
second column command only where its row stays open. -/
def Config.HasPosition (config : Config) : Position → Prop
  | .sameBank => config.rowBufPolicy = .openPage
  | .otherBankSameBankgroup => 1 < config.banksPerGroup
  | .otherBankgroupSameRank => 1 < config.bankgroups
  | .otherRank => 1 < config.ranks

instance (config : Config) (p : Position) : Decidable (config.HasPosition p) :=
  match p with
  | .sameBank => inferInstanceAs (Decidable (config.rowBufPolicy = .openPage))
  | .otherBankSameBankgroup => inferInstanceAs (Decidable (1 < config.banksPerGroup))
  | .otherBankgroupSameRank => inferInstanceAs (Decidable (1 < config.bankgroups))
  | .otherRank => inferInstanceAs (Decidable (1 < config.ranks))

theorem Config.hasPosition_of_ne {addr : Address} {ix : BankIndex}
    (haddr : config.HasBank addr.bankIndex) (hix : config.HasBank ix) (hne : ix ≠ addr.bankIndex) :
    config.HasPosition (addr.position ix) := by
  obtain ⟨⟨_, _⟩, ⟨_, _⟩, _, _⟩ := haddr
  obtain ⟨⟨_, _⟩, ⟨_, _⟩, _, _⟩ := hix
  obtain ⟨r, j, k⟩ := ix
  simp only [Address.bankIndex_rank, Address.bankIndex_bankgroup, Address.bankIndex_bank,
    Address.position] at *
  by_cases hr : r = addr.rank
  · by_cases hj : j = addr.bankgroup
    · by_cases hk : k = addr.bank
      · exact absurd (by rw [hr, hj, hk]; rfl) hne
      · simp only [hr, hj, hk, ne_eq, not_true_eq_false, not_false_eq_true, if_false, if_true]
        show 1 < config.banksPerGroup
        omega
    · simp only [hr, hj, ne_eq, not_true_eq_false, not_false_eq_true, if_false, if_true]
      show 1 < config.bankgroups
      omega
  · simp only [hr, ne_eq, not_false_eq_true, if_true]
    show 1 < config.ranks
    omega

/-- All gaps between the column commands of the device are positive. -/
def Config.ColumnsSpaced (config : Config) : Prop :=
  ∀ p, config.HasPosition p → ∀ isWrite isWrite' : Bool, 0 < config.columnGap p isWrite isWrite'

end Dramsim
