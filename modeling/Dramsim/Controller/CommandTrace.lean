import Dramsim.Controller.Runs
import Dramsim.Model.CommandTrace

/-!
# Replaying command traces

Every line of a command trace is parsed (`parseLine_traceLine`).  The clock and the first four
fields of the address come back as they have been printed.  Of a row or column the parser sees
the zero of `0x`, and of the PIM commands it does not know the names, which gives `READ`.

So a command comes back if its type is one of the ten that the parser knows and its row and column
are zero.  The commands of refreshes have channel `-1`, which is no index of the statistics
(`command_trace_replayable`).
-/

namespace Dramsim

open Library.Fields
open Library.Numerals

/-! ## Fields -/

theorem isField_of_forall {field : List Char} (hne : field ≠ [])
    (hfield : ∀ c ∈ field, digitValue c < 16 ∨ c = '-' ∨ c = 'x') : IsField field := by
  refine ⟨hne, fun hblank => ?_⟩
  have hno : ¬ (digitValue ' ' < 16 ∨ ' ' = '-' ∨ ' ' = 'x') := by decide
  exact hno (hfield ' ' hblank)

theorem digitValue_of_mem_toDigits {base : Nat} (hbase : 1 < base) (hbase' : base ≤ 16) (n : Nat) :
    ∀ c ∈ base.toDigits n, digitValue c < 16 := by
  intro c hc
  have hdigit := of_decide_eq_true (isDigit_of_mem_toDigits hbase hbase' n c hc)
  omega

theorem isField_toDigits (n : Nat) : IsField (Nat.toDigits 10 n) :=
  isField_of_forall Nat.toDigits_ne_nil fun c hc =>
    .inl (digitValue_of_mem_toDigits (by decide) (by decide) n c hc)

theorem isField_formatInt (i : Int) : IsField (formatInt i) := by
  refine isField_of_forall ?_ fun c hc => ?_
  · simp [formatInt, Nat.toDigits_ne_nil]
  · rcases List.mem_append.mp hc with hsign | hdigit
    · split at hsign
      · exact .inr (.inl (List.mem_singleton.mp hsign))
      · exact absurd hsign List.not_mem_nil
    · exact .inl (digitValue_of_mem_toDigits (by decide) (by decide) _ c hdigit)

theorem isField_formatHex (i : Int) : IsField (formatHex i) := by
  refine isField_of_forall ?_ fun c hc => ?_
  · simp [formatHex]
  · rcases List.mem_append.mp hc with hsign | hdigit
    · split at hsign
      · exact .inr (.inl (List.mem_singleton.mp hsign))
      · exact absurd hsign List.not_mem_nil
    · rcases List.mem_cons.mp hdigit with rfl | hdigit
      · exact .inl (by decide)
      · rcases List.mem_cons.mp hdigit with rfl | hdigit
        · exact .inr (.inr rfl)
        · exact .inl (digitValue_of_mem_toDigits (by decide) (by decide) _ c hdigit)

theorem isField_text (ty : CommandType) : IsField ty.text := by
  cases ty <;> exact ⟨List.cons_ne_nil _ _, by decide⟩

theorem fields_traceLine (clk : Nat) (cmd : Command) : fields (traceLine clk cmd) =
    [Nat.toDigits 10 clk, cmd.cmdType.text, formatInt cmd.addr.channel, formatInt cmd.addr.rank,
      formatInt cmd.addr.bankgroup, formatInt cmd.addr.bank, formatHex cmd.addr.row,
      formatHex cmd.addr.column] := by
  unfold traceLine Command.text
  rw [fields_padRight_append (isField_toDigits clk), fields_padRight_append (isField_text _),
    fields_padLeft_append (isField_formatInt _), fields_padLeft_append (isField_formatInt _),
    fields_padLeft_append (isField_formatInt _), fields_padLeft_append (isField_formatInt _),
    fields_padLeft_append (isField_formatHex _), fields_padLeft (isField_formatHex _)]

/-! ## Numbers -/

theorem ends_nil (base : Nat) : Ends base [] := fun _ hc => absurd hc nofun

section

variable (n : Nat)

theorem isDigit_toDigits : ∀ c ∈ Nat.toDigits 10 n, isDigit 10 c = true :=
  isDigit_of_mem_toDigits (by decide) (by decide) n

theorem scan_toDigits :
    scan 10 ((Nat.toDigits 10 n).dropWhile Library.InputStream.isSpace) =
      (false, Nat.toDigits 10 n, []) :=
  Library.InputStream.scan_digits (by decide) (isDigit_toDigits n) Nat.toDigits_ne_nil

theorem scan_neg_toDigits :
    scan 10 (('-' :: Nat.toDigits 10 n).dropWhile Library.InputStream.isSpace) =
      (true, Nat.toDigits 10 n, []) := by
  have hscan := scan_neg_append (by decide) (isDigit_toDigits n) (ends_nil 10)
  rw [List.append_nil] at hscan
  rw [List.dropWhile_cons_of_neg (by decide), hscan]

theorem stoull_toDigits (h : n < 2 ^ 64) : stoull (Nat.toDigits 10 n) = .ok n := by
  unfold stoull
  rw [scan_toDigits]
  dsimp only
  rw [value_toDigits (by decide) (by decide), if_neg Nat.toDigits_ne_nil, if_neg (Nat.not_le.mpr h)]
  rfl

end

theorem stoi_formatInt {i : Int} (hlow : -2 ^ 31 ≤ i) (hhigh : i < 2 ^ 31) :
    stoi (formatInt i) = .ok i := by
  unfold stoi formatInt
  by_cases hneg : i < 0
  · rw [if_pos hneg, List.singleton_append, scan_neg_toDigits]
    dsimp only
    rw [value_toDigits (by decide) (by decide), if_neg Nat.toDigits_ne_nil, if_pos rfl,
      if_neg (by omega)]
    exact congrArg Except.ok (by omega)
  · rw [if_neg hneg, List.nil_append, scan_toDigits]
    dsimp only
    rw [value_toDigits (by decide) (by decide), if_neg Nat.toDigits_ne_nil,
      if_neg Bool.false_ne_true, if_neg (by omega)]
    exact congrArg Except.ok (by omega)

/-- Of a number with `0x` only the zero is read. -/
theorem stoi_formatHex (i : Int) : stoi (formatHex i) = .ok 0 := by
  unfold formatHex
  split <;> rfl

/-! ## Lines -/

/-- The fields of an address are numbers of 32 bits. -/
structure Address.IsInt (addr : Address) : Prop where
  channel : -2 ^ 31 ≤ addr.channel ∧ addr.channel < 2 ^ 31
  rank : -2 ^ 31 ≤ addr.rank ∧ addr.rank < 2 ^ 31
  bankgroup : -2 ^ 31 ≤ addr.bankgroup ∧ addr.bankgroup < 2 ^ 31
  bank : -2 ^ 31 ≤ addr.bank ∧ addr.bank < 2 ^ 31

theorem Address.zero_eq_self (addr : Address) : { addr with row := 0, column := 0 } = addr ↔
    addr.row = 0 ∧ addr.column = 0 := by
  cases addr
  simp [eq_comm]

/-- What is parsed from the line of a command. -/
theorem parseLine_traceLine {clk : Nat} {cmd : Command} (hclk : clk < 2 ^ 64)
    (haddr : cmd.addr.IsInt) : parseLine (traceLine clk cmd) =
      .ok (clk, commandTypeOf cmd.cmdType.text, { cmd.addr with row := 0, column := 0 }) := by
  unfold parseLine
  rw [fields_traceLine]
  dsimp only
  rw [stoull_toDigits clk hclk, stoi_formatInt haddr.channel.1 haddr.channel.2,
    stoi_formatInt haddr.rank.1 haddr.rank.2, stoi_formatInt haddr.bankgroup.1 haddr.bankgroup.2,
    stoi_formatInt haddr.bank.1 haddr.bank.2, stoi_formatHex, stoi_formatHex]
  rfl

/-- The types that the parser knows. -/
def replayableTypes : List CommandType := cmdMap.map Prod.snd

theorem commandTypeOf_text (ty : CommandType) :
    commandTypeOf ty.text = ty ↔ ty ∈ replayableTypes := by
  cases ty <;> decide

/-- The line of a command is always parsed.  It gives the clock and the command back, with a channel
of the device, if and only if the parser knows the type, the row and the column are zero and the
channel is one of the device. -/
theorem command_trace_replayable (config : Config) {clk : Nat} {cmd : Command}
    (hclk : clk < 2 ^ 64) (haddr : cmd.addr.IsInt) : ∃ clk' ty addr,
      parseLine (traceLine clk cmd) = .ok (clk', ty, addr) ∧
      (clk' = clk ∧ ty = cmd.cmdType ∧ addr = cmd.addr ∧
          0 ≤ addr.channel ∧ addr.channel < config.channels ↔
        cmd.cmdType ∈ replayableTypes ∧ cmd.addr.row = 0 ∧ cmd.addr.column = 0 ∧
          0 ≤ cmd.addr.channel ∧ cmd.addr.channel < config.channels) := by
  refine ⟨_, _, _, parseLine_traceLine hclk haddr, ?_⟩
  rw [commandTypeOf_text, Address.zero_eq_self]
  tauto

/-- An activate of row zero. -/
theorem command_trace_replayable_activate : ∃ clk' ty addr,
    parseLine (traceLine 24 ⟨.activate, ⟨0, 0, 0, 0, 0, 0⟩, 0⟩) = .ok (clk', ty, addr) ∧
      clk' = 24 ∧ ty = .activate ∧ addr = ⟨0, 0, 0, 0, 0, 0⟩ ∧ 0 ≤ addr.channel ∧
      addr.channel < Config.defaults.channels := by
  obtain ⟨clk', ty, addr, hparse, hiff⟩ := command_trace_replayable .defaults
    (show 24 < 2 ^ 64 by decide)
    (show (Command.mk .activate ⟨0, 0, 0, 0, 0, 0⟩ 0).addr.IsInt from
      ⟨by decide, by decide, by decide, by decide⟩)
  exact ⟨clk', ty, addr, hparse, hiff.mpr (by decide)⟩

/-- A read of row one makes the controller issue an activate, which is parsed as one of row zero. -/
theorem command_trace_row_lost : ∃ s : Controller .defaults, ∃ ops clk cmd waiting,
    (ordinarySystem .defaults).Run ops s ∧ .issued clk cmd waiting ∈ s.log ∧
    cmd.cmdType = .activate ∧ cmd.addr = ⟨0, 0, 0, 0, 1, 0⟩ ∧
    parseLine (traceLine clk cmd) = .ok (clk, .activate, ⟨0, 0, 0, 0, 0, 0⟩) := by
  have hsome : (Controller.replay .defaults [.add ⟨32768, false, 0, 0⟩, .tick, .tick]).map (·.log) =
      some [.accepted ⟨32768, false, 0, 0⟩ false,
        .issued 1 ⟨.activate, ⟨0, 0, 0, 0, 1, 0⟩, 32768⟩ [⟨32768, false, 0, 0⟩]] := by
    decide +kernel
  obtain ⟨s, hs, hlog⟩ := Option.map_eq_some_iff.mp hsome
  refine ⟨s, _, 1, ⟨.activate, ⟨0, 0, 0, 0, 1, 0⟩, 32768⟩, [⟨32768, false, 0, 0⟩],
    Controller.ordinary_of_replay hs (by decide), ?_, rfl, rfl, by decide +kernel⟩
  rw [hlog]
  exact List.mem_cons_of_mem _ (List.mem_cons_self ..)

end Dramsim
