import Dramsim.Model.ChannelState

/-!
# What the operations of a channel do

One specification for each operation, so that later modules never unfold it.

* `updateTiming_bankStates`: a command raises the entries of each bank by one row
  of the tables, the row that `Timing.governing` selects by the position of the
  bank relative to the command.
* `StateUpdated`: the banks a command goes to take it, all others and the
  activation windows stay.
* `Answered`: a command that `getReadyCommand` returns is due in every bank that
  answered, and is either the request itself, taken by every bank of the rank, or
  the answer of a single bank.
-/

namespace Dramsim

variable {config : Config} {s s' : ChannelState} {cmd req : Command} {clk : Nat} {timing : Timing}
  {ix : BankIndex}

/-! ## Which table governs a bank -/

/-- Where a bank lies relative to the address of a command. -/
inductive Position where
  | sameBank
  | otherBankSameBankgroup
  | otherBankgroupSameRank
  | otherRank
deriving DecidableEq, Repr

/-- The position of a bank relative to an address. -/
def Address.position (addr : Address) (ix : BankIndex) : Position :=
  if ix.rank ≠ addr.rank then .otherRank
  else if ix.bankgroup ≠ addr.bankgroup then .otherBankgroupSameRank
  else if ix.bank ≠ addr.bank then .otherBankSameBankgroup
  else .sameBank

/-- The table for a position. -/
def Timing.atPosition (timing : Timing) : Position → CommandType → TimingList
  | .sameBank => timing.sameBank
  | .otherBankSameBankgroup => timing.otherBanksSameBankgroup
  | .otherBankgroupSameRank => timing.otherBankgroupsSameRank
  | .otherRank => timing.otherRanks

/-- The row of the tables that a command imposes on a bank: `same_rank` for a
command of the whole rank, only `same_bank` for a PIM column command, and the
table of the position otherwise. -/
def Timing.governing (timing : Timing) (cmd : Command) (ix : BankIndex) : TimingList :=
  if cmd.isRankCMD then
    if ix.rank = cmd.addr.rank then timing.sameRank cmd.cmdType else []
  else if cmd.cmdType.isPimColumn then
    if ix = cmd.bankIndex then timing.sameBank cmd.cmdType else []
  else timing.atPosition (cmd.addr.position ix) cmd.cmdType

theorem Address.position_eq_sameBank {addr : Address} :
    addr.position ix = .sameBank ↔ ix = addr.bankIndex := by
  obtain ⟨r, j, k⟩ := ix
  simp only [Address.position, Address.bankIndex, BankIndex.mk.injEq]
  by_cases hr : r = addr.rank <;> by_cases hj : j = addr.bankgroup <;>
    by_cases hk : k = addr.bank <;> simp [hr, hj, hk]

namespace ChannelState

/-! ## Timing updates -/

@[simp] theorem updateBankTimings_bankStates (s : ChannelState) (p : BankIndex → Bool)
    (row : TimingList) (clk : Nat) (ix : BankIndex) :
    (s.updateBankTimings p row clk).bankStates ix =
      if p ix then (s.bankStates ix).updateTimings row clk else s.bankStates ix := rfl

/-- Of the four updates exactly one reaches a bank, that of its position. -/
theorem updateChannelTiming_bankStates (hix : config.HasBank ix) :
    (updateChannelTiming config timing s cmd clk).bankStates ix =
      (s.bankStates ix).updateTimings
        (timing.atPosition (cmd.addr.position ix) cmd.cmdType) clk := by
  obtain ⟨r, j, k⟩ := ix
  have hmem : ∀ rank, (⟨r, j, k⟩ : BankIndex) ∈ config.rankBanks rank ↔ r = rank := by
    intro rank
    rw [Config.mem_rankBanks]
    exact ⟨fun h => h.1, fun h => ⟨h, hix.2⟩⟩
  have hk := hix.2.2
  simp only at hk
  simp only [updateChannelTiming, updateSameBankTiming, updateOtherBanksSameBankgroupTiming,
    updateOtherBankgroupsSameRankTiming, updateOtherRanksTiming, updateBankTimings_bankStates,
    Address.position, hmem, hix, Address.bankIndex, BankIndex.mk.injEq]
  by_cases hr : r = cmd.addr.rank <;> by_cases hj : j = cmd.addr.bankgroup <;>
    by_cases hb : k = cmd.addr.bank <;> simp [hr, hj, hb, hk.1, hk.2, Timing.atPosition]

/-- An activate only touches the windows of its rank. -/
theorem updateActivationTimes_frame (config : Config) (s : ChannelState) (rank : Int) (clk : Nat) :
    ∃ fourAw thirtyTwoAw, s.updateActivationTimes config rank clk =
      { s with fourAw := fourAw, thirtyTwoAw := thirtyTwoAw } := by
  unfold updateActivationTimes
  dsimp only
  split
  · exact ⟨_, _, rfl⟩
  · exact ⟨_, _, rfl⟩

theorem updateActivationTimes_bankStates (config : Config) (s : ChannelState) (rank : Int)
    (clk : Nat) : (s.updateActivationTimes config rank clk).bankStates = s.bankStates := by
  obtain ⟨_, _, hframe⟩ := s.updateActivationTimes_frame config rank clk
  rw [hframe]

theorem updateChannelTiming_frame (config : Config) (timing : Timing) (s : ChannelState)
    (cmd : Command) (clk : Nat) :
    ∃ bankStates, updateChannelTiming config timing s cmd clk =
      { s with bankStates := bankStates } := ⟨_, rfl⟩

/-- A command raises entries of banks, and an activate also moves the windows. -/
theorem updateTiming_frame (config : Config) (timing : Timing) (s : ChannelState) (cmd : Command)
    (clk : Nat) :
    ∃ bankStates, s.updateTiming config timing cmd clk =
      { (if cmd.cmdType.isActivate then s.updateActivationTimes config cmd.addr.rank clk
        else s) with bankStates := bankStates } := by
  unfold updateTiming
  cases cmd.cmdType with
  | activate | pimActivate => exact updateChannelTiming_frame config timing _ cmd clk
  | read | readPrecharge | write | writePrecharge | precharge | refreshBank =>
      exact updateChannelTiming_frame config timing s cmd clk
  | refresh | srefEnter | srefExit => exact ⟨_, rfl⟩
  | lhRead | lhReadPrecharge | ghRead | ghReadPrecharge | pimWrite | pimWritePrecharge =>
      exact ⟨_, rfl⟩

/-- The refresh requests and the ranks in self refresh stay as they are. -/
theorem updateTiming_rest (config : Config) (timing : Timing) (s : ChannelState) (cmd : Command)
    (clk : Nat) :
    (s.updateTiming config timing cmd clk).refreshQ = s.refreshQ ∧
      (s.updateTiming config timing cmd clk).rankIsSref = s.rankIsSref := by
  obtain ⟨bankStates, hframe⟩ := s.updateTiming_frame config timing cmd clk
  obtain ⟨fourAw, thirtyTwoAw, hact⟩ := s.updateActivationTimes_frame config cmd.addr.rank clk
  rw [hframe, hact]
  split
  · exact ⟨rfl, rfl⟩
  · exact ⟨rfl, rfl⟩

/-- A command raises the entries of a bank by the row that governs it. -/
theorem updateTiming_bankStates (hix : config.HasBank ix) :
    (s.updateTiming config timing cmd clk).bankStates ix =
      (s.bankStates ix).updateTimings (timing.governing cmd ix) clk := by
  obtain ⟨ty, addr, hexAddr⟩ := cmd
  have hact := updateActivationTimes_bankStates config s addr.rank clk
  have hmem : ix ∈ config.rankBanks addr.rank ↔ ix.rank = addr.rank := by
    rw [Config.mem_rankBanks]
    exact ⟨fun h => h.1, fun h => ⟨h, hix.2⟩⟩
  cases ty with
  | activate => exact hact ▸ updateChannelTiming_bankStates hix
  | pimActivate => exact hact ▸ updateChannelTiming_bankStates hix
  | read => exact updateChannelTiming_bankStates hix
  | readPrecharge => exact updateChannelTiming_bankStates hix
  | write => exact updateChannelTiming_bankStates hix
  | writePrecharge => exact updateChannelTiming_bankStates hix
  | precharge => exact updateChannelTiming_bankStates hix
  | refreshBank => exact updateChannelTiming_bankStates hix
  | refresh | srefEnter | srefExit =>
      by_cases h : ix.rank = addr.rank <;>
        simp [updateTiming, updateSameRankTiming, Timing.governing, Command.isRankCMD,
          CommandType.isRankCMD, hmem, h, BankState.updateTimings]
  | _ =>
      by_cases h : ix = addr.bankIndex <;>
        simp [updateTiming, updateSameBankTiming, Timing.governing, Command.isRankCMD,
          CommandType.isRankCMD, CommandType.isPimColumn, Command.bankIndex, h,
          BankState.updateTimings]

/-- Timing updates keep of a bank, existing or not, what the raising of entries keeps. -/
theorem updateTiming_keeps {α : Type} {get : BankState → α}
    (hget : ∀ b row clk, get (b.updateTimings row clk) = get b) (config : Config) (timing : Timing)
    (s : ChannelState) (cmd : Command) (clk : Nat) (ix : BankIndex) :
    get ((s.updateTiming config timing cmd clk).bankStates ix) = get (s.bankStates ix) := by
  have hact := updateActivationTimes_bankStates config s cmd.addr.rank clk
  have hbanks (s : ChannelState) (p : BankIndex → Bool) (row : TimingList) :
      get ((s.updateBankTimings p row clk).bankStates ix) = get (s.bankStates ix) := by
    rw [updateBankTimings_bankStates]
    split
    · exact hget _ _ _
    · rfl
  rw [updateTiming]
  split <;> simp only [updateChannelTiming, updateSameBankTiming, updateSameRankTiming,
    updateOtherBanksSameBankgroupTiming, updateOtherBankgroupsSameRankTiming,
    updateOtherRanksTiming, hbanks, hact]

/-! ## State updates -/

theorem updateBank_eq_ok :
    s.updateBank cmd ix = .ok s' ↔
      ∃ b, (s.bankStates ix).updateState cmd = .ok b ∧
        s' = { s with bankStates := Function.update s.bankStates ix b } := by
  rw [updateBank, Library.bind_eq_ok]
  constructor
  · rintro ⟨b, hb, hs⟩
    exact ⟨b, hb, (Except.ok.inj hs).symm⟩
  · rintro ⟨b, hb, hs⟩
    exact ⟨b, hb, by rw [hs]⟩

/-- The loop of `UpdateState` over a list of banks without repetition: each bank
of the list takes the command in its state before the loop. -/
theorem foldlM_updateBank :
    ∀ {l : List BankIndex} {s s' : ChannelState}, l.Nodup →
      l.foldlM (fun s ix => s.updateBank cmd ix) s = .ok s' →
      (∀ ix ∈ l, (s.bankStates ix).updateState cmd = .ok (s'.bankStates ix)) ∧
        (∀ ix, ix ∉ l → s'.bankStates ix = s.bankStates ix) ∧
        s' = { s with bankStates := s'.bankStates }
  | [], s, s', _, h => by
      cases h
      exact ⟨fun ix hix => absurd hix (List.not_mem_nil), fun _ _ => rfl, rfl⟩
  | ix₀ :: l, s, s', hnd, h => by
      rw [List.foldlM_cons, Library.bind_eq_ok] at h
      obtain ⟨s₁, h₁, hrest⟩ := h
      obtain ⟨b, hb, rfl⟩ := updateBank_eq_ok.mp h₁
      rw [List.nodup_cons] at hnd
      obtain ⟨htaken, hkept, hframe⟩ := foldlM_updateBank hnd.2 hrest
      have hother : ∀ ix, ix ≠ ix₀ → Function.update s.bankStates ix₀ b ix = s.bankStates ix :=
        fun ix hne => Function.update_of_ne hne b s.bankStates
      refine ⟨fun ix hix => ?_, fun ix hix => ?_, ?_⟩
      · rcases List.mem_cons.mp hix with rfl | hmem
        · rw [hkept ix hnd.1, hb]
          simp
        · have hne : ix ≠ ix₀ := fun he => hnd.1 (he ▸ hmem)
          rw [← htaken ix hmem]
          simp only [hother ix hne]
      · rw [List.mem_cons, not_or] at hix
        rw [hkept ix hix.2]
        exact hother ix hix.1
      · rw [hframe]

/-- The loop ends normally when every bank takes the command. -/
theorem exists_foldlM_updateBank :
    ∀ {l : List BankIndex} {s : ChannelState}, l.Nodup →
      (∀ ix ∈ l, ∃ b, (s.bankStates ix).updateState cmd = .ok b) →
      ∃ s', l.foldlM (fun s ix => s.updateBank cmd ix) s = .ok s'
  | [], s, _, _ => ⟨s, rfl⟩
  | ix₀ :: l, s, hnd, h => by
      rw [List.nodup_cons] at hnd
      obtain ⟨b, hb⟩ := h ix₀ (List.mem_cons_self ..)
      have hrest : ∀ ix ∈ l,
          ∃ b', (Function.update s.bankStates ix₀ b ix).updateState cmd = .ok b' := by
        intro ix hmem
        have hne : ix ≠ ix₀ := fun he => hnd.1 (he ▸ hmem)
        rw [Function.update_of_ne hne]
        exact h ix (List.mem_cons_of_mem _ hmem)
      obtain ⟨s', hs'⟩ := exists_foldlM_updateBank
        (s := { s with bankStates := Function.update s.bankStates ix₀ b }) hnd.2 hrest
      refine ⟨s', ?_⟩
      rw [List.foldlM_cons, Library.bind_eq_ok]
      exact ⟨_, updateBank_eq_ok.mpr ⟨b, hb, rfl⟩, hs'⟩

end ChannelState

/-- The banks a command goes to: those of the rank, or the one it addresses. -/
def Config.Reaches (config : Config) (cmd : Command) (ix : BankIndex) : Prop :=
  if cmd.isRankCMD then ix ∈ config.rankBanks cmd.addr.rank else ix = cmd.bankIndex

instance (config : Config) (cmd : Command) (ix : BankIndex) :
    Decidable (config.Reaches cmd ix) :=
  inferInstanceAs (Decidable (if cmd.isRankCMD then _ else _))

namespace ChannelState

/-- The effect of `UpdateState`. -/
structure StateUpdated (config : Config) (s : ChannelState) (cmd : Command) (s' : ChannelState) :
    Prop where
  /-- The banks reached take the command. -/
  taken : ∀ ix, config.Reaches cmd ix →
    (s.bankStates ix).updateState cmd = .ok (s'.bankStates ix)
  /-- The other banks stay. -/
  kept : ∀ ix, ¬ config.Reaches cmd ix → s'.bankStates ix = s.bankStates ix
  /-- The self-refresh flag of the rank follows the two self-refresh commands. -/
  sref : s'.rankIsSref =
    if cmd.cmdType = .srefEnter then Function.update s.rankIsSref cmd.addr.rank true
    else if cmd.cmdType = .srefExit then Function.update s.rankIsSref cmd.addr.rank false
    else s.rankIsSref
  /-- The activation windows stay. -/
  fourAw : s'.fourAw = s.fourAw
  thirtyTwoAw : s'.thirtyTwoAw = s.thirtyTwoAw

theorem updateState_spec (h : s.updateState config cmd = .ok s') :
    StateUpdated config s cmd s' := by
  unfold updateState at h
  split at h
  · rename_i hrank
    obtain ⟨s₁, hloop, h⟩ := Library.bind_eq_ok.mp h
    obtain ⟨htaken, hkept, hframe⟩ :=
      foldlM_updateBank (config.nodup_rankBanks cmd.addr.rank) hloop
    have hreach : ∀ ix, config.Reaches cmd ix ↔ ix ∈ config.rankBanks cmd.addr.rank := by
      intro ix
      rw [Config.Reaches, if_pos hrank]
    have hs₁ : s₁.rankIsSref = s.rankIsSref ∧ s₁.fourAw = s.fourAw ∧
        s₁.thirtyTwoAw = s.thirtyTwoAw := by
      rw [hframe]
      exact ⟨rfl, rfl, rfl⟩
    obtain ⟨hsref, hfour, hthirty⟩ := hs₁
    cases hty : cmd.cmdType <;>
      simp [Command.isRankCMD, Command.isRefresh, hty, CommandType.isRankCMD,
        CommandType.isRefresh] at hrank h <;> subst h <;>
      exact ⟨fun ix hix => htaken ix ((hreach ix).mp hix),
        fun ix hix => hkept ix (fun hmem => hix ((hreach ix).mpr hmem)),
        by simp [rankNeedRefresh, hsref, hty], hfour, hthirty⟩
  · rename_i hrank
    obtain ⟨s₁, hbank, h⟩ := Library.bind_eq_ok.mp h
    obtain ⟨b, hb, rfl⟩ := updateBank_eq_ok.mp hbank
    have hreach : ∀ ix, config.Reaches cmd ix ↔ ix = cmd.bankIndex := by
      intro ix
      rw [Config.Reaches, if_neg hrank]
    have hty : cmd.cmdType ≠ .srefEnter ∧ cmd.cmdType ≠ .srefExit := by
      constructor <;> intro he <;> simp [Command.isRankCMD, he, CommandType.isRankCMD] at hrank
    have hs' : s'.bankStates = Function.update s.bankStates cmd.bankIndex b ∧
        s'.rankIsSref = s.rankIsSref ∧ s'.fourAw = s.fourAw ∧
        s'.thirtyTwoAw = s.thirtyTwoAw := by
      split at h <;> cases h <;> exact ⟨rfl, rfl, rfl, rfl⟩
    obtain ⟨hbanks, hsref, hfour, hthirty⟩ := hs'
    refine ⟨fun ix hix => ?_, fun ix hix => ?_, ?_, hfour, hthirty⟩
    · rw [(hreach ix).mp hix, hbanks, hb, Function.update_self]
    · rw [hbanks, Function.update_of_ne (fun he => hix ((hreach ix).mpr he))]
    · rw [hsref, if_neg hty.1, if_neg hty.2]

/-- A command that every bank it reaches takes is carried out. -/
theorem exists_updateState
    (h : ∀ ix, config.Reaches cmd ix → ∃ b, (s.bankStates ix).updateState cmd = .ok b) :
    ∃ s', s.updateState config cmd = .ok s' := by
  unfold updateState
  unfold Config.Reaches at h
  by_cases hrank : cmd.isRankCMD = true
  · simp only [hrank, if_true] at h ⊢
    obtain ⟨s₁, hs₁⟩ := exists_foldlM_updateBank (config.nodup_rankBanks cmd.addr.rank) h
    rw [hs₁]
    simp only [bind, Except.bind]
    split
    · exact ⟨_, rfl⟩
    · split <;> exact ⟨_, rfl⟩
  · simp only [if_neg hrank] at h ⊢
    obtain ⟨b, hb⟩ := h cmd.bankIndex rfl
    rw [updateBank_eq_ok.mpr ⟨b, hb, rfl⟩]
    simp only [bind, Except.bind]
    split <;> exact ⟨_, rfl⟩

/-- A command takes refresh requests away, and adds none. -/
theorem mem_refreshQ_of_updateState (h : s.updateState config cmd = .ok s')
    (hreq : req ∈ s'.refreshQ) : req ∈ s.refreshQ := by
  unfold updateState at h
  split at h
  · obtain ⟨s₁, hloop, h⟩ := Library.bind_eq_ok.mp h
    obtain ⟨_, _, hframe⟩ := foldlM_updateBank (config.nodup_rankBanks cmd.addr.rank) hloop
    have hq : s₁.refreshQ = s.refreshQ := by rw [hframe]
    split at h
    · cases h
      exact hq ▸ List.mem_of_mem_eraseP hreq
    · split at h <;> cases h <;> exact hq ▸ hreq
  · obtain ⟨s₁, hbank, h⟩ := Library.bind_eq_ok.mp h
    obtain ⟨b, _, rfl⟩ := updateBank_eq_ok.mp hbank
    split at h
    · cases h
      exact List.mem_of_mem_eraseP hreq
    · cases h
      exact hreq

theorem mem_refreshQ_of_update (h : s.updateTimingAndStates config timing cmd clk = .ok s')
    (hreq : req ∈ s'.refreshQ) : req ∈ s.refreshQ := by
  obtain ⟨s₁, hs₁, h⟩ := Library.bind_eq_ok.mp h
  cases h
  rw [(s₁.updateTiming_rest config timing cmd clk).1] at hreq
  exact mem_refreshQ_of_updateState hs₁ hreq

/-- A command that is no refresh leaves the refresh requests alone. -/
theorem refreshQ_of_update (h : s.updateTimingAndStates config timing cmd clk = .ok s')
    (hcmd : cmd.isRefresh = false) : s'.refreshQ = s.refreshQ := by
  obtain ⟨s₁, hs₁, h⟩ := Library.bind_eq_ok.mp h
  cases h
  rw [(s₁.updateTiming_rest config timing cmd clk).1]
  simp only [updateState, hcmd, Bool.false_eq_true, if_false] at hs₁
  split at hs₁
  · obtain ⟨s₂, hloop, hs₁⟩ := Library.bind_eq_ok.mp hs₁
    obtain ⟨_, _, hframe⟩ := foldlM_updateBank (config.nodup_rankBanks cmd.addr.rank) hloop
    have hq : s₂.refreshQ = s.refreshQ := by rw [hframe]
    split at hs₁ <;> cases hs₁ <;> exact hq
  · obtain ⟨s₂, hbank, hs₁⟩ := Library.bind_eq_ok.mp hs₁
    obtain ⟨_, _, rfl⟩ := updateBank_eq_ok.mp hbank
    cases hs₁
    rfl

/-- A refresh whose request is the first one takes it away. -/
theorem refreshQ_of_refresh {rest : List Command}
    (h : s.updateTimingAndStates config timing cmd clk = .ok s') (hcmd : cmd.isRefresh = true)
    (hq : s.refreshQ = cmd :: rest) : s'.refreshQ = rest := by
  obtain ⟨s₁, hs₁, h⟩ := Library.bind_eq_ok.mp h
  cases h
  rw [(s₁.updateTiming_rest config timing cmd clk).1]
  simp only [updateState, hcmd, if_true] at hs₁
  split at hs₁
  · obtain ⟨s₂, hloop, hs₁⟩ := Library.bind_eq_ok.mp hs₁
    obtain ⟨_, _, hframe⟩ := foldlM_updateBank (config.nodup_rankBanks cmd.addr.rank) hloop
    have hq₂ : s₂.refreshQ = cmd :: rest := by rw [hframe, ← hq]
    cases hs₁
    simp [rankNeedRefresh, hq₂]
  · obtain ⟨s₂, hbank, hs₁⟩ := Library.bind_eq_ok.mp hs₁
    obtain ⟨_, _, rfl⟩ := updateBank_eq_ok.mp hbank
    cases hs₁
    simp [bankNeedRefresh, hq]

/-- The only way in which a command can end the process. -/
theorem updateTimingAndStates_error {e : Exit}
    (h : s.updateTimingAndStates config timing cmd clk = .error e) : e = .illegalUpdate := by
  have hbank : ∀ {s : ChannelState} {ix : BankIndex}, s.updateBank cmd ix = .error e →
      e = .illegalUpdate := by
    intro s ix hb
    rcases Library.bind_eq_error.mp hb with hb | ⟨_, _, hb⟩
    · exact BankState.updateState_error hb
    · cases hb
  have hfold : ∀ {l : List BankIndex} {s : ChannelState},
      l.foldlM (fun s ix => s.updateBank cmd ix) s = .error e → e = .illegalUpdate := by
    intro l
    induction l with
    | nil =>
        intro s hl
        cases hl
    | cons ix l ih =>
        intro s hl
        rw [List.foldlM_cons] at hl
        rcases Library.bind_eq_error.mp hl with hl | ⟨_, _, hl⟩
        · exact hbank hl
        · exact ih hl
  rcases Library.bind_eq_error.mp h with h | ⟨_, _, h⟩
  · unfold updateState at h
    split at h
    · rcases Library.bind_eq_error.mp h with h | ⟨_, _, h⟩
      · exact hfold h
      · split at h
        · cases h
        · split at h <;> cases h
    · rcases Library.bind_eq_error.mp h with h | ⟨_, _, h⟩
      · exact hbank h
      · split at h <;> cases h
  · cases h

/-! ## Answers to requests -/

/-- A bank needs `ty` next for the request, and `ty` is due. -/
def Due (s : ChannelState) (req : Command) (clk : Nat) (ix : BankIndex) (ty : CommandType) :
    Prop :=
  (s.bankStates ix).requiredType req = .ok ty ∧ (s.bankStates ix).cmdTiming ty ≤ clk

/-- How a request is answered by a command. -/
inductive Answered (config : Config) (s : ChannelState) (req : Command) (clk : Nat) :
    Command → Prop where
  /-- Every bank of the rank is ready for the request. -/
  | wholeRank : req.isRankCMD = true →
      (∀ ix ∈ config.rankBanks req.addr.rank, s.Due req clk ix req.cmdType) →
      Answered config s req clk req
  /-- A bank of the rank has to be served before the rank. -/
  | bankOfRank {ready : Command} {ix : BankIndex} : req.isRankCMD = true →
      ix ∈ config.rankBanks req.addr.rank → s.Due req clk ix ready.cmdType →
      ready.cmdType ≠ req.cmdType →
      ready.addr = { rank := req.addr.rank, bankgroup := ix.bankgroup, bank := ix.bank } →
      Answered config s req clk ready
  /-- The request goes to a single bank. -/
  | bank {ready : Command} : req.isRankCMD = false →
      s.Due req clk req.bankIndex ready.cmdType →
      ready.addr = req.addr → ready.hexAddr = req.hexAddr →
      (ready.cmdType.isActivate = true → s.activationWindowOk config ready.addr.rank clk = true) →
      Answered config s req clk ready

theorem rankReadyCommand_cases {ready : Command} :
    ∀ {l : List BankIndex} {numReady : Nat} {last : Option Command},
      (∀ cmd, last = some cmd → cmd = req) →
      rankReadyCommand config s req clk l numReady last = .ok (some ready) →
      (∃ ix ∈ l, s.Due req clk ix ready.cmdType ∧ ready.cmdType ≠ req.cmdType ∧
        ready.addr = { rank := req.addr.rank, bankgroup := ix.bankgroup, bank := ix.bank }) ∨
      (ready = req ∧ config.banks ≤ numReady + l.length ∧
        (config.banks = numReady + l.length → ∀ ix ∈ l, s.Due req clk ix req.cmdType))
  | [], numReady, last, hlast, h => by
      simp only [rankReadyCommand] at h
      split at h
      · rename_i hbanks
        refine Or.inr ⟨hlast ready (Except.ok.inj h), by simp [hbanks], ?_⟩
        intro _ ix hix
        cases hix
      · cases h
  | ix₀ :: l, numReady, last, hlast, h => by
      rw [rankReadyCommand, Library.bind_eq_ok] at h
      obtain ⟨answer, hanswer, h⟩ := h
      cases answer with
      | none =>
          rcases rankReadyCommand_cases (by simp) h with ⟨ix, hmem, hix⟩ | ⟨he, hle, _⟩
          · exact Or.inl ⟨ix, List.mem_cons_of_mem _ hmem, hix⟩
          · refine Or.inr ⟨he, by rw [List.length_cons]; omega, fun hbanks => ?_⟩
            rw [List.length_cons] at hbanks
            omega
      | some cmd =>
          obtain ⟨hreq, hclk, haddr, hhex⟩ := BankState.getReadyCommand_eq_some.mp hanswer
          dsimp only at h
          split at h
          · rename_i hne
            cases h
            exact Or.inl ⟨ix₀, List.mem_cons_self .., ⟨hreq, hclk⟩, hne, rfl⟩
          · rename_i hty
            rw [not_not] at hty
            have hcmd : ∀ c, some cmd = some c → c = req := by
              rintro c he
              cases he
              cases req
              cases cmd
              simp only at hty haddr hhex
              rw [hty, haddr, hhex]
            rcases rankReadyCommand_cases hcmd h with ⟨ix, hmem, hix⟩ | ⟨he, hle, hall⟩
            · exact Or.inl ⟨ix, List.mem_cons_of_mem _ hmem, hix⟩
            · refine Or.inr ⟨he, by rw [List.length_cons]; omega, fun hbanks ix hix => ?_⟩
              rw [List.length_cons] at hbanks
              rcases List.mem_cons.mp hix with rfl | hmem
              · exact hty ▸ ⟨hreq, hclk⟩
              · exact hall (by omega) ix hmem

theorem getReadyCommand_spec {ready : Command}
    (h : s.getReadyCommand config req clk = .ok (some ready)) :
    Answered config s req clk ready := by
  unfold getReadyCommand at h
  split at h
  · rename_i hrank
    rcases rankReadyCommand_cases (by simp) h with ⟨ix, hmem, hdue, hne, haddr⟩ | ⟨rfl, _, hall⟩
    · exact .bankOfRank hrank hmem hdue hne haddr
    · exact .wholeRank hrank (hall (by rw [config.length_rankBanks, Nat.zero_add]))
  · rename_i hrank
    rw [Library.bind_eq_ok] at h
    obtain ⟨answer, hanswer, h⟩ := h
    cases answer with
    | none => cases h
    | some cmd =>
        obtain ⟨hreq, hclk, haddr, hhex⟩ := BankState.getReadyCommand_eq_some.mp hanswer
        dsimp only at h
        split at h
        · cases h
        · rename_i hwin
          cases h
          refine .bank (by simpa using hrank) ⟨hreq, hclk⟩ haddr hhex (fun hact => ?_)
          simpa [hact] using hwin

end ChannelState

end Dramsim
