import Dramsim.Channel.ActivationWindow
import Dramsim.Channel.Awake

/-!
# When a channel has an answer

A request that cannot be answered waits for an entry of a timing table or for an activation
window.  Once both have passed, every request gets an answer: `getReadyCommand_of_due` for a bank
and `exists_rankReadyCommand` for a rank, of which every bank is asked.

How far the entries and the windows reach is kept through commands by `DueBy.update` and
`WindowsBy.update`, for a set of banks and a set of command types.
-/

namespace Dramsim

/-- Two banks have the same row buffer. -/
structure BankState.SameRow (b b' : BankState) : Prop where
  state : b'.state = b.state
  openRow : b'.openRow = b.openRow
  rowHitCount : b'.rowHitCount = b.rowHitCount

namespace Timing

/-- Everything that the tables say about commands after one of a type. -/
def rows (timing : Timing) (ty : CommandType) : TimingList :=
  timing.sameBank ty ++ timing.otherBanksSameBankgroup ty ++ timing.otherBankgroupsSameRank ty ++
    timing.otherRanks ty ++ timing.sameRank ty

theorem mem_rows_of_governing {timing : Timing} {cmd : Command} {ix : BankIndex}
    {entry : CommandType × Int} (h : entry ∈ timing.governing cmd ix) :
    entry ∈ timing.rows cmd.cmdType := by
  unfold governing at h
  cases hp : cmd.addr.position ix <;> rw [hp] at h <;> repeat' split at h
  all_goals simp_all [rows, atPosition]

end Timing

/-- The longest of some gaps. -/
def longest (gaps : List Int) : Nat := (gaps.max?.getD 0).toNat

theorem le_longest {gaps : List Int} {d : Int} (h : d ∈ gaps) : d ≤ longest gaps := by
  obtain ⟨m, hmax⟩ := Option.isSome_iff_exists.mp (List.isSome_max?_of_mem h)
  have hle := (List.max?_eq_some_iff.mp hmax).2 d h
  rw [longest, hmax, Option.getD_some]
  omega

theorem addClk_le {clk time : Nat} {d : Int} (hd : 0 ≤ d) (hle : (clk : Int) + d ≤ time) :
    addClk clk d ≤ time := by
  have hclk : (addClk clk d : Int) = clk + d := addClk_of_nonneg (by omega)
  omega

namespace Config

variable {config : Config} {sources targets : List CommandType}

/-- The gaps of the tables from a command of one of the types `sources` to one of `targets`. -/
def gaps (config : Config) (sources targets : List CommandType) : List Int :=
  sources.flatMap fun ty =>
    (((Timing.ofConfig config).rows ty).filter fun entry => entry.1 ∈ targets).map Prod.snd

theorem gaps_subset {sources' : List CommandType} (h : sources ⊆ sources') :
    config.gaps sources targets ⊆ config.gaps sources' targets := by
  intro d hd
  obtain ⟨ty, hty, hd⟩ := List.mem_flatMap.mp hd
  exact List.mem_flatMap.mpr ⟨ty, h hty, hd⟩

theorem mem_gaps_of_governing {cmd : Command} {ix : BankIndex} {ty : CommandType} {d : Int}
    (hcmd : cmd.cmdType ∈ sources) (hty : ty ∈ targets)
    (h : (ty, d) ∈ (Timing.ofConfig config).governing cmd ix) :
    d ∈ config.gaps sources targets := by
  refine List.mem_flatMap.mpr ⟨_, hcmd,
    List.mem_map.mpr ⟨(ty, d), List.mem_filter.mpr ⟨?_, ?_⟩, rfl⟩⟩
  · exact Timing.mem_rows_of_governing h
  · exact decide_eq_true hty

end Config

namespace ChannelState

variable {config : Config} {timing : Timing} {s s' : ChannelState} {req cmd : Command}
  {new now t time' : Nat} {window : List Nat}
  {clk time : Nat} {banks : BankIndex → Prop} {types : CommandType → Prop}

/-! ## Timing entries -/

/-- From `time` on the banks take the commands of these types. -/
def DueBy (s : ChannelState) (banks : BankIndex → Prop) (types : CommandType → Prop)
    (time : Nat) : Prop :=
  ∀ ix, banks ix → ∀ ty, types ty → (s.bankStates ix).cmdTiming ty ≤ time

theorem DueBy.mono (h : s.DueBy banks types time) (hle : time ≤ time') :
    s.DueBy banks types time' :=
  fun ix hix ty hty => (h ix hix ty hty).trans hle

theorem DueBy.same (h : s.DueBy banks types time) (hs : s.SameBanks s') :
    s'.DueBy banks types time := by
  intro ix hix ty hty
  rw [hs.bankStates]
  exact h ix hix ty hty

/-- A command keeps the bound if its own gaps do. -/
theorem DueBy.update (h : s.DueBy banks types time) (hbanks : ∀ ix, banks ix → config.HasBank ix)
    (hok : s.updateTimingAndStates config timing cmd clk = .ok s')
    (hgaps : ∀ ix, banks ix → ∀ ty, types ty → ∀ d, (ty, d) ∈ timing.governing cmd ix →
      addClk clk d ≤ time) : s'.DueBy banks types time := by
  intro ix hix ty hty
  exact (cmdTiming_le_iff hok (hbanks ix hix)).mpr ⟨h ix hix ty hty, hgaps ix hix ty hty⟩

/-! ## Activation windows -/

/-- From `time` on the activation windows are empty. -/
structure WindowsBy (s : ChannelState) (time : Nat) : Prop where
  four : ∀ rank, ∀ t ∈ s.fourAw rank, t ≤ time
  thirtyTwo : ∀ rank, ∀ t ∈ s.thirtyTwoAw rank, t ≤ time

theorem WindowsBy.mono (h : s.WindowsBy time) (hle : time ≤ time') : s.WindowsBy time' :=
  ⟨fun rank t ht => (h.four rank t ht).trans hle,
    fun rank t ht => (h.thirtyTwo rank t ht).trans hle⟩

theorem WindowsBy.same (h : s.WindowsBy time) (hs : s.SameBanks s') : s'.WindowsBy time :=
  ⟨hs.fourAw ▸ h.four, hs.thirtyTwoAw ▸ h.thirtyTwo⟩

theorem ready_of_le {size : Nat} (h : ∀ t ∈ window, t ≤ clk) :
    Library.Window.ready size window clk = true := by
  cases window with
  | nil => rfl
  | cons oldest rest => simp [Library.Window.ready, h oldest]

theorem WindowsBy.ok (h : s.WindowsBy time) (hle : time ≤ clk) (rank : Int) :
    s.activationWindowOk config rank clk = true := by
  refine activationWindowOk_iff.mpr ⟨?_, fun _ => ?_⟩
  · exact ready_of_le fun t ht => (h.four rank t ht).trans hle
  · exact ready_of_le fun t ht => (h.thirtyTwo rank t ht).trans hle

theorem mem_of_mem_push (h : t ∈ Library.Window.push window now new) : t ∈ window ∨ t = new := by
  unfold Library.Window.push at h
  repeat' split at h
  all_goals grind

/-- The window of a rank after an activate. -/
theorem le_of_mem_update {windows : Int → List Nat} {rank rank' : Int}
    (h : ∀ rank, ∀ t ∈ windows rank, t ≤ time) (hnew : new ≤ time)
    (ht : t ∈ Function.update windows rank (Library.Window.push (windows rank) now new) rank') :
    t ≤ time := by
  rw [Function.update_apply] at ht
  split at ht
  · rcases mem_of_mem_push ht with ht | rfl
    · exact h rank t ht
    · exact hnew
  · exact h rank' t ht

/-- An activate keeps the bound if its own windows do. -/
theorem WindowsBy.update (h : s.WindowsBy time)
    (hok : s.updateTimingAndStates config timing cmd clk = .ok s')
    (hfour : cmd.cmdType.isActivate = true → addClk clk config.tFAW ≤ time)
    (hthirty : cmd.cmdType.isActivate = true → config.isGDDR = true →
      addClk clk config.t32AW ≤ time) : s'.WindowsBy time := by
  obtain ⟨s₁, hs₁, rfl⟩ := updateTimingAndStates_spec hok
  have h₁ : s₁.WindowsBy time := ⟨hs₁.fourAw ▸ h.four, hs₁.thirtyTwoAw ▸ h.thirtyTwo⟩
  obtain ⟨bankStates, hframe⟩ := updateTiming_frame config timing s₁ cmd clk
  rw [hframe]
  split
  · rename_i hact
    unfold updateActivationTimes
    split
    · rename_i hgddr
      exact ⟨fun _ _ => le_of_mem_update h₁.four (hfour hact),
        fun _ _ => le_of_mem_update h₁.thirtyTwo (hthirty hact hgddr)⟩
    · exact ⟨fun _ _ => le_of_mem_update h₁.four (hfour hact), h₁.thirtyTwo⟩
  · exact ⟨h₁.four, h₁.thirtyTwo⟩

/-! ## Answers -/

/-- A bank that is due answers a request for itself. -/
theorem getReadyCommand_of_due {ty : CommandType} (hrank : req.isRankCMD = false)
    (hdue : s.Due req clk req.bankIndex ty)
    (hwindow : ty.isActivate = true → s.activationWindowOk config req.addr.rank clk = true) :
    s.getReadyCommand config req clk = .ok (some ⟨ty, req.addr, req.hexAddr⟩) := by
  have hbank : (s.bankStates req.bankIndex).getReadyCommand req clk =
      .ok (some ⟨ty, req.addr, req.hexAddr⟩) :=
    BankState.getReadyCommand_eq_some.mpr ⟨hdue.1, hdue.2, rfl, rfl⟩
  rw [getReadyCommand, hrank, if_neg Bool.false_ne_true, hbank]
  show (if (ty.isActivate && !s.activationWindowOk config req.addr.rank clk) = true
    then _ else _) = _
  cases hact : ty.isActivate with
  | false => rfl
  | true =>
      rw [hwindow hact]
      rfl

/-- A rank answers if every bank of it does: with the request itself, or with a command for the
first bank that has to be served before. -/
theorem exists_rankReadyCommand :
    ∀ (l : List BankIndex) (numReady : Nat) (last : Option Command),
      (∀ ix ∈ l, ∃ ty, s.Due req clk ix ty) → numReady + l.length = config.banks →
      (l = [] → last.isSome = true) →
      ∃ cmd, rankReadyCommand config s req clk l numReady last = .ok (some cmd)
  | [], numReady, last, _, hbanks, hlast => by
      obtain ⟨cmd, hcmd⟩ := Option.isSome_iff_exists.mp (hlast rfl)
      refine ⟨cmd, ?_⟩
      rw [rankReadyCommand, if_pos (by simpa using hbanks), hcmd]
  | ix :: l, numReady, last, hdue, hbanks, _ => by
      obtain ⟨⟨ty, hty, htime⟩, hl⟩ := List.forall_mem_cons.mp hdue
      have hbank : (s.bankStates ix).getReadyCommand req clk =
          .ok (some ⟨ty, req.addr, req.hexAddr⟩) :=
        BankState.getReadyCommand_eq_some.mpr ⟨hty, htime, rfl, rfl⟩
      have hrest := exists_rankReadyCommand l (numReady + 1) (some ⟨ty, req.addr, req.hexAddr⟩) hl
        (by rw [← hbanks, List.length_cons]; omega) (fun _ => rfl)
      rw [rankReadyCommand, hbank]
      show ∃ cmd, (if ty ≠ req.cmdType then _ else _) = _
      split
      · exact ⟨_, rfl⟩
      · exact hrest

/-- A rank whose banks are all awake and due answers a refresh. -/
theorem exists_getReadyCommand_of_rank (hrank : req.isRankCMD = true)
    (hdue : ∀ ix ∈ config.rankBanks req.addr.rank, ∃ ty, s.Due req clk ix ty) :
    ∃ cmd, s.getReadyCommand config req clk = .ok (some cmd) := by
  rw [getReadyCommand, if_pos hrank]
  refine exists_rankReadyCommand _ _ _ hdue (by rw [config.length_rankBanks, Nat.zero_add]) ?_
  intro hnil
  have hmem := config.exists_mem_rankBanks req.addr.rank
  rw [hnil] at hmem
  cases hmem

/-- The row buffers after a command. -/
theorem rowBuffer_of_update (h : s.updateTimingAndStates config timing cmd clk = .ok s')
    (ix : BankIndex) :
    ∃ b : BankState, (if config.Reaches cmd ix then (s.bankStates ix).updateState cmd = .ok b
        else b = s.bankStates ix) ∧ b.SameRow (s'.bankStates ix) := by
  obtain ⟨s₁, hs₁, rfl⟩ := updateTimingAndStates_spec h
  refine ⟨s₁.bankStates ix, ?_,
    updateTiming_keeps BankState.updateTimings_state config timing s₁ cmd clk ix,
    updateTiming_keeps BankState.updateTimings_openRow config timing s₁ cmd clk ix,
    updateTiming_keeps BankState.updateTimings_rowHitCount config timing s₁ cmd clk ix⟩
  split
  · rename_i hreach
    exact hs₁.taken ix hreach
  · rename_i hreach
    exact hs₁.kept ix hreach

theorem sameRow_of_not_reaches (h : s.updateTimingAndStates config timing cmd clk = .ok s')
    {ix : BankIndex} (hreach : ¬ config.Reaches cmd ix) :
    (s.bankStates ix).SameRow (s'.bankStates ix) := by
  obtain ⟨b, hb, hrow⟩ := rowBuffer_of_update h ix
  rw [if_neg hreach] at hb
  exact hb ▸ hrow

end ChannelState

end Dramsim
