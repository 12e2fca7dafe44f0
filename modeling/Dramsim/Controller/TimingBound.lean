import Dramsim.Controller.Frame
import Dramsim.Controller.RowHistory

/-!
# The entries of the timing tables and the clock

Every gap is added to an unsigned clock.  A derived gap can be negative, such as the one from
a read to a write where `CWL` exceeds `CL`, and a sum below zero wraps to a value near `2 ^ 64`
that the running maximum then keeps.  So an entry is bounded by the clock and the largest gap
as long as no command is issued earlier than its negative gaps reach back, and
`timing_bounded_iff` says that this is the exact condition on a run.
-/

namespace Dramsim

open Library (System)

/-! ## The gaps of the tables -/

/-- The rows of a table. -/
def CommandType.all : List CommandType :=
  [.read, .readPrecharge, .write, .writePrecharge, .activate, .precharge, .refreshBank, .refresh,
    .srefEnter, .srefExit, .lhRead, .lhReadPrecharge, .ghRead, .ghReadPrecharge, .pimWrite,
    .pimWritePrecharge, .pimActivate]

theorem CommandType.mem_all (ty : CommandType) : ty ∈ all := by
  cases ty <;> decide

namespace Timing

variable {timing : Timing}

/-- Every gap of the five tables. -/
def gaps (timing : Timing) : List Int :=
  CommandType.all.flatMap fun ty =>
    (timing.sameBank ty ++ timing.otherBanksSameBankgroup ty ++
      timing.otherBankgroupsSameRank ty ++ timing.otherRanks ty ++ timing.sameRank ty).map Prod.snd

/-- The largest gap of the five tables. -/
def largestGap (timing : Timing) : Int := timing.gaps.max?.getD 0

theorem le_largestGap {d : Int} (h : d ∈ timing.gaps) : d ≤ timing.largestGap := by
  unfold largestGap
  cases hmax : timing.gaps.max? with
  | none =>
      rw [List.max?_eq_none_iff] at hmax
      rw [hmax] at h
      cases h
  | some m => exact (List.max?_le_iff hmax).mp (Int.le_refl m) d h

theorem largestGap_lt {bound : Int} (h : ∀ d ∈ timing.gaps, d < bound) (hbound : 0 < bound) :
    timing.largestGap < bound := by
  unfold largestGap
  cases hmax : timing.gaps.max? with
  | none => exact hbound
  | some m => exact h m (List.max?_mem hmax)

theorem mem_gaps_of_governing {cmd : Command} {ix : BankIndex} {ty : CommandType} {d : Int}
    (h : (ty, d) ∈ timing.governing cmd ix) : d ∈ timing.gaps := by
  refine List.mem_flatMap.mpr ⟨cmd.cmdType, CommandType.mem_all _,
    List.mem_map.mpr ⟨(ty, d), ?_, rfl⟩⟩
  simp only [List.mem_append]
  unfold governing at h
  split at h
  · split at h
    · exact .inr h
    · cases h
  · split at h
    · split at h
      · exact .inl (.inl (.inl (.inl h)))
      · cases h
    · cases hpos : cmd.addr.position ix with
      | sameBank =>
          rw [hpos] at h
          exact .inl (.inl (.inl (.inl h)))
      | otherBankSameBankgroup =>
          rw [hpos] at h
          exact .inl (.inl (.inl (.inr h)))
      | otherBankgroupSameRank =>
          rw [hpos] at h
          exact .inl (.inl (.inr h))
      | otherRank =>
          rw [hpos] at h
          exact .inl (.inr h)

end Timing

namespace Config

variable {config : Config}

/-- The parameters that `Timing::Timing` computes the gaps from. -/
def timingParameters (config : Config) : List Int :=
  [config.burstCycle, config.AL, config.CL, config.CWL, config.tCCD_L, config.tCCD_S, config.tRTRS,
    config.tRTP, config.tWTR_L, config.tWTR_S, config.tWR, config.tRP, config.tRRD_L,
    config.tRRD_S, config.tRAS, config.tRCD, config.tRFC, config.tCKESR, config.tXS, config.tRFCb,
    config.tREFI, config.tPPD, config.tRCDRD, config.tRCDWR]

/-- With parameters that are not negative some gap is not. -/
theorem largestGap_nonneg (h : ∀ t ∈ config.timingParameters, 0 ≤ t) :
    0 ≤ (Timing.ofConfig config).largestGap := by
  have hgap : config.tRFCb ∈ (Timing.ofConfig config).gaps := by
    refine List.mem_flatMap.mpr ⟨.refreshBank, CommandType.mem_all _, ?_⟩
    refine List.mem_map.mpr ⟨(.activate, config.tRFCb), List.mem_append_right _ ?_, rfl⟩
    exact List.mem_cons_self ..
  exact Int.le_trans (h _ (by simp [timingParameters])) (Timing.le_largestGap hgap)

/-- No gap that the command imposes reaches back behind the start of the clock. -/
def ReachesForward (config : Config) (e : Nat × Command) : Prop :=
  ∀ ix, config.HasBank ix → ∀ ty d, (ty, d) ∈ (Timing.ofConfig config).governing e.2 ix →
    0 ≤ (e.1 : Int) + d

theorem reachesForward_of_nonneg (h : ∀ d ∈ (Timing.ofConfig config).gaps, 0 ≤ d)
    (e : Nat × Command) : config.ReachesForward e := by
  intro ix _ ty d hd
  have := h d (Timing.mem_gaps_of_governing hd)
  omega

end Config

/-- A sum that wraps lies far ahead of the clock. -/
theorem addClk_of_neg {clk : Nat} {gap : Int} (h : (clk : Int) + gap < 0)
    (hgap : -(2 ^ 31) ≤ gap) : (addClk clk gap : Int) = 2 ^ 64 + (clk + gap) := by
  have hmod : ((clk : Int) + gap) % 2 ^ 64 = 2 ^ 64 + (clk + gap) := by omega
  rw [addClk, if_neg (by omega), toU64, hmod, Int.toNat_of_nonneg (by omega)]

namespace Controller

variable {config : Config} {o s s' : Controller config} {ops : List Op}

/-- Every entry of every bank lies at most the largest gap ahead of the clock. -/
def TimingBounded (s : Controller config) : Prop :=
  ∀ ix, config.HasBank ix → ∀ ty,
    ((s.channelState.bankStates ix).cmdTiming ty : Int) ≤
      s.clk + (Timing.ofConfig config).largestGap

theorem TimingBounded.frame (h : s.TimingBounded) (hsame : SameCommands s s') :
    s'.TimingBounded := by
  intro ix hix ty
  have hclk := hsame.clk
  have hold := h ix hix ty
  rw [hsame.banks.bankStates]
  omega

theorem TimingBounded.issued {cmd : Command} (h : s.TimingBounded) (hissue : Issued s cmd s')
    (hnonneg : 0 ≤ (Timing.ofConfig config).largestGap)
    (hforward : config.ReachesForward (s.clk, cmd)) : s'.TimingBounded := by
  intro ix hix ty
  rw [hissue.clk]
  have hbound : (s'.channelState.bankStates ix).cmdTiming ty ≤
      ((s.clk : Int) + (Timing.ofConfig config).largestGap).toNat := by
    rw [ChannelState.cmdTiming_le_iff hissue.channel hix]
    constructor
    · have := h ix hix ty
      omega
    · intro d hd
      have hsum := addClk_of_nonneg (hforward ix hix ty d hd)
      have hle := Timing.le_largestGap (Timing.mem_gaps_of_governing hd)
      dsimp only at hsum
      omega
  omega

/-- A run whose commands all reach forward keeps the bound. -/
theorem timingBounded_of_run (hrun : (controllerSystem config).Run ops s)
    (hnonneg : 0 ≤ (Timing.ofConfig config).largestGap)
    (hforward : ∀ e ∈ s.issuedCommands, config.ReachesForward e) : s.TimingBounded := by
  have hany : ((controllerSystem config).restrict fun _ _ => True).Run ops s :=
    hrun.restrict_labels fun _ _ => trivial
  refine issue_invariant hany
    (fun s => (∀ e ∈ s.issuedCommands, config.ReachesForward e) → s.TimingBounded) ?_ ⟨?_, ?_⟩
    hforward
  · intro _ ix _ ty
    show (0 : Int) ≤ 0 + _
    omega
  · intro s s' hinv hsame hall
    exact (hinv (hsame.issued ▸ hall)).frame hsame
  · intro o s cmd s' _ _ _ _ _ hinv _ hissue hall
    rw [hissue.issuedCommands] at hall
    refine (hinv fun e he => hall e (List.mem_append_left _ he)).issued hissue hnonneg ?_
    exact hall _ (List.mem_append_right _ (List.mem_singleton_self _))

/-- The clock goes on by one cycle at most. -/
theorem clk_le_of_step {op : Op} (h : (controllerSystem config).step s op s') :
    s'.clk ≤ s.clk + 1 := by
  cases op with
  | add it =>
      obtain ⟨_, rfl⟩ := h
      rw [(s.addTransaction_sameDevice it).clk]
      omega
  | tick => exact Nat.le_of_eq (clockTick_timers h).1
  | done clk =>
      cases h
      rw [(s.returnDoneTrans_sameDevice clk).clk]
      omega
  | pushRdW cmd | pushRdIn cmd time | pushWr cmd =>
      obtain ⟨_, rfl⟩ := h
      exact Nat.le_succ _
  | setInPim inPim | setWrMultitenant wrMultitenant =>
      cases h
      exact Nat.le_succ _

theorem driven_of_run (hrun : (controllerSystem config).Run ops s) :
    s.Sound ∧ s.Streams ∧ s.Tracks := by
  refine hrun.invariant (fun s => s.Sound ∧ s.Streams ∧ s.Tracks)
    ⟨Sound.init, fun _ hcmd => absurd hcmd List.not_mem_nil, Tracks.init⟩ ?_
  intro s op s' ⟨hs, hpim, htracks⟩ hstep
  have hp : Watches (fun (_ : Controller config) _ => True) Tracks :=
    ⟨fun _ _ h hsame => h.frame hsame, fun _ _ _ _ _ _ _ _ _ h _ hissue => h.issued hissue⟩
  have hop : ((controllerSystem config).restrict fun _ _ => True).step s op s' := ⟨hstep, trivial⟩
  exact ⟨hs.operation hop, hp.operation hs hpim htracks hop⟩

/-- A command whose gap has wrapped leaves an entry beyond the bound, one cycle later still. -/
theorem not_timingBounded_of_wrap (htracks : s.Tracks)
    (hint : ∀ d ∈ (Timing.ofConfig config).gaps, -(2 ^ 31) ≤ d ∧ d < 2 ^ 31)
    {e : Nat × Command} (he : e ∈ s.issuedCommands) (hclk : s.clk ≤ e.1 + 1)
    (hwrap : ¬ config.ReachesForward e) : ¬ s.TimingBounded := by
  intro hbound
  apply hwrap
  intro ix hix ty d hd
  by_contra hneg
  have hgap := hint d (Timing.mem_gaps_of_governing hd)
  have hsum := addClk_of_neg (by omega : (e.1 : Int) + d < 0) hgap.1
  have hentry : addClk e.1 d ≤ (s.channelState.bankStates ix).cmdTiming ty :=
    htracks.covers e he (ix, ty) _ ⟨hix, d, hd, rfl⟩
  have hle := hbound ix hix ty
  have hlargest : (Timing.ofConfig config).largestGap < 2 ^ 31 :=
    Timing.largestGap_lt (fun d hd => (hint d hd).2) (by decide)
  omega

/-- For parameters that are not negative, and gaps that are values of `int`: the entries stay
within the largest gap of the clock along a run if and only if each command of the run is
issued at a clock that its negative gaps do not reach behind. -/
theorem timing_bounded_iff (hparams : ∀ t ∈ config.timingParameters, 0 ≤ t)
    (hint : ∀ d ∈ (Timing.ofConfig config).gaps, -(2 ^ 31) ≤ d ∧ d < 2 ^ 31)
    (hrun : (controllerSystem config).Run ops s) :
    (∀ ops₁ ops₂ s₁, ops = ops₁ ++ ops₂ → (controllerSystem config).Run ops₁ s₁ →
        ((controllerSystem config).startingAt s₁).Run ops₂ s → s₁.TimingBounded) ↔
      ∀ e ∈ s.issuedCommands, config.ReachesForward e := by
  have hnonneg := Config.largestGap_nonneg hparams
  constructor
  · intro hall
    induction hrun with
    | start => exact fun e he => absurd he List.not_mem_nil
    | @step ops s s' op hrun hstep ih =>
        obtain ⟨hs, hpim, _⟩ := driven_of_run hrun
        obtain ⟨more, hmore, hlate⟩ := (later_of_run hs hpim (.step .start hstep)).issued
        have hold := ih fun ops₁ ops₂ s₁ hsplit hrun₁ hrun₂ =>
          hall ops₁ (ops₂ ++ [op]) s₁ (by rw [hsplit, List.append_assoc]) hrun₁ (hrun₂.step hstep)
        intro e he
        rcases List.mem_append.mp (hmore ▸ he) with hmem | hnew
        · exact hold e hmem
        · by_contra hwrap
          have hle := hlate e hnew
          have hclk := clk_le_of_step hstep
          refine not_timingBounded_of_wrap (driven_of_run (hrun.step hstep)).2.2 hint he
            (by omega) hwrap ?_
          exact hall (ops ++ [op]) [] s' (List.append_nil _).symm (hrun.step hstep) .start
  · intro hforward ops₁ ops₂ s₁ _ hrun₁ hrun₂
    obtain ⟨hs, hpim, _⟩ := driven_of_run hrun₁
    obtain ⟨more, hmore, _⟩ := (later_of_run hs hpim hrun₂).issued
    refine timingBounded_of_run hrun₁ hnonneg fun e he => hforward e ?_
    exact hmore ▸ List.mem_append_left more he

/-- The gaps of the default configuration are not negative. -/
theorem timing_bounded_defaults :
    ∃ s : Controller Config.defaults,
      (controllerSystem Config.defaults).Run [.add ⟨0, false, 0, 0⟩, .tick, .tick] s ∧
        s.issuedCommands.length = 1 ∧ s.TimingBounded := by
  have hsome : (replay Config.defaults [.add ⟨0, false, 0, 0⟩, .tick, .tick]).any
      (fun s => s.issuedCommands.length = 1) = true := by
    decide +kernel
  obtain ⟨s, hs, hone⟩ := (Option.any_eq_true _ _).mp hsome
  have hrun : (controllerSystem Config.defaults).Run [.add ⟨0, false, 0, 0⟩, .tick, .tick] s :=
    (run_of_replay (fun _ => True) hs fun _ _ => trivial).of_restrict
  refine ⟨s, hrun, of_decide_eq_true hone, ?_⟩
  have hall := (timing_bounded_iff (by decide) (by decide +kernel) hrun).mpr fun e _ =>
    Config.reachesForward_of_nonneg (by decide +kernel) e
  exact hall _ [] s (List.append_nil _).symm hrun .start

/-- A device with short bursts whose writes take their data long after the command. -/
def lateWrites : Config :=
  { Config.shortBurst with tRCD := 1, tCCD_S := 1, tCCD_L := 1, CL := 1, CWL := 40 }

/-- The first read of such a device keeps all writes of its rank away for good. -/
theorem timing_wraps_late_writes :
    (∀ t ∈ lateWrites.timingParameters, 0 ≤ t) ∧
      ∃ s : Controller lateWrites,
        (controllerSystem lateWrites).Run ([.add ⟨0, false, 0, 0⟩] ++ List.replicate 4 .tick) s ∧
          (s.channelState.bankStates ⟨0, 0, 0⟩).cmdTiming .write = 2 ^ 64 - 34 ∧
            ¬ s.TimingBounded := by
  refine ⟨by decide, ?_⟩
  have hsome : (replay lateWrites ([.add ⟨0, false, 0, 0⟩] ++ List.replicate 4 .tick)).any
      (fun s => (s.channelState.bankStates ⟨0, 0, 0⟩).cmdTiming .write = 2 ^ 64 - 34 ∧
        s.clk = 4) = true := by
    decide +kernel
  obtain ⟨s, hs, hwrite⟩ := (Option.any_eq_true _ _).mp hsome
  obtain ⟨hwrite, hclk⟩ := of_decide_eq_true hwrite
  refine ⟨s, (run_of_replay (fun _ => True) hs fun _ _ => trivial).of_restrict, hwrite, ?_⟩
  intro hbound
  have hlargest : (Timing.ofConfig lateWrites).largestGap = 7800 := by decide +kernel
  have hle := hbound ⟨0, 0, 0⟩ (by decide) .write
  rw [hwrite, hclk, hlargest] at hle
  omega

end Controller

end Dramsim
