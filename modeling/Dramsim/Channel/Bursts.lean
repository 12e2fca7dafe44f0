import Dramsim.Channel.Columns
import Dramsim.Library.Since
import Dramsim.Queue.Selection
import Mathlib.Data.Set.Basic

/-!
# Data bursts on a channel

A column command at clock `t` occupies the data bus for `burst_cycle` cycles from
`t + RL` or `t + WL` on.  The gaps of the tables keep the bursts of any two column
commands apart, with one exception: a bank that has been closed by an
auto-precharge has no entry for column commands.  There the way leads over an
activate, which `BurstInvariant.closed` finds between the two.
-/

namespace Dramsim

variable {config : Config} {e : Nat × Command} {t : ChannelTrace} {ix : BankIndex}
  {cmd req : Command} {clk : Nat}

open Library (System Since)
open Timing (activateToRead activateToWrite)

/-! ## Bursts -/

/-- The cycle in which the data of a column command starts. -/
def Config.burstStart (config : Config) (e : Nat × Command) : Int :=
  e.1 + if e.2.isWrite then config.WL else config.RL

/-- The cycles in which the data of a column command is on the bus. -/
def Config.burst (config : Config) (e : Nat × Command) : Set Int :=
  {cycle | config.burstStart e ≤ cycle ∧ cycle < config.burstStart e + config.burstCycle}

/-- The burst of a command ends before that of a later one starts. -/
def Config.Apart (config : Config) (e e' : Nat × Command) : Prop :=
  e.2.isReadWrite = true → e'.2.isReadWrite = true →
    config.burstStart e + config.burstCycle ≤ config.burstStart e'

theorem Config.Apart.disjoint {e' : Nat × Command} (h : config.Apart e e')
    (he : e.2.isReadWrite = true) (he' : e'.2.isReadWrite = true) :
    config.burst e ∩ config.burst e' = ∅ := by
  rw [Set.eq_empty_iff_forall_notMem]
  rintro cycle ⟨hcycle, hcycle'⟩
  have hend := h he he'
  have hlt := hcycle.2
  have hle := hcycle'.1
  omega

/-- Timing parameters under which bursts do not collide: they are not negative, and
the way over an auto-precharge is long enough. -/
structure Config.BurstsFit (config : Config) : Prop where
  AL : 0 ≤ config.AL
  CL : 0 ≤ config.CL
  CWL : 0 ≤ config.CWL
  tRTRS : 0 ≤ config.tRTRS
  tWTR_L : 0 ≤ config.tWTR_L
  tWTR_S : 0 ≤ config.tWTR_S
  tWR : 0 ≤ config.tWR
  tRP : 0 ≤ config.tRP
  toRead : 0 ≤ activateToRead config
  toWrite : 0 ≤ activateToWrite config
  readPath : config.burstCycle ≤ config.AL + config.tRTP + config.tRP + activateToRead config
  writePath : config.RL + config.burstCycle ≤
    config.AL + config.tRTP + config.tRP + activateToWrite config + config.WL

/-- Every gap between column commands covers the burst of the first. -/
theorem Config.BurstsFit.le_columnGap (h : config.BurstsFit) (p : Position)
    (isWrite isWrite' : Bool) :
    (if isWrite then config.WL else config.RL) + config.burstCycle ≤
      config.columnGap p isWrite isWrite' + if isWrite' then config.WL else config.RL := by
  obtain ⟨hAL, hCL, hCWL, hrtrs, hwtrl, hwtrs, -, -, -, -, -, -⟩ := h
  cases p <;> cases isWrite <;> cases isWrite' <;>
    simp only [Config.columnGap, Timing.readToReadL, Timing.readToReadS, Timing.readToReadO,
      Timing.readToWrite, Timing.readToWriteO, Timing.writeToReadL, Timing.writeToReadS,
      Timing.writeToReadO, Timing.writeToWriteL, Timing.writeToWriteS, Timing.writeToWriteO,
      Config.readDelay, Config.writeDelay, Config.RL, Config.WL, if_true, if_false,
      Bool.false_eq_true] <;>
    (try split) <;> omega

/-! ## The way over an auto-precharge -/

/-- A column command closes the bank behind it. -/
def ClosesBank (ix : BankIndex) (e : Nat × Command) : Prop :=
  e.2.isReadWrite = true ∧ e.2.cmdType.keepsRow = false ∧ e.2.bankIndex = ix

/-- An activate opens the bank. -/
def OpensBank (ix : BankIndex) (e : Nat × Command) : Prop :=
  e.2.cmdType = .activate ∧ e.2.bankIndex = ix

/-- The gap from an auto-precharge to the activate after it. -/
def Config.closedGap (config : Config) (isWrite : Bool) : Int :=
  if isWrite then Timing.writeToActivate config else Timing.readpToAct config

/-- The gap from an activate to a column command. -/
def Config.openedGap (config : Config) (isWrite : Bool) : Int :=
  if isWrite then activateToWrite config else activateToRead config

theorem closedGap_mem (h : ClosesBank ix e) :
    (.activate, config.closedGap e.2.isWrite) ∈ (Timing.ofConfig config).governing e.2 ix := by
  obtain ⟨hcol, hkeep, rfl⟩ := h
  rw [governing_column hcol, Command.position_bankIndex, Command.isWrite]
  rw [Command.isReadWrite] at hcol
  cases hty : e.2.cmdType <;> rw [hty] at hcol hkeep <;>
    simp [CommandType.isReadWrite, CommandType.isRead, CommandType.isWrite,
      CommandType.keepsRow] at hcol hkeep
  · exact List.mem_cons_self ..
  · exact List.mem_cons_self ..

theorem openedGap_mem {ty : CommandType} (h : OpensBank ix e) (hty : ty.isReadWrite = true) :
    (ty, config.openedGap ty.isWrite) ∈ (Timing.ofConfig config).governing e.2 ix := by
  obtain ⟨hact, rfl⟩ := h
  have hgov : (Timing.ofConfig config).governing e.2 e.2.bankIndex =
      Timing.sameBankOf config .activate := by
    rw [Timing.governing, Command.isRankCMD, hact, Command.position_bankIndex]
    rfl
  have hmem := Timing.columnRow_mem hty (activateToRead config) (activateToWrite config)
  rw [hgov]
  exact List.mem_append_left _ (List.mem_append_right _ hmem)

/-- The two gaps together cover the burst of the first command. -/
theorem Config.BurstsFit.le_path (h : config.BurstsFit) (isWrite isWrite' : Bool) :
    (if isWrite then config.WL else config.RL) + config.burstCycle ≤
      config.closedGap isWrite + config.openedGap isWrite' +
        if isWrite' then config.WL else config.RL := by
  obtain ⟨hAL, hCL, hCWL, -, -, -, hwr, hrp, hread, hwrite, hreadPath, hwritePath⟩ := h
  cases isWrite <;> cases isWrite' <;>
    simp only [Config.closedGap, Config.openedGap, Timing.writeToActivate,
      Timing.writeToPrecharge, Timing.prechargeToActivate, Timing.readpToAct, Config.RL, Config.WL,
      if_true, if_false, Bool.false_eq_true] at hwritePath ⊢ <;>
    omega

/-! ## The invariant -/

/-- A request that is not one of the PIM streams. -/
def ChannelAction.IsOrdinary : ChannelAction → Prop
  | .command req _ => req.cmdType.isPimColumn = false
  | .environment => True

/-- A channel without PIM commands. -/
def ordinaryChannelSystem (config : Config) : System ChannelTrace ChannelAction :=
  (channelSystem config (Timing.ofConfig config)).restrict fun _ a => a.IsOrdinary

/-- Only the PIM streams ask for a `PIM_ACTIVATE`. -/
theorem BankState.requiredType_ne_pimActivate {b : BankState}
    (hreq : req.cmdType.isPimColumn = false) : b.requiredType req ≠ .ok .pimActivate := by
  intro h
  rcases requiredType_cases h with ⟨_, hc⟩ | ⟨_, ho⟩ | ⟨_, _, hty⟩
  · rcases hc with ⟨_, hty⟩ | ⟨hpim, _⟩ | ⟨hm, hty⟩
    · cases hty
    · rw [hreq] at hpim
      cases hpim
    · rw [← hty] at hm
      cases hm
  · rcases ho with ⟨hcol, _, hty⟩ | ⟨_, _, hty⟩ | ⟨_, hty⟩
    · rw [← hty] at hcol
      cases hcol
    · cases hty
    · cases hty
  · cases hty

/-- What holds along every run without PIM commands. -/
structure BurstInvariant (config : Config) (t : ChannelTrace) : Prop where
  timing : TimingInvariant config t
  /-- A bank that an auto-precharge has closed stays closed until its next
  activate. -/
  closed : ∀ ix, config.HasBank ix → Since (ClosesBank ix) (OpensBank ix) t.issued →
    (t.channel.bankStates ix).state ≠ .opened
  apart : t.issued.Pairwise config.Apart

theorem BurstInvariant.init (config : Config) :
    BurstInvariant config (ordinaryChannelSystem config).init where
  timing := TimingInvariant.init config
  closed := fun _ _ hsince => absurd hsince Library.not_since_nil
  apart := List.Pairwise.nil

/-- A column command finds its bank open, so an activate has followed every
auto-precharge of the bank. -/
theorem BurstInvariant.apart_of_closed (hfit : config.BurstsFit) (hinv : BurstInvariant config t)
    (h : t.Issues config cmd clk cmd) (hcol : cmd.isReadWrite = true)
    (hbank : config.HasBank cmd.bankIndex) (he : e ∈ t.issued) (hcl : ClosesBank cmd.bankIndex e) :
    config.Apart e (clk, cmd) := by
  have hrank := CommandType.isRankCMD_of_isReadWrite hcol
  obtain ⟨hopen, _⟩ := ChannelState.opened_of_ready hcol h.2.2
  obtain ⟨before, after, hsplit⟩ := List.append_of_mem he
  obtain ⟨e₁, he₁, hop⟩ : ∃ e₁ ∈ after, OpensBank cmd.bankIndex e₁ := by
    by_contra hnone
    have hafter : ∀ e₁ ∈ after, ¬ OpensBank cmd.bankIndex e₁ :=
      fun e₁ he₁ hop => hnone ⟨e₁, he₁, hop⟩
    exact hinv.closed _ hbank ⟨before, e, after, hsplit, hcl, hafter⟩ hopen
  have hmem₁ : e₁ ∈ t.issued := by
    rw [hsplit]
    exact List.mem_append_right _ (List.mem_cons_of_mem _ he₁)
  have hdist := hinv.timing.distance
  rw [hsplit, List.pairwise_append] at hdist
  have hclosed : (e.1 : Int) + config.closedGap e.2.isWrite ≤ e₁.1 := by
    have hreach : config.Reaches e₁.2 cmd.bankIndex := by
      rw [← hop.2]
      exact Config.reaches_bankIndex (by rw [Command.isRankCMD, hop.1]; rfl)
    refine (List.pairwise_cons.mp hdist.2.1).1 e₁ he₁ _ hbank hreach _ ?_
    rw [hop.1]
    exact closedGap_mem hcl
  have hopened : (e₁.1 : Int) + config.openedGap cmd.isWrite ≤ clk :=
    hinv.timing.keepsDistance h e₁ hmem₁ _ hbank (Config.reaches_bankIndex hrank) _
      (openedGap_mem hop hcol)
  have hpath := hfit.le_path e.2.isWrite cmd.isWrite
  intro _ _
  simp only [Config.burstStart]
  omega

/-- The burst of a column command starts after all earlier ones. -/
theorem BurstInvariant.apart_new (hfit : config.BurstsFit) (hinv : BurstInvariant config t)
    (h : t.Issues config req clk cmd) (he : e ∈ t.issued) : config.Apart e (clk, cmd) := by
  intro hcol (hcol' : cmd.isReadWrite = true)
  obtain rfl := ChannelState.eq_of_isReadWrite h.2.2 hcol'
  have hrank : req.isRankCMD = false := CommandType.isRankCMD_of_isReadWrite hcol'
  have hbank : config.HasBank req.bankIndex := by
    simpa [Config.Request, hrank] using h.1.2
  by_cases hcl : ClosesBank req.bankIndex e
  · exact hinv.apart_of_closed hfit h hcol' hbank he hcl hcol hcol'
  · have hkeep : req.bankIndex = e.2.bankIndex → e.2.cmdType.keepsRow = true := by
      intro hsame
      by_contra hnot
      exact hcl ⟨hcol, by simpa using hnot, hsame.symm⟩
    have hmem := config.columnGap_mem_governing hcol hcol' hkeep
    have hle : (e.1 : Int) + _ ≤ clk :=
      hinv.timing.keepsDistance h e he _ hbank (Config.reaches_bankIndex hrank) _ hmem
    have hgap := hfit.le_columnGap (e.2.addr.position req.bankIndex) e.2.isWrite req.isWrite
    simp only [Config.burstStart]
    omega

/-- A bank that is closed is only opened by an activate. -/
theorem BurstInvariant.closed_step {s' : ChannelState} (hinv : BurstInvariant config t)
    (hreq : req.cmdType.isPimColumn = false) (h : t.Issues config req clk cmd)
    (hupd : t.channel.updateTimingAndStates config (Timing.ofConfig config) cmd clk = .ok s')
    (hix : config.HasBank ix)
    (hsince : Since (ClosesBank ix) (OpensBank ix) (t.issued ++ [(clk, cmd)])) :
    (s'.bankStates ix).state ≠ .opened := by
  rcases Library.since_append.mp hsince with ⟨hcol, hkeep, rfl⟩ | ⟨hold, hno⟩
  · rw [ChannelState.closed_of_column hupd hcol hkeep hix]
    exact BankState.State.noConfusion
  · have hstate := hinv.closed ix hix hold
    obtain ⟨s₁, hs₁, rfl⟩ := ChannelState.updateTimingAndStates_spec hupd
    rw [ChannelState.updateTiming_bankStates hix, BankState.updateTimings_state]
    by_cases hreach : config.Reaches cmd ix
    · rcases BankState.updateState_cases (hs₁.taken ix hreach) with
        ⟨hs, _⟩ | ⟨hs, ⟨_, hb⟩ | ⟨hty, hb⟩ | ⟨_, hb⟩⟩ | ⟨_, _, hb⟩
      · exact absurd hs hstate
      · rw [hb]
        exact hstate
      · have hdue := (ChannelState.getReadyCommand_spec h.2.2).due hinv.timing.uniform h.1 hreach
        have hact : cmd.cmdType = .activate :=
          CommandType.eq_activate_of_ne hty fun he =>
            BankState.requiredType_ne_pimActivate hreq (he ▸ hdue.1)
        rw [Config.Reaches, Command.isRankCMD, hact] at hreach
        exact absurd ⟨hact, hreach.symm⟩ hno
      · rw [hb]
        exact BankState.State.noConfusion
      · rw [hb]
        exact BankState.State.noConfusion
    · rw [hs₁.kept ix hreach]
      exact hstate

theorem BurstInvariant.step (hfit : config.BurstsFit) {t' : ChannelTrace} {a : ChannelAction}
    (hinv : BurstInvariant config t) (h : (ordinaryChannelSystem config).step t a t') :
    BurstInvariant config t' := by
  obtain ⟨hstep, hord⟩ := h
  refine ⟨hinv.timing.step hstep, ?_, ?_⟩ <;> cases a
  case refine_1.command req clk =>
    obtain ⟨cmd, hissue, hupd, hiss⟩ := hstep
    intro ix hix hsince
    rw [hiss] at hsince
    exact hinv.closed_step hord hissue hupd hix hsince
  case refine_1.environment =>
    rw [hstep.1.bankStates, hstep.2]
    exact hinv.closed
  case refine_2.command req clk =>
    obtain ⟨cmd, hissue, _, hiss⟩ := hstep
    rw [hiss, List.pairwise_append]
    refine ⟨hinv.apart, List.pairwise_singleton _ _, fun e he e' he' => ?_⟩
    rw [List.mem_singleton] at he'
    exact he' ▸ hinv.apart_new hfit hissue he
  case refine_2.environment =>
    rw [hstep.2]
    exact hinv.apart

/-- In every run without PIM commands each burst starts after those before it. -/
theorem apart_of_run (hfit : config.BurstsFit) {actions : List ChannelAction}
    (h : (ordinaryChannelSystem config).Run actions t) : t.issued.Pairwise config.Apart :=
  (h.invariant (BurstInvariant config) (BurstInvariant.init config)
    fun _ _ _ hinv hstep => hinv.step hfit hstep).apart

end Dramsim
