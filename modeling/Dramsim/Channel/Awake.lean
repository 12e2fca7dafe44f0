import Dramsim.Channel.Runs
import Dramsim.Queue.Selection

/-!
# Channels that are never put to sleep

Without self refresh every bank is open or closed.  Such a channel answers every
request, and takes every command that answers one.
-/

namespace Dramsim

/-- The exits of `BankState::GetReadyCommand` and `BankState::UpdateState`. -/
def Exit.OfBank (e : Exit) : Prop := e.OfRequest ∨ e = .illegalUpdate

instance (e : Exit) : Decidable e.OfBank :=
  inferInstanceAs (Decidable ((e = .unknownType ∨ e = .unknownState) ∨ e = .illegalUpdate))

/-- The bank is open or closed. -/
def BankState.Awake (b : BankState) : Prop := b.state = .opened ∨ b.state = .closed

namespace BankState

theorem Awake.exists_requiredType {b : BankState} {req : Command} (h : b.Awake)
    (hreq : req.cmdType.isRequest = true) : ∃ ty, b.requiredType req = .ok ty := by
  unfold requiredType
  rcases h with hs | hs <;> rw [hs]
  · by_cases hrow : req.addr.row = b.openRow <;> cases hty : req.cmdType <;> rw [hty] at hreq <;>
      first | exact ⟨_, if_pos hrow⟩ | exact ⟨_, if_neg hrow⟩ | exact ⟨_, rfl⟩ | cases hreq
  · cases hty : req.cmdType <;> rw [hty] at hreq <;> first | exact ⟨_, rfl⟩ | cases hreq

theorem Awake.exists_getReadyCommand {b : BankState} {req : Command} (h : b.Awake)
    (hreq : req.cmdType.isRequest = true) (clk : Nat) :
    ∃ ready, b.getReadyCommand req clk = .ok ready := by
  obtain ⟨ty, hty⟩ := h.exists_requiredType hreq
  rw [getReadyCommand, hty]
  dsimp only [bind, Except.bind]
  split <;> exact ⟨_, rfl⟩

/-- Only `SREF_ENTER` puts a bank to sleep. -/
theorem awake_of_updateState {b b' : BankState} {cmd : Command}
    (h : b.updateState cmd = .ok b') (hcmd : cmd.cmdType ≠ .srefEnter) : b'.Awake := by
  rcases updateState_cases h with ⟨hs, ⟨_, rfl⟩ | ⟨_, rfl⟩⟩ |
    ⟨hs, ⟨_, rfl⟩ | ⟨_, rfl⟩ | ⟨hty, _⟩⟩ | ⟨_, _, rfl⟩
  · exact .inl hs
  · exact .inr rfl
  · exact .inr hs
  · exact .inl rfl
  · exact absurd hty hcmd
  · exact .inr rfl

end BankState

namespace ChannelState

variable {config : Config} {s s' : ChannelState} {req cmd : Command} {clk : Nat}

/-- Every bank is open or closed. -/
def Awake (s : ChannelState) : Prop := ∀ ix, (s.bankStates ix).Awake

theorem rankReadyCommand_of_awake (hreq : req.cmdType.isRequest = true) :
    ∀ (l : List BankIndex) (numReady : Nat) (last : Option Command),
      (∀ ix ∈ l, (s.bankStates ix).Awake) →
      ∃ ready, rankReadyCommand config s req clk l numReady last = .ok ready
  | [], numReady, last, _ => by
      unfold rankReadyCommand
      split <;> exact ⟨_, rfl⟩
  | ix :: l, numReady, last, h => by
      obtain ⟨hix, hl⟩ := List.forall_mem_cons.mp h
      obtain ⟨answer, hanswer⟩ := hix.exists_getReadyCommand hreq clk
      rw [rankReadyCommand, hanswer]
      cases answer with
      | none => exact rankReadyCommand_of_awake hreq l _ _ hl
      | some ready =>
          dsimp only [bind, Except.bind]
          split
          · exact ⟨_, rfl⟩
          · exact rankReadyCommand_of_awake hreq l _ _ hl

/-- The channel answers a request for one bank if the bank does. -/
theorem exists_getReadyCommand_of_bank (hrank : req.isRankCMD = false)
    (h : ∃ ready, (s.bankStates req.bankIndex).getReadyCommand req clk = .ok ready) :
    ∃ ready, s.getReadyCommand config req clk = .ok ready := by
  obtain ⟨answer, hanswer⟩ := h
  rw [getReadyCommand, hrank, if_neg Bool.false_ne_true, hanswer]
  cases answer with
  | none => exact ⟨_, rfl⟩
  | some ready =>
      dsimp only [bind, Except.bind]
      split <;> exact ⟨_, rfl⟩

/-- A request is answered if the banks that it goes to are awake. -/
theorem exists_getReadyCommand_of_awake (hreq : req.cmdType.isRequest = true)
    (h : ∀ ix, config.Reaches req ix → (s.bankStates ix).Awake) (clk : Nat) :
    ∃ ready, s.getReadyCommand config req clk = .ok ready := by
  unfold Config.Reaches at h
  cases hrank : req.isRankCMD with
  | true =>
      rw [getReadyCommand, if_pos hrank]
      simp only [hrank, if_true] at h
      exact rankReadyCommand_of_awake hreq _ _ _ h
  | false =>
      simp only [hrank, Bool.false_eq_true, if_false] at h
      exact exists_getReadyCommand_of_bank hrank ((h _ rfl).exists_getReadyCommand hreq clk)

/-- A channel that is awake answers every request. -/
theorem Awake.exists_getReadyCommand (h : s.Awake) (hreq : req.cmdType.isRequest = true)
    (config : Config) (clk : Nat) : ∃ ready, s.getReadyCommand config req clk = .ok ready :=
  exists_getReadyCommand_of_awake hreq (fun ix _ => h ix) clk

/-- Every request of a queue is answered. -/
def ServesColumns (config : Config) (s : ChannelState) : Prop :=
  ∀ (req : Command) (clk : Nat), req.isReadWrite = true →
    ∃ ready, s.getReadyCommand config req clk = .ok ready

theorem Awake.servesColumns (h : s.Awake) (config : Config) : s.ServesColumns config := by
  intro req clk hcol
  refine h.exists_getReadyCommand ?_ config clk
  rw [CommandType.isRequest, CommandType.isColumn_of_isReadWrite hcol, Bool.true_or]

/-- Every bank that an answer goes to takes it. -/
theorem Answered.taken (h : Answered config s req clk cmd) (hs : s.Awake) {ix : BankIndex}
    (hix : config.Reaches cmd ix) : ∃ b, (s.bankStates ix).updateState cmd = .ok b := by
  cases h with
  | wholeRank hrank hall =>
      rw [Config.Reaches, if_pos hrank] at hix
      exact BankState.updateState_of_requiredType (hall ix hix).1
  | @bankOfRank ready ix' hrank hmem hdue hne haddr =>
      -- the answer is the `PRECHARGE` of an open bank
      rcases BankState.requiredType_of_isRankCMD hdue.1 hrank with ⟨_, hty⟩ | ⟨_, hty⟩
      · exact absurd hty hne
      · have hsingle : cmd.isRankCMD = false := by rw [Command.isRankCMD, hty]; rfl
        rw [Config.Reaches, hsingle, if_neg (by simp)] at hix
        have hbank : ix = ix' := by
          rw [hix, Command.bankIndex, haddr]
          obtain ⟨hr, _⟩ := Config.mem_rankBanks.mp hmem
          cases ix'
          simp only at hr
          simp [Address.bankIndex, hr]
        exact BankState.updateState_of_requiredType (hbank ▸ hdue.1)
  | bank hrank hdue haddr _ _ =>
      have hsingle : cmd.isRankCMD = false := by
        rw [Bool.eq_false_iff]
        intro hrank'
        obtain ⟨hsref, _⟩ := BankState.requiredType_isRankCMD hdue.1 hrank hrank'
        rcases hs req.bankIndex with hs | hs <;> rw [hsref] at hs <;> cases hs
      rw [Config.Reaches, hsingle, if_neg (by simp)] at hix
      rw [hix, Command.bankIndex, haddr]
      exact BankState.updateState_of_requiredType hdue.1

theorem updateTiming_state (timing : Timing) (ix : BankIndex) :
    ((s.updateTiming config timing cmd clk).bankStates ix).state = (s.bankStates ix).state :=
  updateTiming_keeps BankState.updateTimings_state config timing s cmd clk ix

/-- A command that its banks take is carried out. -/
theorem exists_updateTimingAndStates (timing : Timing) (clk : Nat)
    (h : ∀ ix, config.Reaches cmd ix → ∃ b, (s.bankStates ix).updateState cmd = .ok b) :
    ∃ s', s.updateTimingAndStates config timing cmd clk = .ok s' := by
  obtain ⟨s₁, hs₁⟩ := exists_updateState h
  exact ⟨_, Library.bind_eq_ok.mpr ⟨s₁, hs₁, rfl⟩⟩

theorem state_of_not_reaches {timing : Timing} {ix : BankIndex}
    (h : s.updateTimingAndStates config timing cmd clk = .ok s') (hix : ¬ config.Reaches cmd ix) :
    (s'.bankStates ix).state = (s.bankStates ix).state := by
  obtain ⟨s₁, hs₁, rfl⟩ := updateTimingAndStates_spec h
  rw [updateTiming_state, hs₁.kept ix hix]

theorem Awake.update {timing : Timing} (hs : s.Awake) (hcmd : cmd.cmdType ≠ .srefEnter)
    (h : s.updateTimingAndStates config timing cmd clk = .ok s') : s'.Awake := by
  intro ix
  obtain ⟨s₁, hs₁, rfl⟩ := updateTimingAndStates_spec h
  unfold BankState.Awake
  rw [updateTiming_state]
  by_cases hix : config.Reaches cmd ix
  · exact BankState.awake_of_updateState (hs₁.taken ix hix) hcmd
  · rw [hs₁.kept ix hix]
    exact hs ix

end ChannelState

end Dramsim
