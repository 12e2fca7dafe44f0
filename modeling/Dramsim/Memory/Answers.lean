import Dramsim.Channel.Updates
import Dramsim.Library.Stretch
import Dramsim.Memory.Cuts

/-!
# Answers of the controllers

The stages of the scheduler ask for PIM column commands.  A bank answers with the
command itself, or with the one that has to come before it.  `gather_spec` and
`gatherInputs_spec` say what the loops of the stages make of the answers.
-/

namespace Dramsim

/-- How a bank answers a PIM column command. -/
inductive BankState.AnswersPim (b : BankState) (cmd : Command) : CommandType → Prop where
  | activate : b.state = .closed → AnswersPim b cmd .pimActivate
  | hit : b.state = .opened → cmd.addr.row = b.openRow → AnswersPim b cmd cmd.cmdType
  | conflict : b.state = .opened → cmd.addr.row ≠ b.openRow → AnswersPim b cmd .precharge
  | asleep : b.state = .sref → AnswersPim b cmd .srefExit

theorem CommandType.isRankCMD_of_isPimColumn {ty : CommandType} (h : ty.isPimColumn = true) :
    ty.isRankCMD = false := by
  cases ty <;> first | rfl | cases h

theorem BankState.answersPim {b : BankState} {cmd : Command} {ty : CommandType}
    (hpim : cmd.cmdType.isPimColumn = true) (h : b.requiredType cmd = .ok ty) :
    b.AnswersPim cmd ty := by
  have hrw : cmd.isReadWrite = false := by
    cases hty : cmd.cmdType <;> rw [hty] at hpim <;>
      simp [Command.isReadWrite, hty, CommandType.isPimColumn, CommandType.isReadWrite,
        CommandType.isRead, CommandType.isWrite] at hpim ⊢
  have hmaint : cmd.cmdType.isMaintenance = false := by
    cases hty : cmd.cmdType <;> rw [hty] at hpim <;>
      simp [CommandType.isPimColumn, CommandType.isMaintenance] at hpim ⊢
  rcases requiredType_cases h with ⟨hs, hc⟩ | ⟨hs, ho⟩ | ⟨hs, _, rfl⟩
  · rcases hc with ⟨hrw', _⟩ | ⟨_, rfl⟩ | ⟨hm, _⟩
    · rw [hrw] at hrw'
      cases hrw'
    · exact .activate hs
    · rw [hmaint] at hm
      cases hm
  · rcases ho with ⟨_, hrow, rfl⟩ | ⟨_, hrow, rfl⟩ | ⟨hm, _⟩
    · exact .hit hs hrow
    · exact .conflict hs hrow
    · rw [hmaint] at hm
      cases hm
  · exact .asleep hs

/-- A PIM column command is answered for its own bank. -/
theorem ChannelState.answersPim {config : Config} {ch : ChannelState} {cmd ready : Command}
    {clk : Nat} (hpim : cmd.cmdType.isPimColumn = true)
    (h : ch.getReadyCommand config cmd clk = .ok (some ready)) :
    ready.addr = cmd.addr ∧ ready.hexAddr = cmd.hexAddr ∧
      (ch.bankStates cmd.bankIndex).AnswersPim cmd ready.cmdType ∧
      (ch.bankStates cmd.bankIndex).cmdTiming ready.cmdType ≤ clk := by
  have hrank := CommandType.isRankCMD_of_isPimColumn hpim
  cases getReadyCommand_spec h with
  | wholeRank hr _ =>
      rw [Command.isRankCMD, hrank] at hr
      cases hr
  | bankOfRank hr _ _ _ _ =>
      rw [Command.isRankCMD, hrank] at hr
      cases hr
  | bank _ hdue haddr hhex _ => exact ⟨haddr, hhex, BankState.answersPim hpim hdue.1, hdue.2⟩

namespace JedecDRAMSystem

variable {config : Config} {s : JedecDRAMSystem config} {cmd ready : Command}

/-- The answer of a controller, if there is one. -/
def answer (s : JedecDRAMSystem config) (cmd : Command) : Option Command :=
  match s.getReadyCommand cmd with
  | .ok ready => ready
  | .error _ => none

theorem answer_of_ok {ready : Option Command} (h : s.getReadyCommand cmd = .ok ready) :
    s.answer cmd = ready := by
  rw [answer, h]

/-- What an answer to a PIM column command says of its bank. -/
theorem answer_spec (hpim : cmd.cmdType.isPimColumn = true) (h : s.answer cmd = some ready) :
    ∃ ctrl, s.ctrls[cmd.addr.channel.toNat]? = some ctrl ∧ ready.addr = cmd.addr ∧
      ready.hexAddr = cmd.hexAddr ∧
      (ctrl.channelState.bankStates cmd.bankIndex).AnswersPim cmd ready.cmdType ∧
      (ctrl.channelState.bankStates cmd.bankIndex).cmdTiming ready.cmdType ≤ s.clk := by
  unfold answer getReadyCommand at h
  split at h
  · rename_i r hready
    subst h
    split at hready
    · cases hready
    · rename_i ctrl hctrl
      exact ⟨ctrl, hctrl, ChannelState.answersPim hpim hready⟩
  · cases h

/-- A PIM column command is answered by itself or by a command that prepares its bank. -/
theorem answer_cases (hpim : cmd.cmdType.isPimColumn = true) (h : s.answer cmd = some ready) :
    ready = cmd ∨ ready.cmdType = .pimActivate ∨ ready.cmdType = .precharge ∨
      ready.cmdType = .srefExit := by
  obtain ⟨ctrl, -, haddr, hhex, hans, -⟩ := answer_spec hpim h
  cases ready
  dsimp only at haddr hhex hans ⊢
  cases hans with
  | activate _ => exact .inr (.inl rfl)
  | hit _ _ => exact .inl (by rw [haddr, hhex])
  | conflict _ _ => exact .inr (.inr (.inl rfl))
  | asleep _ => exact .inr (.inr (.inr rfl))

/-- No answer is an ordinary column command. -/
theorem isReadWrite_answer (hpim : cmd.cmdType.isPimColumn = true) (h : s.answer cmd = some ready) :
    ready.isReadWrite = false := by
  unfold Command.isReadWrite
  rcases answer_cases hpim h with rfl | hty | hty | hty
  · cases hty : ready.cmdType <;> rw [hty] at hpim <;> first | rfl | cases hpim
  · rw [hty]; rfl
  · rw [hty]; rfl
  · rw [hty]; rfl

/-! ## The loops of the weight and output stages -/

/-- Every target is answered by a command of the type. -/
def AllAnswer (s : JedecDRAMSystem config) (targets : List Command) (ty : CommandType) : Prop :=
  ∀ cmd ∈ targets, ∃ ready, s.answer cmd = some ready ∧ ready.cmdType = ty

theorem AllAnswer.cons_iff {rest : List Command} {ty : CommandType} :
    s.AllAnswer (cmd :: rest) ty ↔
      (∃ ready, s.answer cmd = some ready ∧ ready.cmdType = ty) ∧ s.AllAnswer rest ty :=
  List.forall_mem_cons

/-- The loops after their first answer. -/
theorem gather_cons {first : Command} :
    ∀ {targets cmds got : List Command}, s.gather (first :: cmds) targets = .ok got →
      (got = [] ∧ ¬ s.AllAnswer targets first.cmdType) ∨
        (got = first :: cmds ++ targets.filterMap s.answer ∧ s.AllAnswer targets first.cmdType)
  | [], cmds, got, h => by
      refine .inr ⟨?_, List.forall_mem_nil _⟩
      rw [gather] at h
      cases h
      simp
  | cmd :: rest, cmds, got, h => by
      rw [gather] at h
      obtain ⟨ready, hready, h⟩ := Library.bind_eq_ok.mp h
      have hanswer := answer_of_ok hready
      cases ready with
      | none =>
          cases h
          refine .inl ⟨rfl, fun hall => ?_⟩
          obtain ⟨r, hr, -⟩ := (AllAnswer.cons_iff.mp hall).1
          rw [hanswer] at hr
          cases hr
      | some r =>
          dsimp only at h
          split at h
          · rename_i hne
            cases h
            refine .inl ⟨rfl, fun hall => ?_⟩
            obtain ⟨r', hr', hty⟩ := (AllAnswer.cons_iff.mp hall).1
            rw [hanswer] at hr'
            cases hr'
            simp [hty] at hne
          · rename_i heq
            have hty : first.cmdType = r.cmdType := by simpa using heq
            rw [AllAnswer.cons_iff, List.filterMap_cons_some hanswer]
            have hhead : (∃ ready, s.answer cmd = some ready ∧ ready.cmdType = first.cmdType) :=
              ⟨r, hanswer, hty.symm⟩
            rcases gather_cons h with ⟨rfl, hnot⟩ | ⟨rfl, hall⟩
            · exact .inl ⟨rfl, fun hboth => hnot hboth.2⟩
            · exact .inr ⟨by simp, hhead, hall⟩

/-- The loops gather all answers, if there are any and all are of one type. -/
theorem gather_spec {targets got : List Command} (h : s.gather [] targets = .ok got) :
    (got = [] ∧ (targets = [] ∨ ∀ ty, ¬ s.AllAnswer targets ty)) ∨
      ∃ first rest ty, got = first :: rest ∧ first.cmdType = ty ∧ targets ≠ [] ∧
        s.AllAnswer targets ty ∧ got = targets.filterMap s.answer := by
  cases targets with
  | nil =>
      cases h
      exact .inl ⟨rfl, .inl rfl⟩
  | cons cmd rest =>
      rw [gather] at h
      obtain ⟨ready, hready, h⟩ := Library.bind_eq_ok.mp h
      have hanswer := answer_of_ok hready
      cases ready with
      | none =>
          cases h
          refine .inl ⟨rfl, .inr fun ty hall => ?_⟩
          obtain ⟨r, hr, -⟩ := (AllAnswer.cons_iff.mp hall).1
          rw [hanswer] at hr
          cases hr
      | some r =>
          dsimp only at h
          rw [if_neg (by simp)] at h
          rcases gather_cons h with ⟨rfl, hnot⟩ | ⟨rfl, hall⟩
          · refine .inl ⟨rfl, .inr fun ty hall => ?_⟩
            obtain ⟨⟨r', hr', hty⟩, hrest⟩ := AllAnswer.cons_iff.mp hall
            rw [hanswer] at hr'
            cases hr'
            exact hnot (hty ▸ hrest)
          · refine .inr ⟨r, _, _, rfl, rfl, by simp, ?_, ?_⟩
            · exact AllAnswer.cons_iff.mpr ⟨⟨r, hanswer, rfl⟩, hall⟩
            · rw [List.filterMap_cons_some hanswer]
              rfl

/-! ## The loops of the streaming stage -/

/-- The answers that the loop over the banks of a channel gets. -/
def asked (s : JedecDRAMSystem config) : List Command → List (Option Command)
  | [] => []
  | cmd :: rest =>
      match s.answer cmd with
      | none => [none]
      | some ready => some ready :: asked s rest

/-- The answers that the loops of the streaming stage get. -/
def askedAll (s : JedecDRAMSystem config) (targets : List (List Command)) :
    List (Option Command) :=
  targets.flatMap s.asked

theorem exists_target_of_asked {targets : List (List Command)} (h : some cmd ∈ s.askedAll targets) :
    ∃ target ∈ targets.flatten, s.answer target = some cmd := by
  obtain ⟨row, hrow, h⟩ := List.mem_flatMap.mp h
  have hasked : ∀ row : List Command, some cmd ∈ s.asked row →
      ∃ target ∈ row, s.answer target = some cmd := by
    intro row h
    induction row with
    | nil => cases h
    | cons target rest ih =>
        rw [asked] at h
        cases hans : s.answer target with
        | none =>
            rw [hans] at h
            simp at h
        | some ready =>
            rw [hans] at h
            rcases List.mem_cons.mp h with hsame | h
            · cases hsame
              exact ⟨target, List.mem_cons_self .., hans⟩
            · obtain ⟨t, ht, hans'⟩ := ih h
              exact ⟨t, List.mem_cons_of_mem _ ht, hans'⟩
  obtain ⟨target, htarget, hans⟩ := hasked row h
  exact ⟨target, List.mem_flatten.mpr ⟨row, hrow, htarget⟩, hans⟩

theorem gatherBanks_spec :
    ∀ {targets : List Command} {acc got : List Command × Bool},
      s.gatherBanks targets acc = .ok got →
        got = (s.asked targets).foldl (Library.Stretch.take Command.cmdType) acc
  | [], acc, got, h => by
      cases h
      rfl
  | cmd :: rest, (cmds, mixed), got, h => by
      rw [gatherBanks] at h
      obtain ⟨ready, hready, h⟩ := Library.bind_eq_ok.mp h
      have hanswer := answer_of_ok hready
      cases ready with
      | none =>
          cases h
          simp [asked, hanswer, Library.Stretch.take]
      | some r =>
          have hrest := gatherBanks_spec h
          rw [hrest]
          simp [asked, hanswer, Library.Stretch.take]

theorem gatherInputs_spec {targets : List (List Command)} {got : List Command × Bool}
    (h : s.gatherInputs targets = .ok got) :
    got = (s.askedAll targets).foldl (Library.Stretch.take Command.cmdType) ([], false) := by
  unfold gatherInputs at h
  unfold askedAll
  generalize (([], false) : List Command × Bool) = acc at h ⊢
  induction targets generalizing acc with
  | nil =>
      cases h
      rfl
  | cons row rows ih =>
      rw [List.foldlM_cons] at h
      obtain ⟨acc', hacc', h⟩ := Library.bind_eq_ok.mp h
      rw [List.flatMap_cons, List.foldl_append, ← gatherBanks_spec hacc']
      exact ih acc' h

end JedecDRAMSystem

end Dramsim
