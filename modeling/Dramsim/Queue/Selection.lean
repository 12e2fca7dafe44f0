import Dramsim.Channel.Updates
import Dramsim.Library.Outcome
import Dramsim.Model.CommandQueue

/-!
# What the command queues select

A selected command is the answer to an entry of some queue.  A column command is
that entry itself and leaves its queue; the answer to another entry changes
nothing.  `getCommandToIssue_ensures` says so together with the only ways in which
the selection can end the process.
-/

namespace Dramsim

/-- The exits that a request can run into before any command is issued. -/
def Exit.OfRequest (e : Exit) : Prop := e = .unknownType ∨ e = .unknownState

theorem BankState.requiredType_error {b : BankState} {cmd : Command} {e : Exit}
    (h : b.requiredType cmd = .error e) : e.OfRequest := by
  unfold requiredType at h
  cases hs : b.state <;> rw [hs] at h
  case pd =>
    cases h
    exact Or.inr rfl
  all_goals
    cases hty : cmd.cmdType <;> rw [hty] at h <;> simp at h <;>
      first
        | exact Or.inl h.symm
        | (split at h <;> cases h)

theorem BankState.getReadyCommand_ensures (b : BankState) (cmd : Command) (clk : Nat) :
    Library.Ensures (b.getReadyCommand cmd clk) (fun _ => True) Exit.OfRequest := by
  refine Library.Ensures.bind (P := fun _ => True) ?_ ?_
  · exact .of_cases (fun _ _ => trivial) (fun e he => requiredType_error he)
  · intro ty _
    split <;> exact trivial

namespace ChannelState

theorem rankReadyCommand_ensures (config : Config) (s : ChannelState) (cmd : Command) (clk : Nat) :
    ∀ (l : List BankIndex) (numReady : Nat) (last : Option Command),
      Library.Ensures (rankReadyCommand config s cmd clk l numReady last) (fun _ => True)
        Exit.OfRequest
  | [], numReady, last => by
      unfold rankReadyCommand
      split <;> exact trivial
  | ix :: l, numReady, last => by
      refine Library.Ensures.bind (BankState.getReadyCommand_ensures _ cmd clk) ?_
      intro answer _
      cases answer with
      | none => exact rankReadyCommand_ensures config s cmd clk l _ _
      | some ready =>
          dsimp only
          split
          · exact trivial
          · exact rankReadyCommand_ensures config s cmd clk l _ _

/-- A request either is answered, or is for a type that the state of a bank does
not know. -/
theorem getReadyCommand_ensures (config : Config) (s : ChannelState) (cmd : Command) (clk : Nat) :
    Library.Ensures (s.getReadyCommand config cmd clk)
      (fun r => s.getReadyCommand config cmd clk = .ok r) Exit.OfRequest := by
  refine .of_cases (fun _ hr => hr) (fun e he => ?_)
  have hsome : Library.Ensures (s.getReadyCommand config cmd clk) (fun _ => True)
      Exit.OfRequest := by
    unfold getReadyCommand
    split
    · exact rankReadyCommand_ensures config s cmd clk _ _ _
    · refine Library.Ensures.bind (BankState.getReadyCommand_ensures _ cmd clk) ?_
      intro answer _
      cases answer with
      | none => exact trivial
      | some ready =>
          dsimp only
          split <;> exact trivial
  exact hsome.of_error he

/-- A column command is only answered by itself. -/
theorem eq_of_isReadWrite {config : Config} {s : ChannelState} {req cmd : Command} {clk : Nat}
    (h : s.getReadyCommand config req clk = .ok (some cmd)) (hcmd : cmd.isReadWrite = true) :
    req = cmd := by
  have hcol := CommandType.isColumn_of_isReadWrite hcmd
  cases getReadyCommand_spec h with
  | wholeRank => rfl
  | bankOfRank hrank _ hdue hne _ =>
      rcases BankState.requiredType_of_isRankCMD hdue.1 hrank with ⟨_, hty⟩ | ⟨_, hty⟩
      · exact absurd hty hne
      · rw [hty] at hcol
        cases hcol
  | bank _ hdue haddr hhex _ =>
      have hty : cmd.cmdType = req.cmdType := by
        rcases BankState.requiredType_cases hdue.1 with ⟨_, hc⟩ | ⟨_, ho⟩ | ⟨_, _, hty⟩
        · rcases hc with ⟨_, hty⟩ | ⟨_, hty⟩ | ⟨_, hty⟩
          · rw [hty] at hcol
            cases hcol
          · rw [hty] at hcol
            cases hcol
          · exact hty
        · rcases ho with ⟨_, _, hty⟩ | ⟨_, _, hty⟩ | ⟨_, hty⟩
          · exact hty
          · rw [hty] at hcol
            cases hcol
          · rw [hty] at hcol
            cases hcol
        · rw [hty] at hcol
          cases hcol
      cases req
      cases cmd
      simp only at hty haddr hhex
      rw [hty, haddr, hhex]

/-- A column command that is ready finds its row open. -/
theorem opened_of_ready {config : Config} {s : ChannelState} {cmd : Command} {clk : Nat}
    (hcol : cmd.isReadWrite = true) (h : s.getReadyCommand config cmd clk = .ok (some cmd)) :
    (s.bankStates cmd.bankIndex).state = .opened ∧
      (s.bankStates cmd.bankIndex).cmdTiming cmd.cmdType ≤ clk := by
  cases getReadyCommand_spec h with
  | wholeRank hrank =>
      cases hty : cmd.cmdType <;>
        simp [Command.isRankCMD, Command.isReadWrite, hty, CommandType.isRankCMD,
          CommandType.isReadWrite, CommandType.isRead, CommandType.isWrite] at hrank hcol
  | bankOfRank _ _ _ hne _ => exact absurd rfl hne
  | bank _ hdue _ _ _ =>
      refine ⟨?_, hdue.2⟩
      rcases BankState.requiredType_cases hdue.1 with ⟨_, hc⟩ | ⟨ho, _⟩ | ⟨_, _, hty⟩
      · rcases hc with ⟨_, hty⟩ | ⟨_, hty⟩ | ⟨hm, _⟩
        · rw [Command.isReadWrite, hty] at hcol
          cases hcol
        · rw [Command.isReadWrite, hty] at hcol
          cases hcol
        · cases hty : cmd.cmdType <;>
            simp [Command.isReadWrite, hty, CommandType.isMaintenance, CommandType.isReadWrite,
              CommandType.isRead, CommandType.isWrite] at hm hcol
      · exact ho
      · rw [Command.isReadWrite, hty] at hcol
        cases hcol

end ChannelState

namespace CommandQueue

variable {config : Config} {q q' : CommandQueue config} {cmd : Command} {channel : ChannelState}

/-! ## Filling a queue -/

/-- An accepted command goes to the end of the queue of its bank. -/
theorem addCommand_queues (h : q.willAcceptCommand cmd.addr = true) :
    (q.addCommand cmd).queues = Function.update q.queues (config.queueOf cmd.addr)
      (q.queues (config.queueOf cmd.addr) ++ [cmd]) := by
  unfold addCommand
  rw [willAcceptCommand, decide_eq_true_eq] at h
  rw [if_pos h]

theorem addCommand_rankQEmpty (h : q.willAcceptCommand cmd.addr = true) :
    (q.addCommand cmd).rankQEmpty = Function.update q.rankQEmpty cmd.addr.rank false := by
  unfold addCommand
  rw [willAcceptCommand, decide_eq_true_eq] at h
  rw [if_pos h]

theorem addCommand_of_full (h : ¬ q.willAcceptCommand cmd.addr = true) : q.addCommand cmd = q := by
  rw [willAcceptCommand, decide_eq_true_eq] at h
  exact if_neg h

theorem mem_addCommand_queues {c : Command} {i : Nat} (h : c ∈ (q.addCommand cmd).queues i) :
    c ∈ q.queues i ∨ (c = cmd ∧ i = config.queueOf cmd.addr) := by
  by_cases hacc : q.willAcceptCommand cmd.addr = true
  · rw [addCommand_queues hacc] at h
    by_cases hi : i = config.queueOf cmd.addr
    · subst hi
      rw [Function.update_self] at h
      exact (List.mem_append.mp h).imp_right fun hc => ⟨List.mem_singleton.mp hc, rfl⟩
    · rw [Function.update_of_ne hi] at h
      exact Or.inl h
  · rw [addCommand_of_full hacc] at h
    exact Or.inl h

@[simp] theorem addCommand_clk (q : CommandQueue config) (cmd : Command) :
    (q.addCommand cmd).clk = q.clk := by
  unfold addCommand
  dsimp only
  split <;> rfl

/-! ## The first ready command of a queue -/

/-- The entry that a queue yields a command for, with the entries before and after
it. -/
structure Yields (config : Config) (channel : ChannelState) (clk : Nat) (queue : List Command)
    (cmd : Command) (before : List Command) (entry : Command) (after : List Command) : Prop where
  split : queue = before ++ entry :: after
  answer : channel.getReadyCommand config entry clk = .ok (some cmd)
  precharge : cmd.cmdType = .precharge →
    arbitratePrecharge channel before entry (entry :: after) = true
  write : cmd.isWrite = true → hasRWDependency before entry = false

theorem firstReadyFrom_ensures (config : Config) (channel : ChannelState) (clk : Nat) :
    ∀ before rest : List Command,
      Library.Ensures (firstReadyFrom config channel clk before rest)
        (fun r => ∀ cmd, r = some cmd → ∃ pre entry post,
          Yields config channel clk (before ++ rest) cmd pre entry post)
        Exit.OfRequest
  | before, [] => fun cmd hcmd => by cases hcmd
  | before, entry :: rest => by
      have hskip := firstReadyFrom_ensures config channel clk (before ++ [entry]) rest
      rw [List.append_assoc, List.singleton_append] at hskip
      refine Library.Ensures.bind (channel.getReadyCommand_ensures config entry clk) ?_
      intro answer hanswer
      cases answer with
      | none => exact hskip
      | some cmd =>
          have hyields : (cmd.cmdType = .precharge →
              arbitratePrecharge channel before entry (entry :: rest) = true) →
              (cmd.isWrite = true → hasRWDependency before entry = false) →
              ∀ c, some cmd = some c → ∃ pre entry' post,
                Yields config channel clk (before ++ entry :: rest) c pre entry' post := by
            intro hpre hwrite c hc
            cases hc
            exact ⟨before, entry, rest, rfl, hanswer, hpre, hwrite⟩
          dsimp only
          by_cases hty : cmd.cmdType = .precharge
          · rw [if_pos hty]
            have hnot : cmd.isWrite = false := by rw [Command.isWrite, hty]; rfl
            split
            · rename_i harb
              exact hyields (fun _ => harb) (fun hw => by rw [hnot] at hw; cases hw)
            · exact hskip
          · rw [if_neg hty]
            split
            · split
              · exact hskip
              · rename_i hdep
                exact hyields (fun he => absurd he hty) (fun _ => by simpa using hdep)
            · rename_i hnot
              exact hyields (fun he => absurd he hty) (fun hw => absurd hw hnot)

/-- A queue yields the answer to one of its entries. -/
theorem getFirstReadyInQueue_spec {clk : Nat} {queue : List Command}
    (h : getFirstReadyInQueue config channel clk queue = .ok (some cmd)) :
    ∃ pre entry post, Yields config channel clk queue cmd pre entry post := by
  have hspec := firstReadyFrom_ensures config channel clk [] queue
  exact (hspec.of_ok h) cmd rfl

/-! ## The next command of all queues -/

/-- The queues hold the same commands. -/
structure SameQueues (q q' : CommandQueue config) : Prop where
  queues : q'.queues = q.queues
  rankQEmpty : q'.rankQEmpty = q.rankQEmpty
  clk : q'.clk = q.clk

theorem SameQueues.refl (q : CommandQueue config) : SameQueues q q := ⟨rfl, rfl, rfl⟩

theorem SameQueues.trans {q'' : CommandQueue config} (h : SameQueues q q')
    (h' : SameQueues q' q'') : SameQueues q q'' :=
  ⟨h'.queues.trans h.queues, h'.rankQEmpty.trans h.rankQEmpty, h'.clk.trans h.clk⟩

/-- Some queue yields the command. -/
def Offers (channel : ChannelState) (q : CommandQueue config) (cmd : Command) : Prop :=
  ∃ i < config.numQueues,
    getFirstReadyInQueue config channel q.clk (q.queues i) = .ok (some cmd)

/-- What the selection does to the queues. -/
def Selects (channel : ChannelState) (q : CommandQueue config) (cmd : Option Command)
    (q' : CommandQueue config) : Prop :=
  match cmd with
  | none => SameQueues q q'
  | some cmd =>
      Offers channel q cmd ∧
        (cmd.isReadWrite = true → ∃ q₀, SameQueues q q₀ ∧ q₀.eraseRWCommand cmd = .ok q') ∧
        (cmd.isReadWrite = false → SameQueues q q')

/-- How the selection can end the process. -/
def SelectFails (channel : ChannelState) (q : CommandQueue config) (e : Exit) : Prop :=
  e.OfRequest ∨ ∃ cmd q₀, cmd.isReadWrite = true ∧ Offers channel q cmd ∧ SameQueues q q₀ ∧
    q₀.eraseRWCommand cmd = .error e

theorem Offers.of_same (hsame : SameQueues q q') (h : Offers channel q' cmd) :
    Offers channel q cmd := by
  obtain ⟨i, hi, hcmd⟩ := h
  rw [hsame.queues, hsame.clk] at hcmd
  exact ⟨i, hi, hcmd⟩

theorem Selects.of_same {q'' : CommandQueue config} {cmd : Option Command} (hsame : SameQueues q q')
    (h : Selects channel q' cmd q'') : Selects channel q cmd q'' := by
  cases cmd with
  | none => exact hsame.trans h
  | some cmd =>
      obtain ⟨hoff, hrw, hnot⟩ := h
      refine ⟨hoff.of_same hsame, fun hcmd => ?_, fun hcmd => hsame.trans (hnot hcmd)⟩
      obtain ⟨q₀, hq₀, her⟩ := hrw hcmd
      exact ⟨q₀, hsame.trans hq₀, her⟩

theorem SelectFails.of_same {e : Exit} (hsame : SameQueues q q') (h : SelectFails channel q' e) :
    SelectFails channel q e := by
  rcases h with he | ⟨cmd, q₀, hrw, hoff, hq₀, her⟩
  · exact Or.inl he
  · exact Or.inr ⟨cmd, q₀, hrw, hoff.of_same hsame, hsame.trans hq₀, her⟩

theorem commandFrom_ensures (channel : ChannelState) :
    ∀ (n : Nat) (q : CommandQueue config),
      Library.Ensures (commandFrom channel n q) (fun r => Selects channel q r.1 r.2)
        (SelectFails channel q)
  | 0, q => SameQueues.refl q
  | n + 1, q => by
      have hsame : SameQueues q q.getNextQueue := ⟨rfl, rfl, rfl⟩
      have hskip : Library.Ensures (commandFrom channel n q.getNextQueue)
          (fun r => Selects channel q r.1 r.2) (SelectFails channel q) :=
        (commandFrom_ensures channel n q.getNextQueue).mono
          (fun _ hr => hr.of_same hsame) (fun _ he => he.of_same hsame)
      rw [commandFrom]
      split
      · exact hskip
      · refine Library.Ensures.bind (P := fun r => getFirstReadyInQueue config channel
          q.getNextQueue.clk (q.getNextQueue.queues q.getNextQueue.queueIdx) = .ok r) ?_ ?_
        · refine .of_cases (fun _ hr => hr) (fun e he => Or.inl ?_)
          exact (firstReadyFrom_ensures config channel _ [] _).of_error he
        · intro r hr
          cases r with
          | none => exact hskip
          | some cmd =>
              have hoff : Offers channel q cmd := ⟨_, q.getNextQueue.queueIdx.isLt, hr⟩
              dsimp only
              split
              · rename_i hrw
                refine Library.Ensures.bind
                  (P := fun q' => q.getNextQueue.eraseRWCommand cmd = .ok q') ?_ ?_
                · exact .of_cases (fun _ hq' => hq')
                    (fun e he => Or.inr ⟨cmd, _, hrw, hoff, hsame, he⟩)
                · intro q' hq'
                  exact ⟨hoff, fun _ => ⟨_, hsame, hq'⟩,
                    fun hnot => by rw [hrw] at hnot; cases hnot⟩
              · rename_i hrw
                exact ⟨hoff, fun hcmd => absurd hcmd hrw, fun _ => hsame⟩

theorem getCommandToIssue_ensures (channel : ChannelState) (q : CommandQueue config) :
    Library.Ensures (q.getCommandToIssue channel) (fun r => Selects channel q r.1 r.2)
      (SelectFails channel q) :=
  commandFrom_ensures channel config.numQueues q

/-- A waiting refresh is answered, or the queues it concerns are closed. -/
theorem finishRefresh_ensures (channel : ChannelState) (q : CommandQueue config) :
    Library.Ensures (q.finishRefresh channel)
      (fun r => SameQueues q r.2 ∧ ∀ cmd, r.1 = some cmd → ∃ ref ∈ channel.refreshQ,
        channel.getReadyCommand config ref q.clk = .ok (some cmd))
      Exit.OfRequest := by
  unfold finishRefresh
  split
  · exact ⟨SameQueues.refl q, fun cmd hcmd => by cases hcmd⟩
  · rename_i ref rest href
    have hmem : ref ∈ channel.refreshQ := by rw [href]; exact List.mem_cons_self ..
    dsimp only
    generalize hq' : (if (!q.isInRef) = true then
      { q with refQIndices := q.refQIndices ++ getRefQIndices config ref, isInRef := true }
      else q) = q'
    have hsame : SameQueues q q' := by
      rw [← hq']
      split <;> exact ⟨rfl, rfl, rfl⟩
    refine Library.Ensures.bind (channel.getReadyCommand_ensures config ref q'.clk) ?_
    intro answer hanswer
    rw [hsame.clk] at hanswer
    cases answer with
    | none => exact ⟨hsame, fun cmd hcmd => by cases hcmd⟩
    | some cmd =>
        have hcmd : ∀ c, some cmd = some c → ∃ ref ∈ channel.refreshQ,
            channel.getReadyCommand config ref q.clk = .ok (some c) := by
          intro c hc
          cases hc
          exact ⟨ref, hmem, hanswer⟩
        dsimp only
        split
        · exact ⟨⟨hsame.queues, hsame.rankQEmpty, hsame.clk⟩, hcmd⟩
        · exact ⟨hsame, hcmd⟩

end CommandQueue

end Dramsim
