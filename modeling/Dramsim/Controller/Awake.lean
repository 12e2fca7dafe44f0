import Dramsim.Channel.Awake
import Dramsim.Controller.Ticks

/-!
# Ticks that end no process

A controller without self refresh can only run into an exit of its banks through the PIM
streams.  An activate or a column command of a stream waits until its bank answers with
it.  A `PRECHARGE` is taken by the weight stream as it is, and is safe if its bank is open
and is closed by no command before it.  `clockTick_survives` says so of a whole tick.
-/

namespace Dramsim

namespace ChannelState

variable {config : Config} {s : ChannelState} {req cmd : Command} {clk : Nat}

/-- A rank is only put to sleep on request. -/
theorem Answered.ne_srefEnter (h : Answered config s req clk cmd)
    (hreq : req.cmdType ≠ .srefEnter) : cmd.cmdType ≠ .srefEnter := by
  have hdue : ∀ {ix}, s.Due req clk ix cmd.cmdType → cmd.cmdType ≠ .srefEnter := by
    intro ix hdue hty
    rw [hty] at hdue
    rcases BankState.requiredType_cases hdue.1 with ⟨_, ⟨_, h⟩ | ⟨_, h⟩ | ⟨_, h⟩⟩ |
      ⟨_, ⟨_, _, h⟩ | ⟨_, _, h⟩ | ⟨_, h⟩⟩ | ⟨_, _, h⟩
    case inl.inr.inr => exact hreq h.symm
    case inr.inl.inl => exact hreq h.symm
    all_goals cases h
  cases h with
  | wholeRank _ _ => exact hreq
  | bankOfRank _ _ h _ _ => exact hdue h
  | bank _ h _ _ _ => exact hdue h

theorem isRefresh_of_isReadWrite {cmd : Command} (h : cmd.isReadWrite = true) :
    cmd.isRefresh = false := by
  cases hty : cmd.cmdType <;> rw [Command.isReadWrite, hty] at h <;>
    first | (rw [Command.isRefresh, hty]; rfl) | cases h

/-- A refresh answers no column command. -/
theorem Answered.isRefresh_of_column (h : Answered config s req clk cmd)
    (hreq : req.isReadWrite = true) : cmd.isRefresh = false := by
  have hrank : req.isRankCMD = false := CommandType.isRankCMD_of_isReadWrite hreq
  cases h with
  | wholeRank hr _ => rw [hrank] at hr; cases hr
  | bankOfRank hr _ _ _ _ => rw [hrank] at hr; cases hr
  | bank _ hdue _ _ _ =>
      have hself : cmd.cmdType = req.cmdType → cmd.isRefresh = false := fun hty => by
        have hnot := isRefresh_of_isReadWrite hreq
        rw [Command.isRefresh] at hnot ⊢
        rw [hty]
        exact hnot
      have hother : ∀ {ty : CommandType}, ty.isRefresh = false → cmd.cmdType = ty →
          cmd.isRefresh = false := fun hty he => by rw [Command.isRefresh, he]; exact hty
      rcases BankState.requiredType_cases hdue.1 with ⟨_, ⟨_, h⟩ | ⟨_, h⟩ | ⟨_, h⟩⟩ |
        ⟨_, ⟨_, _, h⟩ | ⟨_, _, h⟩ | ⟨_, h⟩⟩ | ⟨_, _, h⟩
      · exact hother rfl h
      · exact hother rfl h
      · exact hself h
      · exact hself h
      · exact hother rfl h
      · exact hother rfl h
      · exact hother rfl h

end ChannelState

namespace CommandQueue

variable {config : Config} {channel : ChannelState}

theorem firstReadyFrom_of_servesColumns (h : channel.ServesColumns config) (clk : Nat) :
    ∀ before rest : List Command, (∀ cmd ∈ rest, cmd.isReadWrite = true) →
      ∃ ready, firstReadyFrom config channel clk before rest = .ok ready
  | before, [], _ => ⟨_, rfl⟩
  | before, entry :: rest, hrest => by
      obtain ⟨hentry, hrest⟩ := List.forall_mem_cons.mp hrest
      have hskip := firstReadyFrom_of_servesColumns h clk (before ++ [entry]) rest hrest
      obtain ⟨answer, hanswer⟩ := h entry clk hentry
      rw [firstReadyFrom, hanswer]
      cases answer with
      | none => exact hskip
      | some cmd =>
          dsimp only [bind, Except.bind]
          repeat' split
          all_goals first | exact hskip | exact ⟨_, rfl⟩

/-- The queues hold ordinary column commands. -/
def HoldsColumns (q : CommandQueue config) : Prop :=
  ∀ i, ∀ cmd ∈ q.queues i, cmd.isReadWrite = true

theorem commandFrom_survives (h : channel.ServesColumns config) :
    ∀ (n : Nat) (q : CommandQueue config), q.HoldsColumns →
      Library.Ensures (commandFrom channel n q) (fun _ => True) fun e => ¬ e.OfBank
  | 0, q, _ => trivial
  | n + 1, q, hq => by
      have hskip := commandFrom_survives h n q.getNextQueue hq
      rw [commandFrom]
      split
      · exact hskip
      · obtain ⟨ready, hready⟩ := firstReadyFrom_of_servesColumns h q.getNextQueue.clk []
          (q.getNextQueue.queues q.getNextQueue.queueIdx) (hq _)
        rw [getFirstReadyInQueue, hready]
        cases ready with
        | none => exact hskip
        | some cmd =>
            show Library.Ensures (if cmd.isReadWrite then _ else _) _ _
            split
            · refine Library.Ensures.bind (P := fun _ => True) ?_ (fun _ _ => trivial)
              unfold eraseRWCommand
              dsimp only
              split
              · exact trivial
              · show ¬ Exit.OfBank .cannotFindCmd
                decide
            · exact trivial

end CommandQueue

namespace Controller

variable {config : Config} {s s' : Controller config} {cmd req : Command}
  {selected : Option Command} {cmds : List Command}

/-- The computation does not end in an exit of a bank. -/
abbrev Survives {α : Type} (x : Except Exit α) (P : α → Prop) : Prop :=
  Library.Ensures x P fun e => ¬ e.OfBank

/-! ## Facts about the banks and the queues -/

/-- What keeps the refresh logic and the queues away from the exits of the banks. -/
structure Steady (s : Controller config) : Prop where
  awake : s.channelState.Awake
  requests : ∀ req ∈ s.channelState.refreshQ, RefreshRequest config req
  queued : s.cmdQueue.HoldsColumns

theorem Steady.quiet (h : Steady s) (hs : Quiet s s') : Steady s' where
  awake := fun ix => by rw [hs.banks.bankStates]; exact h.awake ix
  requests := fun req hreq => (hs.requests req hreq).elim (h.requests req) id
  queued := fun i cmd hcmd => h.queued i cmd (hs.queues.queues ▸ hcmd)

theorem Steady.removed (h : Steady s) (hs : Removed s cmd s') : Steady s' := by
  obtain ⟨q₀, q, hsame, herase, rfl⟩ := hs.erased
  refine ⟨h.awake, h.requests, fun i c hc => h.queued i c ?_⟩
  unfold CommandQueue.eraseRWCommand at herase
  dsimp only at herase
  split at herase
  · cases herase
    rw [← hsame.queues]
    by_cases hi : i = config.queueOf cmd.addr
    · subst hi
      simp only [record, Function.update_self] at hc
      exact List.mem_of_mem_eraseP hc
    · simp only [record, Function.update_of_ne hi] at hc
      exact hc
  · cases herase

theorem Steady.issued (h : Steady s) (hs : Issued s cmd s') (hcmd : cmd.cmdType ≠ .srefEnter) :
    Steady s' where
  awake := h.awake.update hcmd hs.channel
  requests := fun req hreq =>
    h.requests req (ChannelState.mem_refreshQ_of_update hs.channel hreq)
  queued := by rw [hs.cmdQueue]; exact h.queued

/-! ## Issue -/

/-- Every bank that the command goes to takes it, and none is put to sleep. -/
def Takes (s : Controller config) (cmd : Command) : Prop :=
  cmd.cmdType ≠ .srefEnter ∧
    ∀ ix, config.Reaches cmd ix →
      ∃ b, (s.channelState.bankStates ix).updateState cmd = .ok b

theorem completePending_survives (s : Controller config) (cmd : Command) :
    Survives (s.completePending cmd) fun s₁ => s₁.channelState = s.channelState := by
  unfold completePending
  split
  · dsimp only
    split
    · show ¬ Exit.OfBank .notInReadQueue
      decide
    · exact rfl
  · split
    · split
      · show ¬ Exit.OfBank .notInWriteQueue
        decide
      · exact rfl
    · exact rfl

/-- Issuing a command that its banks take ends the process in no bank. -/
theorem issueCommand_error_not_ofBank {e : Exit}
    (hcmd : ∀ ix, config.Reaches cmd ix →
      ∃ b, (s.channelState.bankStates ix).updateState cmd = .ok b)
    (he : s.issueCommand cmd = .error e) : ¬ e.OfBank := by
  rcases Library.bind_eq_error.mp he with he | ⟨s₁, hs₁, he⟩
  · exact (completePending_survives _ cmd).of_error he
  · have hch := (completePending_survives _ cmd).of_ok hs₁
    obtain ⟨ch, hupdate⟩ := ChannelState.exists_updateTimingAndStates (Timing.ofConfig config)
      (s₁.updateCommandStats cmd).clk (s := s₁.channelState) (by rw [hch]; exact hcmd)
    rcases Library.bind_eq_error.mp he with he | ⟨_, _, he⟩
    · exact absurd (he.symm.trans hupdate) (by simp)
    · cases he

theorem issueCommand_survives (h : Steady s) (hcmd : s.Takes cmd) :
    Survives (s.issueCommand cmd) fun s' => Issued s cmd s' ∧ Steady s' := by
  refine .of_cases (fun s' hs' => ?_) (fun e he => issueCommand_error_not_ofBank hcmd.2 he)
  have hissued := issueCommand_spec hs'
  exact ⟨hissued, h.issued hissued hcmd.1⟩

/-! ## The selected command -/

theorem getCommandToIssue_survives (h : s.channelState.ServesColumns config)
    (hq : s.cmdQueue.HoldsColumns) :
    Survives s.getCommandToIssue fun r => s.Picked r.1 r.2 := by
  refine .of_cases (fun r hr => s.getCommandToIssue_ensures.of_ok hr) (fun e he => ?_)
  rcases Library.bind_eq_error.mp he with he | ⟨⟨cmd, q⟩, _, he⟩
  · exact (CommandQueue.commandFrom_survives h _ _ hq).of_error he
  · cases cmd with
    | none => cases he
    | some cmd =>
        dsimp only at he
        split at he <;> cases he

theorem Steady.getCommandToIssue (h : Steady s) :
    Survives s.getCommandToIssue fun r => s.Picked r.1 r.2 :=
  getCommandToIssue_survives (h.awake.servesColumns config) h.queued

theorem RefreshRequest.isRequest (h : RefreshRequest config req) : req.cmdType.isRequest = true :=
    h.1.1

/-- `FinishRefresh` comes to an end if the first request is answered. -/
theorem exists_finishRefresh
    (h : ∀ ref ∈ s.channelState.refreshQ.head?,
      ∃ ready, s.channelState.getReadyCommand config ref s.cmdQueue.clk = .ok ready) :
    ∃ r, s.cmdQueue.finishRefresh s.channelState = .ok r := by
  unfold CommandQueue.finishRefresh
  split
  · exact ⟨_, rfl⟩
  · rename_i ref rest href
    dsimp only
    obtain ⟨answer, hanswer⟩ := h ref (by rw [href]; rfl)
    split <;>
    · rw [hanswer]
      cases answer with
      | none => exact ⟨_, rfl⟩
      | some cmd =>
          dsimp only [bind, Except.bind]
          split <;> exact ⟨_, rfl⟩

theorem finishRefresh_of_steady (h : Steady s) :
    ∃ r, s.cmdQueue.finishRefresh s.channelState = .ok r := by
  refine exists_finishRefresh fun ref href => ?_
  exact h.awake.exists_getReadyCommand (h.requests ref (List.mem_of_head? href)).isRequest config _

theorem selectCommand_survives (h : Steady s) :
    Survives s.selectCommand fun r => ∃ s₀, Still s s₀ ∧ s₀.Picked r.1 r.2 := by
  refine .of_cases (fun r hr => (selectCommand_ensures (o := s) h.requests).of_ok hr)
    (fun e he => ?_)
  unfold selectCommand at he
  split at he
  · obtain ⟨⟨cmd, q⟩, hr⟩ := finishRefresh_of_steady h
    have hq := (s.cmdQueue.finishRefresh_ensures s.channelState).of_ok hr
    rw [hr] at he
    cases cmd with
    | none => exact (h.quiet (.of_queue hq.1)).getCommandToIssue.of_error he
    | some cmd => cases he
  · exact h.getCommandToIssue.of_error he

/-- A selected command touches no stream. -/
theorem Picked.pim (h : s.Picked selected s') : ∀ c ∈ s'.pimCmds, c ∈ s.pimCmds := by
  cases selected with
  | none => exact Quiet.pim (Still.toQuiet h)
  | some cmd =>
      rcases h with ⟨_, hrem⟩ | ⟨hstill, _⟩
      · obtain ⟨_, _, _, _, rfl⟩ := hrem.erased
        exact fun _ hc => hc
      · exact hstill.pim

/-- The refresh logic and the queues ask for nothing else. -/
theorem Wants.request (hself : config.enableSelfRefresh = false) (h : Steady s)
    (hreq : s.Wants req) :
    req.cmdType ≠ .srefEnter ∧
      (s.channelState.refreshQ = [] → req.isReadWrite = true) := by
  cases hreq with
  | refresh hmem =>
      refine ⟨fun hty => ?_, fun hnil => by rw [hnil] at hmem; cases hmem⟩
      have href := (h.requests req hmem).2
      rw [Command.isRefresh, hty] at href
      cases href
  | @queued i _ _ hmem =>
      have hcol := h.queued i req hmem
      refine ⟨fun hty => ?_, fun _ => hcol⟩
      rw [Command.isReadWrite, hty] at hcol
      cases hcol
  | sleep _ hsleep _ =>
      rw [hself] at hsleep
      cases hsleep

theorem Picked.takes (hself : config.enableSelfRefresh = false) (h : Steady s)
    (hs : s.Picked (some cmd) s') : Steady s' ∧ s'.Takes cmd := by
  rcases hs with ⟨hcol, hrem⟩ | ⟨hstill, _, req, clk, hreq, _, hready⟩
  · have hne : cmd.cmdType ≠ .srefEnter := fun hty => by
      rw [Command.isReadWrite, hty] at hcol
      cases hcol
    have hs' := h.removed hrem
    obtain ⟨i, _, hfirst⟩ := hrem.offered
    obtain ⟨_, _, _, hyields⟩ := CommandQueue.getFirstReadyInQueue_spec hfirst
    have hans := ChannelState.getReadyCommand_spec hyields.answer
    refine ⟨hs', hne, fun ix hix => ?_⟩
    obtain ⟨_, _, _, _, rfl⟩ := hrem.erased
    exact hans.taken h.awake hix
  · have hs' := h.quiet hstill.toQuiet
    have hans := ChannelState.getReadyCommand_spec hready
    exact ⟨hs', hans.ne_srefEnter (hreq.request hself hs').1,
      fun ix hix => hans.taken hs'.awake hix⟩

/-- Where no refresh waits, none is selected. -/
theorem Picked.isRefresh (hself : config.enableSelfRefresh = false) (h : Steady s)
    (hs : s.Picked (some cmd) s') (hnil : s.channelState.refreshQ = []) :
    cmd.isRefresh = false := by
  rcases hs with ⟨hcol, _⟩ | ⟨hstill, _, req, clk, hreq, _, hready⟩
  · exact ChannelState.isRefresh_of_isReadWrite hcol
  · have hcol := (hreq.request hself (h.quiet hstill.toQuiet)).2 (hstill.refreshQ.trans hnil)
    exact (ChannelState.getReadyCommand_spec hready).isRefresh_of_column hcol

theorem issueSelected_survives (hself : config.enableSelfRefresh = false) (h : Steady s)
    (hcmd : s.Takes cmd) :
    Survives (s.issueSelected cmd) fun s' => Steady s' ∧ ∀ c ∈ s'.pimCmds, c ∈ s.pimCmds := by
  refine Library.Ensures.bind (issueCommand_survives h hcmd) ?_
  rintro s₁ ⟨hissued, hs₁⟩
  have hpim₁ : s₁.pimCmds = s.pimCmds := hissued.pimCmds
  split
  · refine Library.Ensures.bind hs₁.getCommandToIssue ?_
    rintro ⟨second, s₂⟩ hpicked
    have hpim₂ := hpim₁ ▸ hpicked.pim
    cases second with
    | none => exact ⟨hs₁.quiet hpicked.toQuiet, hpim₂⟩
    | some second =>
        obtain ⟨hs₂, htakes⟩ := hpicked.takes hself hs₁
        dsimp only
        split
        · refine Library.Ensures.bind (issueCommand_survives hs₂ htakes) ?_
          rintro s₃ ⟨hissued₃, hs₃⟩
          exact ⟨hs₃.quiet (.increment s₃ _), fun c hc => hpim₂ c (hissued₃.pimCmds ▸ hc)⟩
        · exact ⟨hs₂, hpim₂⟩
  · exact ⟨hs₁, fun c hc => hpim₁ ▸ hc⟩

/-! ## The streams -/

/-- The bank of an activate or a column command of a stream takes it once it answers with
it. -/
theorem pimReady_survives {column : CommandType} (h : Steady s)
    (hcolumn : column.isPimColumn = true) (hcmd : cmd.cmdType.isPim = true) :
    Survives (s.pimReady column cmd) fun r => answers r cmd = true → s.Takes cmd := by
  refine .of_cases (fun r hr hans => ?_) (fun e he => ?_)
  · obtain ⟨ready, rfl, hty⟩ := answers_iff.mp hans
    obtain ⟨req, haddr, _, hready⟩ := (s.pimReady_ensures column cmd).of_ok hr ready rfl
    have hsingle : cmd.isRankCMD = false := by
      cases hc : cmd.cmdType <;> rw [hc] at hcmd <;>
        first | (rw [Command.isRankCMD, hc]; rfl) | cases hcmd
    have hne : cmd.cmdType ≠ .srefEnter := fun hc => by
      rw [hc] at hcmd
      cases hcmd
    refine ⟨hne, fun ix hix => ?_⟩
    rw [Config.Reaches, hsingle, if_neg Bool.false_ne_true] at hix
    subst hix
    cases ChannelState.getReadyCommand_spec hready with
    | wholeRank hrank _ =>
        rw [Command.isRankCMD, hty] at hrank
        rw [Command.isRankCMD, hrank] at hsingle
        cases hsingle
    | bankOfRank hrank _ hdue hne' _ =>
        rcases BankState.requiredType_of_isRankCMD hdue.1 hrank with ⟨_, hp⟩ | ⟨_, hp⟩
        · exact absurd hp hne'
        · rw [← hty, hp] at hcmd
          cases hcmd
    | bank _ hdue _ _ _ =>
        rw [hty, Command.bankIndex, haddr] at hdue
        exact BankState.updateState_of_requiredType hdue.1
  · -- a channel that is awake answers what a stream asks for
    have hok : ∃ r, s.pimReady column cmd = .ok r := by
      unfold pimReady
      split
      · refine h.awake.exists_getReadyCommand ?_ config s.clk
        rw [CommandType.isRequest, CommandType.isColumn_of_isPimColumn hcolumn, Bool.true_or]
      · rename_i hne
        refine h.awake.exists_getReadyCommand ?_ config s.clk
        have hpim : cmd.cmdType.isPimColumn = true := by simpa [CommandType.isPim, hne] using hcmd
        rw [CommandType.isRequest, CommandType.isColumn_of_isPimColumn hpim, Bool.true_or]
    obtain ⟨r, hr⟩ := hok
    rw [hr] at he
    cases he

theorem issuePim_survives (h : Steady s) (hcmd : s.Takes cmd) :
    Survives (s.issuePim cmd) fun s' => (s' = s ∧ cmd.cmdType = .pimActivate) ∨
      (Issued s cmd s' ∧ Steady s') := by
  unfold issuePim
  split
  · rename_i hwait
    rw [Bool.and_eq_true, decide_eq_true_eq] at hwait
    exact .inl ⟨rfl, hwait.2⟩
  · exact (issueCommand_survives h hcmd).mono (fun _ hs' => .inr hs') (fun _ he => he)

/-- The commands of the weight stream.  A `PRECHARGE` among them finds its bank open, and
no command before it is for the same bank. -/
structure Closable (ch : ChannelState) (cmds : List Command) : Prop where
  pim : ∀ cmd ∈ cmds, cmd.IsPim
  opened : ∀ cmd ∈ cmds, cmd.cmdType = .precharge → (ch.bankStates cmd.bankIndex).state = .opened
  apart : cmds.Pairwise fun cmd cmd' => cmd'.cmdType = .precharge → cmd.bankIndex ≠ cmd'.bankIndex

theorem isRankCMD_of_isPim (h : cmd.IsPim) : cmd.isRankCMD = false := by
  rcases h with h | h
  · cases hc : cmd.cmdType <;> rw [hc] at h <;>
      first | (rw [Command.isRankCMD, hc]; rfl) | cases h
  · rw [Command.isRankCMD, h]
    rfl

theorem Closable.tail {ch : ChannelState} (h : Closable ch (cmd :: cmds)) : Closable ch cmds :=
  ⟨(List.forall_mem_cons.mp h.pim).2, (List.forall_mem_cons.mp h.opened).2,
    (List.pairwise_cons.mp h.apart).2⟩

/-- A command of the stream closes no bank that a later `PRECHARGE` is for. -/
theorem Closable.issued (h : Closable s.channelState (cmd :: cmds)) (hs : Issued s cmd s') :
    Closable s'.channelState cmds := by
  refine ⟨h.tail.pim, fun c hc hty => ?_, h.tail.apart⟩
  have hne := (List.pairwise_cons.mp h.apart).1 c hc hty
  rw [ChannelState.state_of_not_reaches hs.channel]
  · exact h.tail.opened c hc hty
  · rw [Config.Reaches, isRankCMD_of_isPim (h.pim cmd (List.mem_cons_self ..)),
      if_neg Bool.false_ne_true]
    exact Ne.symm hne

/-- A `PRECHARGE` of the stream is taken at once. -/
theorem Closable.takes (h : Closable s.channelState (cmd :: cmds))
    (hty : cmd.cmdType = .precharge) : s.Takes cmd := by
  refine ⟨by rw [hty]; decide, fun ix hix => ?_⟩
  rw [Config.Reaches, Command.isRankCMD, hty, if_neg (by decide)] at hix
  rw [hix]
  unfold BankState.updateState
  rw [h.opened cmd (List.mem_cons_self ..) hty, hty]
  exact ⟨_, rfl⟩

theorem issueRdW_survives :
    ∀ (l kept : List Command) (s : Controller config), Steady s → Closable s.channelState l →
      (∀ c ∈ kept, c.cmdType.isPim = true) →
      Survives (s.issueRdW kept l) fun s' => Steady s' ∧
        (∀ c ∈ s'.rdWCmds, c.cmdType.isPim = true) ∧
        s'.rdInCmds = s.rdInCmds ∧ s'.wrCmds = s.wrCmds
  | [], kept, s, h, _, hkept => ⟨⟨h.awake, h.requests, h.queued⟩, hkept, rfl, rfl⟩
  | cmd :: rest, kept, s, h, hl, hkept => by
      rw [issueRdW]
      refine Library.Ensures.bind (P := fun r => (answers r cmd = true → s.Takes cmd) ∧
        (cmd.cmdType = .precharge → answers r cmd = true)) ?_ ?_
      · unfold rdWReady
        split
        · rename_i hty
          exact ⟨fun _ => hl.takes hty, fun _ => answers_iff.mpr ⟨cmd, rfl, rfl⟩⟩
        · rename_i hty
          have hpim := (hl.pim cmd (List.mem_cons_self ..)).resolve_right hty
          exact (pimReady_survives h rfl hpim).mono (fun _ hr => ⟨hr, fun he => absurd he hty⟩)
            (fun _ he => he)
      · rintro r ⟨htakes, hpre⟩
        split
        · rename_i hans
          refine Library.Ensures.bind (issuePim_survives h (htakes hans)) ?_
          rintro s₁ (⟨rfl, -⟩ | ⟨hissued, hs₁⟩)
          · exact issueRdW_survives rest kept s₁ h hl.tail hkept
          · have hrest := issueRdW_survives rest kept s₁ hs₁ (hl.issued hissued) hkept
            rw [hissued.rdInCmds, hissued.wrCmds] at hrest
            exact hrest
        · rename_i hans
          -- a command that stays is no `PRECHARGE`
          have hpim : cmd.cmdType.isPim = true :=
            (hl.pim cmd (List.mem_cons_self ..)).resolve_right fun hty => hans (hpre hty)
          exact issueRdW_survives rest (kept ++ [cmd]) s h hl.tail
            (List.forall_mem_append.mpr ⟨hkept, List.forall_mem_singleton.mpr hpim⟩)

theorem issueRdIn_survives :
    ∀ (l : List Command) (times : List Int) (kept : List Command) (keptTime : List Int)
      (s : Controller config), Steady s → (∀ c ∈ l, c.cmdType.isPim = true) →
      (∀ c ∈ kept, c.cmdType.isPim = true) →
      Survives (s.issueRdIn kept keptTime l times) fun s' => Steady s' ∧
        (∀ c ∈ s'.rdInCmds, c.cmdType.isPim = true) ∧ s'.rdWCmds = s.rdWCmds ∧ s'.wrCmds = s.wrCmds
  | [], times, kept, keptTime, s, h, _, hkept => ⟨⟨h.awake, h.requests, h.queued⟩, hkept, rfl, rfl⟩
  | cmd :: rest, times, kept, keptTime, s, h, hl, hkept => by
      obtain ⟨hcmd, hrest⟩ := List.forall_mem_cons.mp hl
      have hkept' : ∀ c ∈ kept ++ [cmd], c.cmdType.isPim = true :=
        List.forall_mem_append.mpr ⟨hkept, List.forall_mem_singleton.mpr hcmd⟩
      unfold issueRdIn
      refine Library.Ensures.bind (pimReady_survives h rfl hcmd) ?_
      intro r htakes
      split
      · rename_i hans
        cases times with
        | nil =>
            show ¬ Exit.OfBank .outOfRange
            decide
        | cons time times =>
            dsimp only
            split
            · refine Library.Ensures.bind (issuePim_survives h (htakes hans)) ?_
              rintro s₁ (⟨rfl, -⟩ | ⟨hissued, hs₁⟩)
              · exact issueRdIn_survives rest times kept keptTime s₁ h hrest hkept
              · have hnext := issueRdIn_survives rest times kept keptTime s₁ hs₁ hrest hkept
                rw [hissued.rdWCmds, hissued.wrCmds] at hnext
                exact hnext
            · exact issueRdIn_survives rest times _ _ s h hrest hkept'
      · exact issueRdIn_survives rest _ _ _ s h hrest hkept'

theorem issueWr_survives :
    ∀ (l kept : List Command) (s : Controller config), Steady s →
      (∀ c ∈ l, c.cmdType.isPim = true) → (∀ c ∈ kept, c.cmdType.isPim = true) →
      Survives (s.issueWr kept l) fun s' => Steady s' ∧ (∀ c ∈ s'.wrCmds, c.cmdType.isPim = true) ∧
        s'.rdWCmds = s.rdWCmds ∧ s'.rdInCmds = s.rdInCmds
  | [], kept, s, h, _, hkept => ⟨⟨h.awake, h.requests, h.queued⟩, hkept, rfl, rfl⟩
  | cmd :: rest, kept, s, h, hl, hkept => by
      obtain ⟨hcmd, hrest⟩ := List.forall_mem_cons.mp hl
      rw [issueWr]
      refine Library.Ensures.bind (pimReady_survives h rfl hcmd) ?_
      intro r htakes
      split
      · rename_i hans
        split
        · exact issueWr_survives rest kept s h hrest hkept
        · refine Library.Ensures.bind (issueCommand_survives h (htakes hans)) ?_
          rintro s₁ ⟨hissued, hs₁⟩
          split
          · exact ⟨⟨hs₁.awake, hs₁.requests, hs₁.queued⟩, List.forall_mem_append.mpr ⟨hkept, hrest⟩,
              hissued.rdWCmds, hissued.rdInCmds⟩
          · have hnext := issueWr_survives rest kept s₁ hs₁ hrest hkept
            rw [hissued.rdWCmds, hissued.rdInCmds] at hnext
            exact hnext
      · exact issueWr_survives rest (kept ++ [cmd]) s h hrest
          (List.forall_mem_append.mpr ⟨hkept, List.forall_mem_singleton.mpr hcmd⟩)

/-! ## A tick -/

/-- The streams hold nothing that closes a bank by itself. -/
structure Calm (s : Controller config) : Prop extends Steady s where
  streams : ∀ c ∈ s.pimCmds, c.cmdType.isPim = true

/-- The streams can be served without an exit of a bank. -/
structure Servable (s : Controller config) : Prop extends Steady s where
  rdW : Closable s.channelState s.rdWCmds
  rdIn : ∀ c ∈ s.rdInCmds, c.cmdType.isPim = true
  wr : ∀ c ∈ s.wrCmds, c.cmdType.isPim = true

theorem issuePimStreams_survives (h : Servable s) : Survives s.issuePimStreams Calm := by
  refine Library.Ensures.bind (issueRdW_survives _ _ s h.toSteady h.rdW (by simp)) ?_
  rintro s₁ ⟨hs₁, hrdW, hrdIn, hwr⟩
  refine Library.Ensures.bind
    (issueRdIn_survives _ _ _ _ s₁ hs₁ (hrdIn ▸ h.rdIn) (by simp)) ?_
  rintro s₂ ⟨hs₂, hrdIn₂, hrdW₂, hwr₂⟩
  refine (issueWr_survives _ _ s₂ hs₂ (by rw [hwr₂, hwr]; exact h.wr) (by simp)).mono ?_
    (fun _ he => he)
  rintro s₃ ⟨hs₃, hwr₃, hrdW₃, hrdIn₃⟩
  refine ⟨hs₃, fun c hc => ?_⟩
  rcases mem_pimCmds.mp hc with hc | hc | hc
  · exact hrdW c (hrdW₂ ▸ hrdW₃ ▸ hc)
  · exact hrdIn₂ c (hrdIn₃ ▸ hc)
  · exact hwr₃ c hc

/-- The banks and the streams are the same. -/
structure SameStreams (s s' : Controller config) : Prop where
  channelState : s'.channelState = s.channelState
  rdWCmds : s'.rdWCmds = s.rdWCmds
  rdInCmds : s'.rdInCmds = s.rdInCmds
  wrCmds : s'.wrCmds = s.wrCmds

theorem SameStreams.pimCmds (h : SameStreams s s') : s'.pimCmds = s.pimCmds := by
  rw [Controller.pimCmds, h.rdWCmds, h.rdInCmds, h.wrCmds]
  rfl

theorem Servable.same (h : Servable s) (hs : SameStreams s s') (hs' : Steady s') : Servable s' := by
  refine ⟨hs', ?_, ?_, ?_⟩
  · rw [hs.channelState, hs.rdWCmds]
    exact h.rdW
  · rw [hs.rdInCmds]
    exact h.rdIn
  · rw [hs.wrCmds]
    exact h.wr

theorem getCommandToIssue_same (h : s.getCommandToIssue = .ok (selected, s')) :
    SameStreams s s' := by
  obtain ⟨⟨cmd, q⟩, _, h⟩ := Library.bind_eq_ok.mp h
  cases cmd with
  | none =>
      cases h
      exact ⟨rfl, rfl, rfl, rfl⟩
  | some cmd =>
      dsimp only at h
      split at h <;> cases h <;> exact ⟨rfl, rfl, rfl, rfl⟩

theorem selectCommand_same (h : s.selectCommand = .ok (selected, s')) : SameStreams s s' := by
  unfold selectCommand at h
  split at h
  · obtain ⟨⟨cmd, q⟩, _, h⟩ := Library.bind_eq_ok.mp h
    cases cmd with
    | none =>
        have hsame := getCommandToIssue_same (s := { s with cmdQueue := q }) h
        exact ⟨hsame.channelState, hsame.rdWCmds, hsame.rdInCmds, hsame.wrCmds⟩
    | some cmd =>
        cases h
        exact ⟨rfl, rfl, rfl, rfl⟩
  · exact getCommandToIssue_same h

theorem setScheduledQueue_same (s : Controller config) (queue : List Transaction) :
    SameStreams s (s.setScheduledQueue queue) := by
  unfold setScheduledQueue
  split
  · exact ⟨rfl, rfl, rfl, rfl⟩
  · split <;> exact ⟨rfl, rfl, rfl, rfl⟩

theorem Servable.isPim (h : Servable s) (hnone : ∀ c ∈ s.rdWCmds, c.cmdType ≠ .precharge) :
    ∀ c ∈ s.pimCmds, c.cmdType.isPim = true := by
  intro c hc
  rcases mem_pimCmds.mp hc with hc | hc | hc
  · exact (h.rdW.pim c hc).resolve_right (hnone c hc)
  · exact h.rdIn c hc
  · exact h.wr c hc

/-- The commands of a tick.  A `PRECHARGE` of the weight stream is not kept waiting by a
refresh. -/
theorem issueCommands_survives (hself : config.enableSelfRefresh = false) (h : Servable s)
    (hclose : s.channelState.refreshQ ≠ [] → ∀ c ∈ s.rdWCmds, c.cmdType ≠ .precharge) :
    Survives s.issueCommands fun r => Calm r.2 := by
  refine Library.Ensures.bind (P := fun r => (∃ s₀, Still s s₀ ∧ s₀.Picked r.1 r.2) ∧
    SameStreams s r.2) ?_ ?_
  · have hsel := selectCommand_survives h.toSteady
    exact .of_cases (fun r hr => ⟨hsel.of_ok hr, selectCommand_same hr⟩)
      (fun _ he => hsel.of_error he)
  rintro ⟨cmd, s₁⟩ ⟨⟨s₀, hstill, hpicked⟩, hsame⟩
  dsimp only at hpicked hsame ⊢
  have hs₀ := h.toSteady.quiet hstill.toQuiet
  have hpim₁ := hsame.pimCmds
  split
  · rename_i hwhich
    have hnone : ∀ c ∈ s.rdWCmds, c.cmdType ≠ .precharge := by
      rw [Bool.or_eq_true, Option.any_eq_true] at hwhich
      rcases hwhich with ⟨c, rfl, href⟩ | hidle
      · refine hclose fun hnil => ?_
        rw [hpicked.isRefresh hself hs₀ (hstill.refreshQ.trans hnil)] at href
        cases href
      · -- an empty stream closes nothing
        intro c hc
        simp only [pimIdle, Bool.and_eq_true, List.isEmpty_iff] at hidle
        rw [← hsame.rdWCmds, hidle.1.1] at hc
        cases hc
    have hpims := h.isPim hnone
    cases cmd with
    | none => exact ⟨hs₀.quiet (Still.toQuiet hpicked), hpim₁ ▸ hpims⟩
    | some cmd =>
        obtain ⟨hs₁, htakes⟩ := hpicked.takes hself hs₀
        refine Library.Ensures.bind (issueSelected_survives hself hs₁ htakes) ?_
        rintro s₂ ⟨hs₂, hpim₂⟩
        exact ⟨hs₂, fun c hc => hpims c (hpim₁ ▸ hpim₂ c hc)⟩
  · have hs₁ : Steady s₁ := by
      cases cmd with
      | none => exact hs₀.quiet (Still.toQuiet hpicked)
      | some cmd => exact (hpicked.takes hself hs₀).1
    exact Library.Ensures.bind (issuePimStreams_survives (h.same hsame hs₁)) fun _ hs' => hs'

/-- The state in which a tick can start. -/
structure Poised (s : Controller config) : Prop extends Servable s where
  /-- No refresh comes before a `PRECHARGE` of the weight stream. -/
  closing : ∀ c ∈ s.rdWCmds, c.cmdType = .precharge →
    s.channelState.refreshQ = [] ∧ s.refresh.isDue = false

theorem tickRefresh_survives (h : Poised s) :
    Survives s.tickRefresh fun s₁ => Servable s₁ ∧
      (s₁.channelState.refreshQ ≠ [] → ∀ c ∈ s₁.rdWCmds, c.cmdType ≠ .precharge) := by
  refine .of_cases (fun s₁ hs₁ => ?_) (fun e he => ?_)
  · have hquiet := s.tickRefresh_ensures.of_ok hs₁
    have hsteady := h.toSteady.quiet hquiet
    have hbanks : s₁.channelState.bankStates = s.channelState.bankStates := hquiet.banks.bankStates
    obtain ⟨⟨refresh, ch⟩, htick, hs₁⟩ := Library.bind_eq_ok.mp hs₁
    cases hs₁
    refine ⟨⟨hsteady, ⟨h.rdW.pim, fun c hc hty => ?_, h.rdW.apart⟩, h.rdIn, h.wr⟩, ?_⟩
    · rw [hbanks]
      exact h.rdW.opened c hc hty
    · intro hne c hc hty
      obtain ⟨hnil, hdue⟩ := h.closing c hc hty
      obtain ⟨req, hreq⟩ := List.exists_mem_of_ne_nil _ hne
      rcases Refresh.mem_clockTick htick hreq with hreq | ⟨hdue', _⟩
      · rw [hnil] at hreq
        cases hreq
      · rw [hdue] at hdue'
        cases hdue'
  · rcases Library.bind_eq_error.mp he with he | ⟨_, _, he⟩
    · rw [(s.refresh.clockTick_ensures s.channelState).of_error he]
      decide
    · cases he

theorem scheduleTransaction_same (s : Controller config) : SameStreams s s.scheduleTransaction := by
  obtain ⟨draining, -, hstart⟩ := s.startDraining_eq
  cases hfirst : firstAccepted s.cmdQueue [] s.startDraining.scheduledQueue with
  | none =>
      rw [scheduleTransaction_of_none hfirst, hstart]
      exact ⟨rfl, rfl, rfl, rfl⟩
  | some found =>
      have hset := setScheduledQueue_same s.startDraining (found.1 ++ found.2.2)
      rw [hstart] at hset
      rw [scheduleTransaction_of_some hfirst, hstart]
      repeat' split
      all_goals first
        | exact ⟨rfl, rfl, rfl, rfl⟩
        | exact ⟨hset.channelState, hset.rdWCmds, hset.rdInCmds, hset.wrCmds⟩

theorem scheduleTransaction_holdsColumns (h : s.cmdQueue.HoldsColumns) :
    s.scheduleTransaction.cmdQueue.HoldsColumns := by
  have hadded (it : Transaction) :
      (s.cmdQueue.addCommand (transToCommand config it)).HoldsColumns := by
    intro i c hc
    rcases CommandQueue.mem_addCommand_queues hc with hc | ⟨rfl, -⟩
    · exact h i c hc
    · exact columnType_isReadWrite config it.isWrite
  cases hfirst : firstAccepted s.cmdQueue [] s.startDraining.scheduledQueue with
  | none =>
      rw [scheduleTransaction_of_none hfirst, startDraining_cmdQueue]
      exact h
  | some found =>
      rw [scheduleTransaction_of_some hfirst]
      repeat' split
      all_goals first
        | exact hadded _
        | exact startDraining_cmdQueue s ▸ h

theorem Calm.scheduleTransaction (h : Calm s) : Calm s.scheduleTransaction := by
  have hsame := s.scheduleTransaction_same
  refine ⟨⟨?_, ?_, scheduleTransaction_holdsColumns h.queued⟩, ?_⟩
  · rw [hsame.channelState]
    exact h.awake
  · rw [hsame.channelState]
    exact h.requests
  · rw [hsame.pimCmds]
    exact h.streams

theorem clockTick_survives (hself : config.enableSelfRefresh = false) (h : Poised s) :
    Survives s.clockTick Calm := by
  refine Library.Ensures.bind (P := Calm) ?_ ?_
  · refine Library.Ensures.bind (tickRefresh_survives h) ?_
    rintro s₁ ⟨hserve, hclose⟩
    refine Library.Ensures.bind (issueCommands_survives hself hserve hclose) ?_
    rintro ⟨issued, s₂⟩ hs₂
    dsimp only
    rw [hself, Bool.false_and, if_neg Bool.false_ne_true]
    exact ⟨hs₂.toSteady.quiet (.updateIdleCycles s₂), hs₂.streams⟩
  · intro s₁ hs₁
    have hs₂ := hs₁.scheduleTransaction
    exact ⟨⟨hs₂.awake, hs₂.requests, hs₂.queued⟩, hs₂.streams⟩

end Controller

end Dramsim
