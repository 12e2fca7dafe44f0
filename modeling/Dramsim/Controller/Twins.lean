import Dramsim.Library.Agree
import Dramsim.Model.Controller

/-!
# Controllers that differ in their channel

The commands of the PIM streams name their channel, in their address and in the
transaction address made of it, and nothing else in a controller does.  Controllers that
are the same up to the channel, `Twins`, stay so when both run for a cycle: no decision
depends on the channel of a command.
-/

namespace Dramsim

/-- The command without its channel. -/
def Command.forgetChannel (cmd : Command) : Command :=
  ⟨cmd.cmdType, { cmd.addr with channel := 0 }, 0⟩

/-- Two commands differ at most in their channel. -/
def Command.SameUpToChannel (cmd cmd' : Command) : Prop := cmd.forgetChannel = cmd'.forgetChannel

namespace Command.SameUpToChannel

variable {cmd cmd' : Command} (h : cmd.SameUpToChannel cmd')

include h

theorem eq_mk :
    cmd' = ⟨cmd.cmdType, { cmd.addr with channel := cmd'.addr.channel }, cmd'.hexAddr⟩ := by
  obtain ⟨ty, ⟨ch, ra, bg, ba, ro, co⟩, hex⟩ := cmd
  obtain ⟨ty', ⟨ch', ra', bg', ba', ro', co'⟩, hex'⟩ := cmd'
  simp only [Command.SameUpToChannel, Command.forgetChannel, Command.mk.injEq, Address.mk.injEq,
    true_and, and_true] at h
  obtain ⟨rfl, rfl, rfl, rfl, rfl, rfl⟩ := h
  rfl

end Command.SameUpToChannel

/-! ## The channel state does not see the channel -/

theorem BankState.getReadyCommand_agree {cmd cmd' : Command} (b : BankState) (clk : Nat)
    (h : cmd.SameUpToChannel cmd') :
    Library.Agree (Option.Rel Command.SameUpToChannel) (b.getReadyCommand cmd clk)
      (b.getReadyCommand cmd' clk) := by
  have hreq : b.requiredType cmd' = b.requiredType cmd := by
    rw [h.eq_mk]
    rfl
  unfold getReadyCommand
  rw [hreq]
  refine Library.Agree.bind (Library.Agree.of_eq rfl fun _ => rfl) fun ty ty' hty => ?_
  subst hty
  split
  · refine .some ?_
    rw [h.eq_mk]
    rfl
  · exact .none

namespace ChannelState

variable {config : Config} {cmd cmd' : Command}

theorem rankReadyCommand_agree (ch : ChannelState) (clk : Nat) (h : cmd.SameUpToChannel cmd') :
    ∀ (l : List BankIndex) (numReady : Nat) {last last' : Option Command},
      Option.Rel Command.SameUpToChannel last last' →
      Library.Agree (Option.Rel Command.SameUpToChannel)
        (rankReadyCommand config ch cmd clk l numReady last)
        (rankReadyCommand config ch cmd' clk l numReady last')
  | [], numReady, last, last', hlast => by
      unfold rankReadyCommand
      split
      · exact hlast
      · exact .none
  | ix :: l, numReady, last, last', _ => by
      unfold rankReadyCommand
      refine Library.Agree.bind (BankState.getReadyCommand_agree _ clk h) fun r r' hr => ?_
      cases hr with
      | none => exact rankReadyCommand_agree ch clk h l numReady .none
      | @some r r' hr =>
          have hty : r'.cmdType = r.cmdType := by rw [hr.eq_mk]
          have hcmd : cmd'.cmdType = cmd.cmdType := by rw [h.eq_mk]
          dsimp only
          rw [hty, hcmd]
          split
          · refine .some ?_
            rw [h.eq_mk, hr.eq_mk]
            rfl
          · exact rankReadyCommand_agree ch clk h l (numReady + 1) (.some hr)

theorem getReadyCommand_agree (ch : ChannelState) (clk : Nat) (h : cmd.SameUpToChannel cmd') :
    Library.Agree (Option.Rel Command.SameUpToChannel) (ch.getReadyCommand config cmd clk)
      (ch.getReadyCommand config cmd' clk) := by
  have hrank : cmd'.isRankCMD = cmd.isRankCMD := by rw [h.eq_mk]; rfl
  have haddr : cmd'.addr.rank = cmd.addr.rank := by rw [h.eq_mk]
  have hbank : cmd'.bankIndex = cmd.bankIndex := by rw [h.eq_mk]; rfl
  unfold getReadyCommand
  rw [hrank, haddr, hbank]
  split
  · exact rankReadyCommand_agree ch clk h _ 0 .none
  · refine Library.Agree.bind (BankState.getReadyCommand_agree _ clk h) fun r r' hr => ?_
    cases hr with
    | none => exact .none
    | @some r r' hr =>
        have hsame : r'.cmdType = r.cmdType ∧ r'.addr.rank = r.addr.rank := by
          rw [hr.eq_mk]
          exact ⟨rfl, rfl⟩
        dsimp only
        rw [hsame.1, hsame.2]
        split
        · exact .none
        · exact .some hr

theorem updateTimingAndStates_eq (ch : ChannelState) (timing : Timing) (clk : Nat)
    (h : cmd.SameUpToChannel cmd') :
    ch.updateTimingAndStates config timing cmd' clk =
      ch.updateTimingAndStates config timing cmd clk := by
  rw [h.eq_mk]
  rfl

end ChannelState

/-! ## Twins -/

/-- The commands of two lists differ at most in their channel, and none is ordinary. -/
def SameStream (cmds cmds' : List Command) : Prop :=
  List.Forall₂ (fun cmd cmd' => cmd.SameUpToChannel cmd' ∧ cmd.isReadWrite = false) cmds cmds'

/-- The same controller with other streams and another record. -/
def Controller.withStreams {config : Config} (s : Controller config)
    (rdW rdIn wr : List Command) (log : List Event) : Controller config :=
  { s with rdWCmds := rdW, rdInCmds := rdIn, wrCmds := wr, log := log }

/-- Two controllers are the same up to the channel of the commands of their streams. -/
structure Twins {config : Config} (s t : Controller config) : Prop where
  rdW : SameStream s.rdWCmds t.rdWCmds
  rdIn : SameStream s.rdInCmds t.rdInCmds
  wr : SameStream s.wrCmds t.wrCmds
  rest : t = s.withStreams t.rdWCmds t.rdInCmds t.wrCmds t.log

namespace Twins

variable {config : Config} {s t : Controller config} {cmd cmd' : Command}
  {rest rest' : List Command}

section

variable (h : Twins s t)

include h

theorem channelState : t.channelState = s.channelState := by rw [h.rest]; rfl

theorem cmdQueue : t.cmdQueue = s.cmdQueue := by rw [h.rest]; rfl

theorem refresh : t.refresh = s.refresh := by rw [h.rest]; rfl

theorem clk : t.clk = s.clk := by rw [h.rest]; rfl

theorem inPim : t.inPim = s.inPim := by rw [h.rest]; rfl

theorem wrMultitenant : t.wrMultitenant = s.wrMultitenant := by rw [h.rest]; rfl

theorem releaseTime : t.releaseTime = s.releaseTime := by rw [h.rest]; rfl

theorem pendingRdQ : t.pendingRdQ = s.pendingRdQ := by rw [h.rest]; rfl

theorem pendingWrQ : t.pendingWrQ = s.pendingWrQ := by rw [h.rest]; rfl

theorem returnQueue : t.returnQueue = s.returnQueue := by rw [h.rest]; rfl

theorem readsOf (addr : Nat) : t.readsOf addr = s.readsOf addr := by
  rw [Controller.readsOf, h.pendingRdQ]
  rfl

theorem writesOf (addr : Nat) : t.writesOf addr = s.writesOf addr := by
  rw [Controller.writesOf, h.pendingWrQ]
  rfl

end

theorem refl (hw : SameStream s.rdWCmds s.rdWCmds) (hin : SameStream s.rdInCmds s.rdInCmds)
    (hwr : SameStream s.wrCmds s.wrCmds) : Twins s s := ⟨hw, hin, hwr, rfl⟩

theorem tickRefresh (h : Twins s t) : Library.Agree Twins s.tickRefresh t.tickRefresh := by
  unfold Controller.tickRefresh
  rw [h.refresh, h.channelState]
  refine Library.Agree.bind (Library.Agree.of_eq rfl fun _ => rfl) ?_
  rintro ⟨refresh, ch⟩ _ rfl
  exact ⟨h.rdW, h.rdIn, h.wr, by rw [h.rest]; rfl⟩

/-- The same results and controllers that are twins. -/
def Pair {α : Type} (p q : α × Controller config) : Prop := p.1 = q.1 ∧ Twins p.2 q.2

theorem withQueue (h : Twins s t) (q : CommandQueue config) :
    Twins { s with cmdQueue := q } { t with cmdQueue := q } :=
  ⟨h.rdW, h.rdIn, h.wr, by rw [h.rest]; rfl⟩

theorem record (h : Twins s t) (e e' : Event) : Twins (s.record e) (t.record e') :=
  ⟨h.rdW, h.rdIn, h.wr, by rw [h.rest]; rfl⟩

theorem getCommandToIssue (h : Twins s t) :
    Library.Agree Pair s.getCommandToIssue t.getCommandToIssue := by
  have hget : t.cmdQueue.getCommandToIssue t.channelState =
      s.cmdQueue.getCommandToIssue s.channelState := by
    rw [h.cmdQueue, h.channelState]
  unfold Controller.getCommandToIssue
  rw [hget]
  refine Library.Agree.bind (Library.Agree.of_eq rfl fun _ => rfl) ?_
  rintro ⟨cmd, q⟩ _ rfl
  cases cmd with
  | none => exact ⟨rfl, h.withQueue q⟩
  | some cmd =>
      dsimp only
      split
      · exact ⟨rfl, (h.withQueue q).record _ _⟩
      · exact ⟨rfl, h.withQueue q⟩

theorem selectCommand (h : Twins s t) : Library.Agree Pair s.selectCommand t.selectCommand := by
  have hfinish : t.cmdQueue.finishRefresh t.channelState =
      s.cmdQueue.finishRefresh s.channelState := by
    rw [h.cmdQueue, h.channelState]
  have hwaits : t.channelState.isRefreshWaiting = s.channelState.isRefreshWaiting := by
    rw [h.channelState]
  unfold Controller.selectCommand
  rw [hfinish, hwaits]
  split
  · refine Library.Agree.bind (Library.Agree.of_eq rfl fun _ => rfl) ?_
    rintro ⟨cmd, q⟩ _ rfl
    cases cmd with
    | none => exact (h.withQueue q).getCommandToIssue
    | some cmd => exact ⟨rfl, h.withQueue q⟩
  · exact h.getCommandToIssue

theorem completePending (h : Twins s t) (hcmd : cmd.SameUpToChannel cmd')
    (hrw : cmd.isReadWrite = true → cmd' = cmd) :
    Library.Agree Twins (s.completePending cmd) (t.completePending cmd') := by
  cases hc : cmd.isReadWrite with
  | true =>
      rw [hrw hc]
      unfold Controller.completePending
      rw [h.readsOf, h.writesOf, h.inPim, h.clk, h.pendingRdQ, h.pendingWrQ, h.returnQueue]
      split
      · dsimp only
        split
        · exact .error
        · exact ⟨h.rdW, h.rdIn, h.wr, by rw [h.rest]; rfl⟩
      · split
        · split
          · exact .error
          · exact ⟨h.rdW, h.rdIn, h.wr, by rw [h.rest]; rfl⟩
        · exact h
  | false =>
      obtain ⟨hread, hwrite⟩ := Command.isReadWrite_eq_false.mp hc
      have hread' : cmd'.isRead = false := by rw [hcmd.eq_mk]; exact hread
      have hwrite' : cmd'.isWrite = false := by rw [hcmd.eq_mk]; exact hwrite
      simp only [Controller.completePending, hread, hwrite, hread', hwrite', Bool.false_eq_true,
        if_false]
      exact h

theorem updateCommandStats (h : Twins s t) (hcmd : cmd.SameUpToChannel cmd') :
    Twins (s.updateCommandStats cmd) (t.updateCommandStats cmd') :=
  ⟨h.rdW, h.rdIn, h.wr, by rw [h.rest, hcmd.eq_mk]; rfl⟩

theorem withChannelState (h : Twins s t) (ch : ChannelState) :
    Twins { s with channelState := ch } { t with channelState := ch } :=
  ⟨h.rdW, h.rdIn, h.wr, by rw [h.rest]; rfl⟩

theorem issueCommand (h : Twins s t) (hcmd : cmd.SameUpToChannel cmd')
    (hrw : cmd.isReadWrite = true → cmd' = cmd) :
    Library.Agree Twins (s.issueCommand cmd) (t.issueCommand cmd') := by
  refine Library.Agree.bind ((h.record _ _).completePending hcmd hrw) fun s₁ t₁ h₁ => ?_
  have hstats := h₁.updateCommandStats hcmd
  have hupdate : (t₁.updateCommandStats cmd').channelState.updateTimingAndStates config
      (Timing.ofConfig config) cmd' (t₁.updateCommandStats cmd').clk =
      (s₁.updateCommandStats cmd).channelState.updateTimingAndStates config
        (Timing.ofConfig config) cmd (s₁.updateCommandStats cmd).clk := by
    rw [hstats.channelState, hstats.clk, ChannelState.updateTimingAndStates_eq _ _ _ hcmd]
  dsimp only
  rw [hupdate]
  refine Library.Agree.bind (Library.Agree.of_eq rfl fun _ => rfl) ?_
  rintro ch _ rfl
  exact hstats.withChannelState ch

theorem increment (h : Twins s t) (counter : Counter) :
    Twins (s.increment counter) (t.increment counter) :=
  ⟨h.rdW, h.rdIn, h.wr, by rw [h.rest]; rfl⟩

theorem issueSelected (h : Twins s t) (cmd : Command) :
    Library.Agree Twins (s.issueSelected cmd) (t.issueSelected cmd) := by
  refine Library.Agree.bind (h.issueCommand rfl fun _ => rfl) fun s₁ t₁ h₁ => ?_
  split
  · refine Library.Agree.bind h₁.getCommandToIssue ?_
    rintro ⟨second, s₂⟩ ⟨_, t₂⟩ ⟨rfl, h₂⟩
    cases second with
    | none => exact h₂
    | some second =>
        dsimp only
        split
        · refine Library.Agree.bind (h₂.issueCommand rfl fun _ => rfl) fun s₃ t₃ h₃ => ?_
          exact h₃.increment .hbmDualCmds
        · exact h₂
  · exact h₁

/-! ### The loops over the streams -/

theorem sameStream_append {l₁ l₁' l₂ l₂' : List Command} (h₁ : SameStream l₁ l₁')
    (h₂ : SameStream l₂ l₂') : SameStream (l₁ ++ l₂) (l₁' ++ l₂') :=
  List.rel_append h₁ h₂

theorem sameStream_singleton (h : cmd.SameUpToChannel cmd') (hrw : cmd.isReadWrite = false) :
    SameStream [cmd] [cmd'] := .cons ⟨h, hrw⟩ .nil

theorem answers_eq {ready ready' : Option Command}
    (h : Option.Rel Command.SameUpToChannel ready ready') (hcmd : cmd.SameUpToChannel cmd') :
    Controller.answers ready' cmd' = Controller.answers ready cmd := by
  cases h with
  | none => rfl
  | some h =>
      rw [hcmd.eq_mk, h.eq_mk]
      rfl

theorem pimReady (h : Twins s t) (column : CommandType) (hcmd : cmd.SameUpToChannel cmd') :
    Library.Agree (Option.Rel Command.SameUpToChannel) (s.pimReady column cmd)
      (t.pimReady column cmd') := by
  have hty : cmd'.cmdType = cmd.cmdType := by rw [hcmd.eq_mk]
  unfold Controller.pimReady
  rw [h.channelState, h.clk, hty]
  split
  · refine ChannelState.getReadyCommand_agree _ _ ?_
    rw [hcmd.eq_mk]
    rfl
  · exact ChannelState.getReadyCommand_agree _ _ hcmd

theorem issuePim (h : Twins s t) (hcmd : cmd.SameUpToChannel cmd') (hrw : cmd.isReadWrite = false) :
    Library.Agree Twins (s.issuePim cmd) (t.issuePim cmd') := by
  have hty : cmd'.cmdType = cmd.cmdType := by rw [hcmd.eq_mk]
  unfold Controller.issuePim
  rw [h.channelState, hty]
  split
  · exact h
  · exact h.issueCommand hcmd fun hc => by rw [hrw] at hc; cases hc

theorem rdWReady (h : Twins s t) (hcmd : cmd.SameUpToChannel cmd') :
    Library.Agree (Option.Rel Command.SameUpToChannel) (s.rdWReady cmd) (t.rdWReady cmd') := by
  have hty : cmd'.cmdType = cmd.cmdType := by rw [hcmd.eq_mk]
  unfold Controller.rdWReady
  rw [hty]
  split
  · exact .some hcmd
  · exact h.pimReady .ghRead hcmd

theorem issueRdW (hrest : SameStream rest rest') :
    ∀ {s t : Controller config} {kept kept' : List Command}, Twins s t → SameStream kept kept' →
      Library.Agree Twins (s.issueRdW kept rest) (t.issueRdW kept' rest') := by
  induction hrest with
  | nil => exact fun h hkept => ⟨hkept, h.rdIn, h.wr, by rw [h.rest]; rfl⟩
  | @cons cmd cmd' rest rest' hcmd _ ih =>
      intro s t kept kept' h hkept
      refine Library.Agree.bind (h.rdWReady hcmd.1) fun ready ready' hready => ?_
      rw [answers_eq hready hcmd.1]
      split
      · exact Library.Agree.bind (h.issuePim hcmd.1 hcmd.2) fun s₁ t₁ h₁ => ih h₁ hkept
      · exact ih h (sameStream_append hkept (sameStream_singleton hcmd.1 hcmd.2))

theorem issueRdIn (hrest : SameStream rest rest') :
    ∀ {s t : Controller config} {kept kept' : List Command} {keptTime times : List Int},
      Twins s t → SameStream kept kept' →
      Library.Agree Twins (s.issueRdIn kept keptTime rest times)
        (t.issueRdIn kept' keptTime rest' times) := by
  induction hrest with
  | nil => exact fun h hkept => ⟨h.rdW, hkept, h.wr, by rw [h.rest]; rfl⟩
  | @cons cmd cmd' rest rest' hcmd _ ih =>
      intro s t kept kept' keptTime times h hkept
      have hkeep := sameStream_append hkept (sameStream_singleton hcmd.1 hcmd.2)
      refine Library.Agree.bind (h.pimReady .ghRead hcmd.1) fun ready ready' hready => ?_
      rw [answers_eq hready hcmd.1]
      split
      · cases times with
        | nil => exact .error
        | cons time times =>
            dsimp only
            rw [h.clk]
            split
            · exact Library.Agree.bind (h.issuePim hcmd.1 hcmd.2) fun s₁ t₁ h₁ => ih h₁ hkept
            · exact ih h hkeep
      · exact ih h hkeep

theorem issueWr (hrest : SameStream rest rest') :
    ∀ {s t : Controller config} {kept kept' : List Command}, Twins s t → SameStream kept kept' →
      Library.Agree Twins (s.issueWr kept rest) (t.issueWr kept' rest') := by
  induction hrest with
  | nil => exact fun h hkept => ⟨h.rdW, h.rdIn, hkept, by rw [h.rest]; rfl⟩
  | @cons cmd cmd' rest rest' hcmd hrest ih =>
      intro s t kept kept' h hkept
      have hty : cmd'.cmdType = cmd.cmdType := by rw [hcmd.1.eq_mk]
      refine Library.Agree.bind (h.pimReady .pimWrite hcmd.1) fun ready ready' hready => ?_
      rw [answers_eq hready hcmd.1, h.channelState, hty]
      split
      · split
        · exact ih h hkept
        · refine Library.Agree.bind
            (h.issueCommand hcmd.1 fun hc => by rw [hcmd.2] at hc; cases hc) fun s₁ t₁ h₁ => ?_
          rw [h₁.wrMultitenant]
          split
          · exact ⟨h₁.rdW, h₁.rdIn, sameStream_append hkept hrest, by rw [h₁.rest]; rfl⟩
          · exact ih h₁ hkept
      · exact ih h (sameStream_append hkept (sameStream_singleton hcmd.1 hcmd.2))

theorem issuePimStreams (h : Twins s t) :
    Library.Agree Twins s.issuePimStreams t.issuePimStreams := by
  refine Library.Agree.bind (issueRdW h.rdW h .nil) fun s₁ t₁ h₁ => ?_
  rw [h₁.releaseTime]
  refine Library.Agree.bind (issueRdIn h₁.rdIn h₁ .nil) fun s₂ t₂ h₂ => ?_
  exact issueWr h₂.wr h₂ .nil

theorem pimIdle (h : Twins s t) : t.pimIdle = s.pimIdle := by
  have hempty {cmds cmds' : List Command} (hs : SameStream cmds cmds') :
      cmds'.isEmpty = cmds.isEmpty := by
    cases hs <;> rfl
  unfold Controller.pimIdle
  rw [hempty h.rdW, hempty h.rdIn, hempty h.wr]

/-! ### A tick -/

theorem issueCommands (h : Twins s t) : Library.Agree Pair s.issueCommands t.issueCommands := by
  refine Library.Agree.bind h.selectCommand ?_
  rintro ⟨cmd, s₁⟩ ⟨_, t₁⟩ ⟨rfl, h₁⟩
  dsimp only
  rw [h₁.pimIdle]
  split
  · cases cmd with
    | none => exact ⟨rfl, h₁⟩
    | some cmd =>
        exact Library.Agree.bind (h₁.issueSelected cmd) fun s₂ t₂ h₂ => ⟨rfl, h₂⟩
  · exact Library.Agree.bind h₁.issuePimStreams fun s₂ t₂ h₂ => ⟨rfl, h₂⟩

theorem updateIdleCycles (h : Twins s t) : Twins s.updateIdleCycles t.updateIdleCycles :=
  ⟨h.rdW, h.rdIn, h.wr, by rw [h.rest]; rfl⟩

/-- A request of `updateSelfRefresh`, with the other ranks left. -/
theorem selfRefreshRequest {rest : List Nat} (req : Command) (h : Twins s t)
    (hrest : Library.Agree Twins (s.updateSelfRefresh rest) (t.updateSelfRefresh rest)) :
    Library.Agree Twins
      (do match ← s.channelState.getReadyCommand config req s.clk with
        | some cmd => s.issueCommand cmd
        | none => s.updateSelfRefresh rest)
      (do match ← s.channelState.getReadyCommand config req s.clk with
        | some cmd => t.issueCommand cmd
        | none => t.updateSelfRefresh rest) := by
  refine Library.Agree.bind (Library.Agree.of_eq rfl fun _ => rfl) ?_
  rintro ready _ rfl
  cases ready with
  | none => exact hrest
  | some cmd => exact h.issueCommand rfl fun _ => rfl

theorem updateSelfRefresh :
    ∀ (ranks : List Nat) {s t : Controller config}, Twins s t →
      Library.Agree Twins (s.updateSelfRefresh ranks) (t.updateSelfRefresh ranks)
  | [], _, _, h => h
  | i :: rest, s, t, h => by
      unfold Controller.updateSelfRefresh
      dsimp only
      rw [h.channelState, h.cmdQueue, h.clk]
      split
      · split
        · exact h.selfRefreshRequest _ (updateSelfRefresh rest h)
        · exact updateSelfRefresh rest h
      · split
        · exact h.selfRefreshRequest _ (updateSelfRefresh rest h)
        · exact updateSelfRefresh rest h

theorem beforeSchedule (h : Twins s t) : Library.Agree Twins s.beforeSchedule t.beforeSchedule := by
  refine Library.Agree.bind h.tickRefresh fun s₁ t₁ h₁ => ?_
  refine Library.Agree.bind h₁.issueCommands ?_
  rintro ⟨cmdIssued, s₂⟩ ⟨_, t₂⟩ ⟨rfl, h₂⟩
  dsimp only
  split
  · exact updateSelfRefresh _ h₂.updateIdleCycles
  · exact h₂.updateIdleCycles

theorem writeDraining (h : Twins s t) : t.writeDraining = s.writeDraining := by rw [h.rest]; rfl

theorem writeBuffer (h : Twins s t) : t.writeBuffer = s.writeBuffer := by rw [h.rest]; rfl

theorem withDraining (h : Twins s t) (n : Int) :
    Twins { s with writeDraining := n } { t with writeDraining := n } :=
  ⟨h.rdW, h.rdIn, h.wr, by rw [h.rest]; rfl⟩

theorem startDraining (h : Twins s t) : Twins s.startDraining t.startDraining := by
  unfold Controller.startDraining
  simp only [h.writeDraining, h.writeBuffer, h.cmdQueue]
  split_ifs
  · exact ⟨h.rdW, h.rdIn, h.wr, by rw [h.rest]; rfl⟩
  · exact h
  · exact h

theorem setScheduledQueue (h : Twins s t) (queue : List Transaction) :
    Twins (s.setScheduledQueue queue) (t.setScheduledQueue queue) := by
  unfold Controller.setScheduledQueue
  simp only [h.writeDraining]
  split_ifs <;> exact ⟨h.rdW, h.rdIn, h.wr, by rw [h.rest]; rfl⟩

theorem scheduledQueue (h : Twins s t) : t.scheduledQueue = s.scheduledQueue := by
  rw [h.rest]
  rfl

theorem addCommand (h : Twins s t) (cmd : Command) :
    Twins { s with cmdQueue := s.cmdQueue.addCommand cmd }
      { t with cmdQueue := t.cmdQueue.addCommand cmd } :=
  ⟨h.rdW, h.rdIn, h.wr, by rw [h.rest]; rfl⟩

theorem drainOne (h : Twins s t) :
    Twins { s with writeDraining := s.writeDraining - 1 }
      { t with writeDraining := t.writeDraining - 1 } :=
  ⟨h.rdW, h.rdIn, h.wr, by rw [h.rest]; rfl⟩

theorem scheduleTransaction (h : Twins s t) :
    Twins s.scheduleTransaction t.scheduleTransaction := by
  have hstart := h.startDraining
  have hfirst :
      Controller.firstAccepted t.startDraining.cmdQueue [] t.startDraining.scheduledQueue =
      Controller.firstAccepted s.startDraining.cmdQueue [] s.startDraining.scheduledQueue := by
    rw [hstart.cmdQueue, hstart.scheduledQueue]
  unfold Controller.scheduleTransaction
  dsimp only
  rw [hfirst]
  split
  · exact hstart
  · rename_i before it rest _
    have hset := hstart.setScheduledQueue (before ++ rest)
    have hreads := hstart.readsOf it.addr
    split_ifs with hwrite hs ht ht
    · exact hstart.withDraining 0
    · rw [hreads] at ht
      exact absurd hs ht
    · rw [hreads] at ht
      exact absurd ht hs
    · exact hset.drainOne.addCommand _
    · exact hset.addCommand _

theorem clockTick (h : Twins s t) : Library.Agree Twins s.clockTick t.clockTick := by
  refine Library.Agree.bind h.beforeSchedule fun s₁ t₁ h₁ => ?_
  have hsched := h₁.scheduleTransaction
  exact ⟨hsched.rdW, hsched.rdIn, hsched.wr, by rw [hsched.rest]; rfl⟩

theorem returnDoneTrans (h : Twins s t) (clk : Nat) :
    Pair (s.returnDoneTrans clk) (t.returnDoneTrans clk) := by
  unfold Controller.returnDoneTrans
  rw [h.returnQueue]
  split
  · exact ⟨rfl, h⟩
  · exact ⟨rfl, h.rdW, h.rdIn, h.wr, by rw [h.rest]; rfl⟩

end Twins

end Dramsim
