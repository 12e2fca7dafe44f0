import Dramsim.Controller.Effects
import Dramsim.Library.Outcome

/-!
# The small steps of a controller

A clock tick is a sequence of small steps: bookkeeping, the removal of a column
command together with its issue, the removal of one that is then discarded, the
issue of another command, a PIM command, and the scheduling of a transaction.
`clockTick_proceeds` takes a tick apart once, also where it ends the process, so that
every invariant is a matter of the steps.
-/

namespace Dramsim

namespace Controller

variable {config : Config} {o s s' : Controller config}

/-! ## Steps -/

/-- The commands of the three PIM streams. -/
def pimCmds (s : Controller config) : List Command := s.rdWCmds ++ s.rdInCmds ++ s.wrCmds

theorem mem_pimCmds {cmd : Command} :
    cmd ∈ s.pimCmds ↔ cmd ∈ s.rdWCmds ∨ cmd ∈ s.rdInCmds ∨ cmd ∈ s.wrCmds := by
  simp only [pimCmds, List.append_assoc, List.mem_append]

/-- A request that the refresh logic makes. -/
def RefreshRequest (config : Config) (req : Command) : Prop :=
  config.Request req ∧ req.isRefresh = true

/-- Bookkeeping: no transaction and no queued command moves, and the banks stay. -/
structure Quiet (s s' : Controller config) : Prop where
  queues : s.cmdQueue.SameQueues s'.cmdQueue
  banks : s.channelState.SameBanks s'.channelState
  requests : ∀ req ∈ s'.channelState.refreshQ,
    req ∈ s.channelState.refreshQ ∨ RefreshRequest config req
  pim : ∀ cmd ∈ s'.pimCmds, cmd ∈ s.pimCmds
  clk : s'.clk = s.clk
  unifiedQueue : s'.unifiedQueue = s.unifiedQueue
  readQueue : s'.readQueue = s.readQueue
  writeBuffer : s'.writeBuffer = s.writeBuffer
  pendingRdQ : s'.pendingRdQ = s.pendingRdQ
  pendingWrQ : s'.pendingWrQ = s.pendingWrQ
  returnQueue : s'.returnQueue = s.returnQueue
  writeDraining : s'.writeDraining = s.writeDraining
  log : s'.log = s.log

/-- A column command is selected and leaves its queue. -/
structure Removed (s : Controller config) (cmd : Command) (s' : Controller config) : Prop where
  column : cmd.isReadWrite = true
  offered : s.cmdQueue.Offers s.channelState cmd
  erased : ∃ q₀ q : CommandQueue config, s.cmdQueue.SameQueues q₀ ∧
    q₀.eraseRWCommand cmd = .ok q ∧
    s' = record { s with cmdQueue := q } (.erased cmd)

/-- The requests that a controller makes without PIM commands. -/
inductive Asks (s : Controller config) : Command → Prop where
  | refresh {req : Command} : req ∈ s.channelState.refreshQ → Asks s req
  | queued {i : Nat} {req : Command} : i < config.numQueues → req ∈ s.cmdQueue.queues i → Asks s req
  | selfRefresh {i : Nat} : i < config.ranks →
      Asks s ⟨.srefEnter, { rank := i }, toU64 (-1)⟩

/-- The command answers a request of the controller, and is no column command. -/
def Answers (s : Controller config) (cmd : Command) : Prop :=
  cmd.isReadWrite = false ∧ ∃ req clk, s.Asks req ∧ (clk = s.clk ∨ clk = s.cmdQueue.clk) ∧
    s.channelState.getReadyCommand config req clk = .ok (some cmd)

/-- The command stands in a PIM stream and is due there. -/
def PimDue (s : Controller config) (cmd : Command) : Prop :=
  cmd ∈ s.pimCmds ∧
    (cmd.cmdType = .precharge ∨ ∃ req ready : Command,
      req.addr = cmd.addr ∧ req.hexAddr = cmd.hexAddr ∧
      s.channelState.getReadyCommand config req s.clk = .ok (some ready) ∧
      ready.cmdType = cmd.cmdType)

/-- Why a column command that is removed in the state `s` can be discarded: a PIM
command takes its slot, or another column command has been issued in this cycle.
Nothing but bookkeeping separates the removal of the first of them from the state
`o` at the start of the tick. -/
def Displaced (o s : Controller config) : Prop :=
  (Quiet o s ∧ s.pimIdle = false) ∨ (config.enableHbmDualCmd = true ∧
    ∃ s₀ s₁ first, Quiet o s₀ ∧ Removed s₀ first s₁ ∧ s₁.issueCommand first = .ok s)

/-- The small steps of a tick that starts in the state `o`. -/
inductive Step (o : Controller config) : Controller config → Controller config → Prop where
  | quiet {s s' : Controller config} : Quiet s s' → Step o s s'
  | serve {s s₁ s' : Controller config} {cmd : Command} :
      Removed s cmd s₁ → s₁.issueCommand cmd = .ok s' → Step o s s'
  | discard {s s' : Controller config} {cmd : Command} :
      Removed s cmd s' → Displaced o s → Step o s s'
  | answer {s s' : Controller config} {cmd : Command} :
      s.Answers cmd → s.issueCommand cmd = .ok s' → Step o s s'
  | pim {s s' : Controller config} {cmd : Command} :
      s.PimDue cmd → s.issueCommand cmd = .ok s' → Step o s s'
  | schedule {s : Controller config} : Step o s s.scheduleTransaction
  | advance {s : Controller config} :
      Step o s { s with clk := s.clk + 1, cmdQueue := s.cmdQueue.clockTick }

/-- The ways in which a step can end the process. -/
inductive Fails : Controller config → Exit → Prop where
  | request {s : Controller config} {e : Exit} : e.OfRequest → Fails s e
  | interval {s : Controller config} : Fails s .divisionByZero
  | release {s : Controller config} : Fails s .outOfRange
  | erase {s : Controller config} {cmd : Command} {q : CommandQueue config} {e : Exit} :
      cmd.isReadWrite = true → s.cmdQueue.Offers s.channelState cmd → s.cmdQueue.SameQueues q →
      q.eraseRWCommand cmd = .error e → Fails s e
  | serve {s s₁ : Controller config} {cmd : Command} {e : Exit} :
      Removed s cmd s₁ → s₁.issueCommand cmd = .error e → Fails s e
  | answer {s : Controller config} {cmd : Command} {e : Exit} :
      s.Answers cmd → s.issueCommand cmd = .error e → Fails s e
  | pim {s : Controller config} {cmd : Command} {e : Exit} :
      s.PimDue cmd → s.issueCommand cmd = .error e → Fails s e

/-! ## Moves

The moves of a tick say more than its steps: which requests are asked for, that no
refresh is added on the way, and what has been issued before in the same tick. -/

/-- The commands issued since the state `o` satisfy `P`. -/
def IssuedSince (o s : Controller config) (P : Command → Prop) : Prop :=
  ∃ events, s.log = o.log ++ events ∧ ∀ clk cmd waiting, .issued clk cmd waiting ∈ events → P cmd

/-- Bookkeeping that asks for no refresh. -/
structure Still (s s' : Controller config) : Prop extends Quiet s s' where
  refreshQ : s'.channelState.refreshQ = s.channelState.refreshQ

/-- The requests of a controller within a tick. -/
inductive Wants (s : Controller config) : Command → Prop where
  | refresh {req : Command} : req ∈ s.channelState.refreshQ → Wants s req
  | queued {i : Nat} {req : Command} : i < config.numQueues → req ∈ s.cmdQueue.queues i →
      Wants s req
  | sleep {i : Nat} : i < config.ranks → config.enableSelfRefresh = true →
      s.cmdQueue.rankQEmpty i = true → Wants s ⟨.srefEnter, { rank := i }, toU64 (-1)⟩

/-- The command answers a request of the tick, and is no column command. -/
def Wanted (s : Controller config) (cmd : Command) : Prop :=
  cmd.isReadWrite = false ∧ ∃ req clk, s.Wants req ∧ (clk = s.clk ∨ clk = s.cmdQueue.clk) ∧
    s.channelState.getReadyCommand config req clk = .ok (some cmd)

/-- The command answers a request that is made before anything has been issued. -/
def WantedFirst (o : Controller config) (cmd : Command) : Prop := ∃ s, Quiet o s ∧ s.Wanted cmd

/-- The moves of a tick that starts in the state `o`. -/
inductive Move (o : Controller config) : Controller config → Controller config → Prop where
  | still {s s' : Controller config} : Still s s' → Move o s s'
  /-- Only an answer comes before it in the same tick. -/
  | serve {s s₁ s' : Controller config} {cmd : Command} :
      Removed s cmd s₁ → IssuedSince o s o.WantedFirst → s₁.issueCommand cmd = .ok s' →
      Move o s s'
  | discard {s s' : Controller config} {cmd : Command} :
      Removed s cmd s' → Displaced o s → Move o s s'
  /-- Only a column command comes before it in the same tick. -/
  | answer {s s' : Controller config} {cmd : Command} :
      s.Wanted cmd → IssuedSince o s (fun c => c.isReadWrite = true) →
      s.issueCommand cmd = .ok s' → Move o s s'
  /-- Only commands of the streams come before it in the same tick. -/
  | pim {s s' : Controller config} {cmd : Command} :
      s.PimDue cmd → IssuedSince o s (fun c => c ∈ o.pimCmds) → cmd ∈ o.pimCmds →
      s.issueCommand cmd = .ok s' → Move o s s'

theorem Wants.asks {req : Command} (h : s.Wants req) : s.Asks req := by
  cases h with
  | refresh hmem => exact .refresh hmem
  | queued hi hmem => exact .queued hi hmem
  | sleep hi _ _ => exact .selfRefresh hi

theorem Wanted.answers {cmd : Command} (h : s.Wanted cmd) : s.Answers cmd := by
  obtain ⟨hcol, req, clk, hwants, hclk, hready⟩ := h
  exact ⟨hcol, req, clk, hwants.asks, hclk, hready⟩

/-- Every move is a step. -/
theorem Move.step (h : Move o s s') : Step o s s' := by
  cases h with
  | still hstill => exact .quiet hstill.toQuiet
  | serve hrem _ hissue => exact .serve hrem hissue
  | discard hrem hdis => exact .discard hrem hdis
  | answer hwanted _ hissue => exact .answer hwanted.answers hissue
  | pim hdue _ _ hissue => exact .pim hdue hissue

namespace IssuedSince

variable {o s s' : Controller config} {P Q : Command → Prop} {cmd : Command}

theorem refl (o : Controller config) : IssuedSince o o P :=
  ⟨[], (List.append_nil _).symm, fun _ _ _ h => absurd h List.not_mem_nil⟩

theorem mono (h : IssuedSince o s P) (hPQ : ∀ cmd, P cmd → Q cmd) : IssuedSince o s Q := by
  obtain ⟨events, hlog, hP⟩ := h
  exact ⟨events, hlog, fun clk cmd waiting hmem => hPQ cmd (hP clk cmd waiting hmem)⟩

theorem of_log (h : IssuedSince o s P) (hlog : s'.log = s.log) : IssuedSince o s' P := by
  obtain ⟨events, he, hP⟩ := h
  exact ⟨events, hlog.trans he, hP⟩

theorem append (h : IssuedSince o s P) {e : Event} (hlog : s'.log = s.log ++ [e])
    (he : ∀ clk cmd waiting, e = .issued clk cmd waiting → P cmd) : IssuedSince o s' P := by
  obtain ⟨events, hs, hP⟩ := h
  refine ⟨events ++ [e], by rw [hlog, hs, List.append_assoc], fun clk cmd waiting hmem => ?_⟩
  rcases List.mem_append.mp hmem with hmem | hmem
  · exact hP clk cmd waiting hmem
  · exact he clk cmd waiting (List.mem_singleton.mp hmem).symm

theorem of_removed (h : IssuedSince o s P) (hrem : Removed s cmd s') : IssuedSince o s' P := by
  obtain ⟨_, _, _, _, rfl⟩ := hrem.erased
  exact h.append rfl fun _ _ _ he => by cases he

theorem of_issued (h : IssuedSince o s P) (hissue : Issued s cmd s') (hcmd : P cmd) :
    IssuedSince o s' P := by
  refine h.append hissue.log fun _ c _ he => ?_
  cases he
  exact hcmd

end IssuedSince

/-- A computation that proceeds by moves. -/
abbrev Moves (o s : Controller config) (x : Except Exit (Controller config)) : Prop :=
  Library.Leads (Move o) Fails s x

/-- A computation that proceeds by small steps. -/
abbrev Proceeds (o s : Controller config) (x : Except Exit (Controller config)) : Prop :=
  Library.Leads (Step o) Fails s x

/-- An error after some moves. -/
abbrev FailsLater (o s : Controller config) (e : Exit) : Prop :=
  Library.FailsFrom (Move o) Fails s e

theorem Fails.later {e : Exit} (h : Fails s e) : FailsLater o s e :=
  ⟨s, .refl, h⟩

theorem Step.single (h : Step o s s') : Relation.ReflTransGen (Step o) s s' := .single h

/-! ## Bookkeeping -/

theorem Quiet.refl (s : Controller config) : Quiet s s :=
  ⟨.refl _, .refl _, fun _ hreq => Or.inl hreq, fun _ hcmd => hcmd, rfl, rfl, rfl, rfl, rfl, rfl,
    rfl, rfl, rfl⟩

theorem Quiet.trans {s'' : Controller config} (h : Quiet s s') (h' : Quiet s' s'') :
    Quiet s s'' where
  queues := h.queues.trans h'.queues
  banks := h.banks.trans h'.banks
  requests := fun req hreq => (h'.requests req hreq).elim (h.requests req) Or.inr
  pim := fun cmd hcmd => h.pim cmd (h'.pim cmd hcmd)
  clk := h'.clk.trans h.clk
  unifiedQueue := h'.unifiedQueue.trans h.unifiedQueue
  readQueue := h'.readQueue.trans h.readQueue
  writeBuffer := h'.writeBuffer.trans h.writeBuffer
  pendingRdQ := h'.pendingRdQ.trans h.pendingRdQ
  pendingWrQ := h'.pendingWrQ.trans h.pendingWrQ
  returnQueue := h'.returnQueue.trans h.returnQueue
  writeDraining := h'.writeDraining.trans h.writeDraining
  log := h'.log.trans h.log

theorem Quiet.of_queue {q : CommandQueue config} (h : s.cmdQueue.SameQueues q) :
    Quiet s { s with cmdQueue := q } :=
  ⟨h, .refl _, fun _ hreq => Or.inl hreq, fun _ hcmd => hcmd, rfl, rfl, rfl, rfl, rfl, rfl, rfl,
    rfl, rfl⟩

theorem Quiet.of_pim (hpim : ∀ cmd ∈ s'.pimCmds, cmd ∈ s.pimCmds)
    (h : s' = { s with
      rdWCmds := s'.rdWCmds, rdInCmds := s'.rdInCmds, wrCmds := s'.wrCmds
      releaseTime := s'.releaseTime }) : Quiet s s' := by
  rw [h] at hpim ⊢
  exact ⟨.refl _, .refl _, fun _ hreq => Or.inl hreq, hpim, rfl, rfl, rfl, rfl, rfl, rfl, rfl, rfl,
    rfl⟩

theorem Quiet.increment (s : Controller config) (counter : Counter) :
    Quiet s (s.increment counter) :=
  ⟨.refl _, .refl _, fun _ hreq => Or.inl hreq, fun _ hcmd => hcmd, rfl, rfl, rfl, rfl, rfl, rfl,
    rfl, rfl, rfl⟩

theorem Quiet.updateIdleCycles (s : Controller config) : Quiet s s.updateIdleCycles :=
  ⟨.refl _, ⟨rfl, rfl, rfl, rfl⟩, fun _ hreq => Or.inl hreq, fun _ hcmd => hcmd, rfl, rfl, rfl, rfl,
    rfl, rfl, rfl, rfl, rfl⟩

theorem Still.refl (s : Controller config) : Still s s := ⟨.refl s, rfl⟩

theorem Still.of_queue {q : CommandQueue config} (h : s.cmdQueue.SameQueues q) :
    Still s { s with cmdQueue := q } := ⟨.of_queue h, rfl⟩

theorem Still.of_pim (hpim : ∀ cmd ∈ s'.pimCmds, cmd ∈ s.pimCmds)
    (h : s' = { s with
      rdWCmds := s'.rdWCmds, rdInCmds := s'.rdInCmds, wrCmds := s'.wrCmds
      releaseTime := s'.releaseTime }) : Still s s' :=
  ⟨.of_pim hpim h, by rw [h]⟩

end Controller

/-! ## Refresh -/

namespace Refresh

variable {config : Config}

/-- The refresh logic only adds valid requests. -/
def Adds (config : Config) (ch ch' : ChannelState) : Prop :=
  ch.SameBanks ch' ∧ ∀ req ∈ ch'.refreshQ,
    req ∈ ch.refreshQ ∨ Controller.RefreshRequest config req

theorem Adds.refl (ch : ChannelState) : Adds config ch ch :=
  ⟨.refl ch, fun _ hreq => Or.inl hreq⟩

theorem Adds.rank {ch : ChannelState} {i : Nat} (hi : i < config.ranks) :
    Adds config ch (ch.rankNeedRefresh i true) := by
  refine ⟨⟨rfl, rfl, rfl, rfl⟩, fun req hreq => ?_⟩
  rcases List.mem_append.mp hreq with hreq | hreq
  · exact Or.inl hreq
  · rw [List.mem_singleton.mp hreq]
    exact Or.inr ⟨⟨rfl, by simpa [Command.isRankCMD, CommandType.isRankCMD] using hi⟩, rfl⟩

theorem Adds.bank {ch : ChannelState} {i j k : Nat} (hi : i < config.ranks)
    (hj : j < config.bankgroups) (hk : k < config.banksPerGroup) :
    Adds config ch (ch.bankNeedRefresh i j k true) := by
  refine ⟨⟨rfl, rfl, rfl, rfl⟩, fun req hreq => ?_⟩
  rcases List.mem_append.mp hreq with hreq | hreq
  · exact Or.inl hreq
  · rw [List.mem_singleton.mp hreq]
    refine Or.inr ⟨⟨rfl, ?_⟩, rfl⟩
    simpa [Command.isRankCMD, CommandType.isRankCMD, Config.HasBank, Command.bankIndex,
      Address.bankIndex] using ⟨hi, hj, hk⟩

theorem firstAwakeNeedsRefresh_adds (ch : ChannelState) :
    ∀ l : List Nat, (∀ i ∈ l, i < config.ranks) →
      Adds config ch (firstAwakeNeedsRefresh ch l)
  | [], _ => .refl ch
  | i :: rest, hl => by
      rw [firstAwakeNeedsRefresh]
      split
      · exact .rank (hl i (List.mem_cons_self ..))
      · exact firstAwakeNeedsRefresh_adds ch rest (fun j hj => hl j (List.mem_cons_of_mem _ hj))

theorem insertRefresh_adds (r : Refresh config) (ch : ChannelState) :
    Adds config ch (r.insertRefresh ch).2 := by
  unfold insertRefresh
  cases config.refreshPolicy with
  | rankLevelSimultaneous =>
      exact firstAwakeNeedsRefresh_adds ch _ (fun i hi => List.mem_range.mp hi)
  | rankLevelStaggered =>
      dsimp only
      split
      · exact .rank r.nextRank.isLt
      · exact .refl ch
  | bankLevelStaggered =>
      dsimp only
      split
      · exact .bank r.nextRank.isLt r.nextBg.isLt r.nextBank.isLt
      · exact .refl ch

theorem clockTick_ensures (r : Refresh config) (ch : ChannelState) :
    Library.Ensures (r.clockTick ch) (fun p => Adds config ch p.2)
      (fun e => e = .divisionByZero) := by
  unfold clockTick
  dsimp only
  split
  · exact rfl
  · split
    · exact insertRefresh_adds r ch
    · exact Adds.refl ch

end Refresh

namespace Controller

variable {config : Config} {o s s' : Controller config} {cmd : Command}

theorem tickRefresh_ensures (s : Controller config) :
    Library.Ensures s.tickRefresh (Quiet s) (Fails s) := by
  refine Library.Ensures.bind ((s.refresh.clockTick_ensures s.channelState).mono
    (fun _ hp => hp) ?_) ?_
  · rintro e rfl
    exact .interval
  · rintro ⟨refresh, ch⟩ ⟨hbanks, hreq⟩
    exact ⟨.refl _, hbanks, hreq, fun _ hcmd => hcmd, rfl, rfl, rfl, rfl, rfl, rfl, rfl, rfl, rfl⟩

/-! ## Selection -/

/-- What has been selected: nothing, a column command that has left its queue, or
the answer to a request. -/
def Picked (s : Controller config) (cmd : Option Command) (s' : Controller config) : Prop :=
  match cmd with
  | none => Still s s'
  | some cmd => (cmd.isReadWrite = true ∧ Removed s cmd s') ∨ (Still s s' ∧ s'.Wanted cmd)

theorem getCommandToIssue_ensures (s : Controller config) :
    Library.Ensures s.getCommandToIssue (fun r => s.Picked r.1 r.2) (Fails s) := by
  refine Library.Ensures.bind ((s.cmdQueue.getCommandToIssue_ensures s.channelState).mono
    (fun _ hr => hr) ?_) ?_
  · rintro e (he | ⟨cmd, q, hrw, hoff, hsame, he⟩)
    · exact .request he
    · exact .erase hrw hoff hsame he
  · rintro ⟨cmd, q⟩ hsel
    cases cmd with
    | none => exact Still.of_queue hsel
    | some cmd =>
        obtain ⟨hoff, hcol, hnot⟩ := hsel
        dsimp only
        split
        · rename_i hrw
          obtain ⟨q₀, hsame, her⟩ := hcol hrw
          exact Or.inl ⟨hrw, hrw, hoff, q₀, q, hsame, her, rfl⟩
        · rename_i hrw
          rw [Bool.not_eq_true] at hrw
          have hsame := hnot hrw
          obtain ⟨i, hi, hfirst⟩ := hoff
          obtain ⟨pre, entry, post, hyield⟩ := CommandQueue.getFirstReadyInQueue_spec hfirst
          have hentry : entry ∈ q.queues i := by
            rw [hsame.queues, hyield.split]
            exact List.mem_append_right _ (List.mem_cons_self ..)
          refine Or.inr ⟨.of_queue hsame, hrw, entry, q.clk, .queued hi hentry, Or.inr rfl, ?_⟩
          rw [hsame.clk]
          exact hyield.answer

theorem selectCommand_ensures (hs : ∀ req ∈ s.channelState.refreshQ, RefreshRequest config req) :
    Library.Ensures s.selectCommand
      (fun r => ∃ s₀, Still s s₀ ∧ s₀.Picked r.1 r.2) (FailsLater o s) := by
  unfold selectCommand
  split
  · refine Library.Ensures.bind ((s.cmdQueue.finishRefresh_ensures s.channelState).mono
      (fun _ hr => hr) (fun e he => (Fails.request he).later)) ?_
    rintro ⟨cmd, q⟩ ⟨hsame, hcmd⟩
    have hstill := Still.of_queue hsame
    cases cmd with
    | none =>
        refine (getCommandToIssue_ensures _).mono (fun r hr => ⟨_, hstill, hr⟩) ?_
        exact fun e he => ⟨_, .single (.still hstill), he⟩
    | some cmd =>
        obtain ⟨ref, href, hans⟩ := hcmd cmd rfl
        refine ⟨_, hstill, Or.inr ⟨.of_queue (.refl q), ?_, ref, q.clk, .refresh href, Or.inr rfl,
          ?_⟩⟩
        · -- a refresh request is never answered by a column command
          by_contra hrw
          rw [Bool.not_eq_false] at hrw
          have he := ChannelState.eq_of_isReadWrite hans hrw
          have hfresh := (hs ref href).2
          rw [he] at hfresh
          cases hty : cmd.cmdType <;>
            simp [Command.isRefresh, Command.isReadWrite, hty, CommandType.isRefresh,
              CommandType.isReadWrite, CommandType.isRead, CommandType.isWrite] at hfresh hrw
        · rw [hsame.clk]
          exact hans
  · exact (s.getCommandToIssue_ensures).mono (fun r hr => ⟨s, .refl s, hr⟩) (fun e he => he.later)

/-! ## Issue -/

/-- Issuing what has been selected.  An answer comes after column commands only, and
a column command after answers only. -/
theorem issuePicked_moves (h : s.Picked (some cmd) s')
    (hanswer : cmd.isReadWrite = false → IssuedSince o s fun c => c.isReadWrite = true)
    (hserve : cmd.isReadWrite = true → IssuedSince o s o.WantedFirst) :
    Moves o s (s'.issueCommand cmd) := by
  rcases h with ⟨hcol, hrem⟩ | ⟨hstill, hwanted⟩
  · exact .of_cases (fun s₁ hs₁ => .single (.serve hrem (hserve hcol) hs₁))
      (fun e he => (Fails.serve hrem he).later)
  · refine .of_cases (fun s₁ hs₁ => .tail (.single (.still hstill)) (.answer hwanted ?_ hs₁))
      (fun e he => ⟨s', .single (.still hstill), .answer hwanted.answers he⟩)
    exact (hanswer hwanted.1).of_log hstill.log

theorem Picked.issuedSince {s₁ : Controller config} {P : Command → Prop}
    (h : s.Picked (some cmd) s') (hissue : s'.issueCommand cmd = .ok s₁) (hcmd : P cmd)
    (ho : IssuedSince o s P) : IssuedSince o s₁ P := by
  have hs' : IssuedSince o s' P := by
    rcases h with ⟨_, hrem⟩ | ⟨hstill, _⟩
    · exact ho.of_removed hrem
    · exact ho.of_log hstill.log
  exact hs'.of_issued (issueCommand_spec hissue) hcmd

theorem Picked.wantedFirst (ho : Quiet o s) (h : s.Picked (some cmd) s')
    (hcmd : cmd.isReadWrite = false) : o.WantedFirst cmd := by
  rcases h with ⟨hcol, _⟩ | ⟨hstill, hwanted⟩
  · rw [hcmd] at hcol
    cases hcol
  · exact ⟨s', ho.trans hstill.toQuiet, hwanted⟩

theorem issueSelected_moves (ho : Quiet o s) (h : s.Picked (some cmd) s') :
    Moves o s (s'.issueSelected cmd) := by
  have hnone : ∀ P, IssuedSince o s P := fun P => (IssuedSince.refl o).of_log ho.log
  have hfirst : Moves o s (s'.issueCommand cmd) :=
    issuePicked_moves h (fun _ => hnone _) (fun _ => hnone _)
  refine Library.Ensures.bind (P := fun s₁ => Relation.ReflTransGen (Move o) s s₁ ∧
    s'.issueCommand cmd = .ok s₁) ?_ ?_
  · exact .of_cases (fun s₁ hs₁ => ⟨hfirst.of_ok hs₁, hs₁⟩) (fun e he => hfirst.of_error he)
  · rintro s₁ ⟨hmoves, hissue⟩
    split
    · rename_i hdual
      refine Library.Leads.head hmoves ?_
      refine Library.Ensures.bind ((s₁.getCommandToIssue_ensures).mono (fun _ hr => hr)
        (fun e he => he.later)) ?_
      rintro ⟨second, s₂⟩ hpicked
      cases second with
      | none => exact .single (.still hpicked)
      | some second =>
          dsimp only
          split
          · rename_i hkind
            refine Library.Leads.bind (issuePicked_moves hpicked (fun hnot => ?_) fun hcol => ?_)
              (fun s₃ => ?_)
            · rw [hnot] at hkind
              exact h.issuedSince hissue (Bool.eq_true_of_not_eq_false (Ne.symm hkind)) (hnone _)
            · rw [hcol] at hkind
              exact h.issuedSince hissue
                (h.wantedFirst ho (Bool.eq_false_of_not_eq_true (Ne.symm hkind))) (hnone _)
            · exact .single (.still ⟨.increment s₃ _, rfl⟩)
          · rename_i hkind
            rw [not_not] at hkind
            rcases hpicked with ⟨hrw, hrem⟩ | ⟨hstill, _⟩
            · refine .single (.discard hrem (Or.inr ⟨hdual, ?_⟩))
              rcases h with ⟨_, hfirst⟩ | ⟨_, hnot, _⟩
              · exact ⟨s, s', cmd, ho, hfirst, hissue⟩
              · rw [hkind, hnot] at hrw
                cases hrw
            · exact .single (.still hstill)
    · exact hmoves

/-! ## PIM streams -/

theorem pimReady_ensures (s : Controller config) (column : CommandType) (cmd : Command) :
    Library.Ensures (s.pimReady column cmd)
      (fun r => ∀ ready, r = some ready → ∃ req : Command, req.addr = cmd.addr ∧
        req.hexAddr = cmd.hexAddr ∧
        s.channelState.getReadyCommand config req s.clk = .ok (some ready))
      Exit.OfRequest := by
  unfold pimReady
  split
  · exact (s.channelState.getReadyCommand_ensures config _ s.clk).mono
      (fun r hr ready he => ⟨⟨column, cmd.addr, cmd.hexAddr⟩, rfl, rfl, he ▸ hr⟩) (fun _ he => he)
  · exact (s.channelState.getReadyCommand_ensures config cmd s.clk).mono
      (fun r hr ready he => ⟨cmd, rfl, rfl, he ▸ hr⟩) (fun _ he => he)

theorem answers_iff {ready : Option Command} :
    answers ready cmd = true ↔ ∃ r, ready = some r ∧ r.cmdType = cmd.cmdType := by
  cases ready with
  | none => simp [answers]
  | some r => simp [answers]

/-- A command of a stream that is answered by its own type is due. -/
theorem pimReady_due (column : CommandType) (hmem : cmd ∈ s.pimCmds) :
    Library.Ensures (s.pimReady column cmd) (fun r => answers r cmd = true → s.PimDue cmd)
      (FailsLater o s) := by
  refine (s.pimReady_ensures column cmd).mono (fun r hr hans => ?_)
    (fun e he => (Fails.request he).later)
  obtain ⟨ready, he, hty⟩ := answers_iff.mp hans
  obtain ⟨req, haddr, hhex, hready⟩ := hr ready he
  exact ⟨hmem, Or.inr ⟨req, ready, haddr, hhex, hready, hty⟩⟩

/-- The streams are served, and nothing else has been issued since `o`. -/
structure Serving (o s : Controller config) : Prop where
  pim : ∀ cmd ∈ s.pimCmds, cmd ∈ o.pimCmds
  issued : IssuedSince o s fun c => c ∈ o.pimCmds

theorem Serving.of_still (h : Serving o s) (hstill : Still s s') : Serving o s' :=
  ⟨fun cmd hcmd => h.pim cmd (hstill.pim cmd hcmd), h.issued.of_log hstill.log⟩

theorem Serving.of_issued (h : Serving o s) (hmem : cmd ∈ s.pimCmds) (hissue : Issued s cmd s') :
    Serving o s' := by
  refine ⟨fun c hc => h.pim c ?_, h.issued.of_issued hissue (h.pim cmd hmem)⟩
  rw [pimCmds, hissue.rdWCmds, hissue.rdInCmds, hissue.wrCmds] at hc
  exact hc

theorem issuePim_ensures (ho : Serving o s) (h : s.PimDue cmd) :
    Library.Ensures (s.issuePim cmd)
      (fun s' => Relation.ReflTransGen (Move o) s s' ∧ Serving o s' ∧ s'.rdWCmds = s.rdWCmds ∧
        s'.rdInCmds = s.rdInCmds ∧ s'.wrCmds = s.wrCmds) (FailsLater o s) := by
  unfold issuePim
  split
  · exact ⟨.refl, ho, rfl, rfl, rfl⟩
  · refine .of_cases (fun s' hs' => ?_) (fun e he => (Fails.pim h he).later)
    have hissued := issueCommand_spec hs'
    exact ⟨.single (.pim h ho.issued (ho.pim cmd h.1) hs'), ho.of_issued h.1 hissued,
      hissued.rdWCmds, hissued.rdInCmds, hissued.wrCmds⟩

/-- The streams are served by moves. -/
abbrev Serves (o s : Controller config) (x : Except Exit (Controller config)) : Prop :=
  Library.Ensures x (fun s' => Relation.ReflTransGen (Move o) s s' ∧ Serving o s') (FailsLater o s)

theorem Serves.head {x : Except Exit (Controller config)}
    (hmoves : Relation.ReflTransGen (Move o) s s') (h : Serves o s' x) : Serves o s x :=
  h.mono (fun _ h' => ⟨hmoves.trans h'.1, h'.2⟩) (fun _ he => he.head hmoves)

theorem Serves.still (ho : Serving o s) (h : Still s s') : Serves o s (.ok s') :=
  ⟨.single (.still h), ho.of_still h⟩

theorem issueRdW_serves :
    ∀ (l kept : List Command) (s : Controller config), Serving o s →
      (∀ cmd ∈ kept, cmd ∈ s.rdWCmds) → (∀ cmd ∈ l, cmd ∈ s.rdWCmds) →
      Serves o s (s.issueRdW kept l)
  | [], kept, s, ho, hkept, _ => by
      refine .still ho (.of_pim (fun cmd hcmd => ?_) rfl)
      exact mem_pimCmds.mpr ((mem_pimCmds.mp hcmd).imp_left (hkept cmd))
  | cmd :: rest, kept, s, ho, hkept, hl => by
      obtain ⟨hcmd, hrest⟩ := List.forall_mem_cons.mp hl
      have hmem : cmd ∈ s.pimCmds := mem_pimCmds.mpr (Or.inl hcmd)
      rw [issueRdW]
      refine Library.Ensures.bind (P := fun r => answers r cmd = true → s.PimDue cmd) ?_ ?_
      · unfold rdWReady
        split
        · rename_i hpre
          exact fun _ => ⟨hmem, Or.inl hpre⟩
        · exact pimReady_due .ghRead hmem
      · intro r hr
        split
        · rename_i hans
          refine Library.Ensures.bind (issuePim_ensures ho (hr hans)) ?_
          rintro s₁ ⟨hmoves, ho₁, hrdw, _, _⟩
          exact (issueRdW_serves rest kept s₁ ho₁ (hrdw ▸ hkept) (hrdw ▸ hrest)).head hmoves
        · refine issueRdW_serves rest (kept ++ [cmd]) s ho ?_ hrest
          exact List.forall_mem_append.mpr ⟨hkept, List.forall_mem_singleton.mpr hcmd⟩

theorem issueRdIn_serves :
    ∀ (l : List Command) (times : List Int) (kept : List Command) (keptTime : List Int)
      (s : Controller config), Serving o s → (∀ cmd ∈ kept, cmd ∈ s.rdInCmds) →
      (∀ cmd ∈ l, cmd ∈ s.rdInCmds) → Serves o s (s.issueRdIn kept keptTime l times)
  | [], times, kept, keptTime, s, ho, hkept, _ => by
      refine .still ho (.of_pim (fun cmd hcmd => ?_) rfl)
      exact mem_pimCmds.mpr ((mem_pimCmds.mp hcmd).imp_right (Or.imp_left (hkept cmd)))
  | cmd :: rest, times, kept, keptTime, s, ho, hkept, hl => by
      obtain ⟨hcmd, hrest⟩ := List.forall_mem_cons.mp hl
      have hmem : cmd ∈ s.pimCmds := mem_pimCmds.mpr (Or.inr (Or.inl hcmd))
      have hkept' : ∀ c ∈ kept ++ [cmd], c ∈ s.rdInCmds :=
        List.forall_mem_append.mpr ⟨hkept, List.forall_mem_singleton.mpr hcmd⟩
      unfold issueRdIn
      refine Library.Ensures.bind (pimReady_due .ghRead hmem) ?_
      intro r hdue
      split
      · rename_i hans
        cases times with
        | nil => exact Fails.release.later
        | cons time times =>
            dsimp only
            split
            · refine Library.Ensures.bind (issuePim_ensures ho (hdue hans)) ?_
              rintro s₁ ⟨hmoves, ho₁, _, hrdin, _⟩
              exact (issueRdIn_serves rest times kept keptTime s₁ ho₁ (hrdin ▸ hkept)
                (hrdin ▸ hrest)).head hmoves
            · exact issueRdIn_serves rest times _ _ s ho hkept' hrest
      · exact issueRdIn_serves rest _ _ _ s ho hkept' hrest

theorem issueWr_serves :
    ∀ (l kept : List Command) (s : Controller config), Serving o s →
      (∀ cmd ∈ kept, cmd ∈ s.wrCmds) → (∀ cmd ∈ l, cmd ∈ s.wrCmds) →
      Serves o s (s.issueWr kept l)
  | [], kept, s, ho, hkept, _ => by
      refine .still ho (.of_pim (fun cmd hcmd => ?_) rfl)
      exact mem_pimCmds.mpr ((mem_pimCmds.mp hcmd).imp_right (Or.imp_right (hkept cmd)))
  | cmd :: rest, kept, s, ho, hkept, hl => by
      obtain ⟨hcmd, hrest⟩ := List.forall_mem_cons.mp hl
      have hmem : cmd ∈ s.pimCmds := mem_pimCmds.mpr (Or.inr (Or.inr hcmd))
      rw [issueWr]
      refine Library.Ensures.bind (pimReady_due .pimWrite hmem) ?_
      intro r hr
      split
      · rename_i hans
        have hdue := hr hans
        split
        · exact issueWr_serves rest kept s ho hkept hrest
        · refine Library.Ensures.bind (P := fun s₁ => Move o s s₁ ∧ Serving o s₁ ∧
            s₁.wrCmds = s.wrCmds) ?_ ?_
          · refine .of_cases (fun s₁ hs₁ => ?_) (fun e he => (Fails.pim hdue he).later)
            have hissued := issueCommand_spec hs₁
            exact ⟨.pim hdue ho.issued (ho.pim cmd hmem) hs₁, ho.of_issued hmem hissued,
              hissued.wrCmds⟩
          · rintro s₁ ⟨hmove, ho₁, hwr⟩
            refine Serves.head (.single hmove) ?_
            split
            · -- the loop ends, and the rest of the stream stays
              refine .still ho₁ (.of_pim (fun c hc => ?_) rfl)
              refine mem_pimCmds.mpr ((mem_pimCmds.mp hc).imp_right (Or.imp_right fun hc => ?_))
              rw [hwr]
              exact (List.mem_append.mp hc).elim (hkept c) (hrest c)
            · exact issueWr_serves rest kept s₁ ho₁ (hwr ▸ hkept) (hwr ▸ hrest)
      · refine issueWr_serves rest (kept ++ [cmd]) s ho ?_ hrest
        exact List.forall_mem_append.mpr ⟨hkept, List.forall_mem_singleton.mpr hcmd⟩

theorem issuePimStreams_serves (ho : Serving o s) : Serves o s s.issuePimStreams := by
  refine Library.Ensures.bind (issueRdW_serves _ _ s ho (by simp) (fun _ hc => hc)) ?_
  rintro s₁ ⟨hmoves₁, ho₁⟩
  refine Library.Ensures.bind ((issueRdIn_serves _ _ _ _ s₁ ho₁ (by simp) (fun _ hc => hc)).head
    hmoves₁) ?_
  rintro s₂ ⟨hmoves₂, ho₂⟩
  exact (issueWr_serves _ _ s₂ ho₂ (by simp) (fun _ hc => hc)).head hmoves₂

/-! ## The whole tick -/

/-- The flag tells whether something has been issued. -/
theorem issueCommands_ensures (ho : Quiet o s)
    (hs : ∀ req ∈ s.channelState.refreshQ, RefreshRequest config req) :
    Library.Ensures s.issueCommands (fun r => Relation.ReflTransGen (Move o) s r.2 ∧
      (r.1 = false → IssuedSince o r.2 fun _ => False)) (FailsLater o s) := by
  refine Library.Ensures.bind (selectCommand_ensures hs) ?_
  rintro ⟨cmd, s₁⟩ ⟨s₀, hstill, hpicked⟩
  have hs₀ : Relation.ReflTransGen (Move o) s s₀ := .single (.still hstill)
  have ho₀ := ho.trans hstill.toQuiet
  dsimp only
  split
  · cases cmd with
    | none =>
        refine ⟨hs₀.tail (.still hpicked), fun _ => ?_⟩
        exact (IssuedSince.refl o).of_log (hpicked.log.trans ho₀.log)
    | some cmd =>
        refine Library.Ensures.bind ((issueSelected_moves ho₀ hpicked).mono
          (fun _ h => hs₀.trans h) (fun _ he => he.head hs₀)) ?_
        exact fun _ h => ⟨h, fun hfalse => by cases hfalse⟩
  · rename_i hpim
    obtain ⟨hs₁, ho₁⟩ : Relation.ReflTransGen (Move o) s s₁ ∧ Serving o s₁ := by
      have hserving : Serving o s₀ := ⟨ho₀.pim, (IssuedSince.refl o).of_log ho₀.log⟩
      cases cmd with
      | none => exact ⟨hs₀.tail (.still hpicked), hserving.of_still hpicked⟩
      | some cmd =>
          rcases hpicked with ⟨_, hrem⟩ | ⟨hq, _⟩
          · refine ⟨hs₀.tail (.discard hrem (Or.inl ⟨ho₀, ?_⟩)), ?_,
              hserving.issued.of_removed hrem⟩
            · obtain ⟨q₀, q, _, _, rfl⟩ := hrem.erased
              rw [Bool.not_eq_true, Bool.or_eq_false_iff] at hpim
              exact hpim.2
            · obtain ⟨q₀, q, _, _, rfl⟩ := hrem.erased
              exact hserving.pim
          · exact ⟨hs₀.tail (.still hq), hserving.of_still hq⟩
    refine Library.Ensures.bind ((issuePimStreams_serves ho₁).head hs₁) ?_
    exact fun _ h => ⟨h.1, fun hfalse => by cases hfalse⟩

/-- No bank answers a request to leave self refresh. -/
theorem not_ready_srefExit (s : ChannelState) (i clk : Nat) (answer : Option Command) :
    s.getReadyCommand config ⟨.srefExit, { rank := i }, toU64 (-1)⟩ clk ≠ .ok answer := by
  intro h
  have hbank : ∀ (b : BankState) (r : Option Command),
      b.getReadyCommand ⟨.srefExit, { rank := i }, toU64 (-1)⟩ clk ≠ .ok r := by
    intro b r hb
    obtain ⟨ty, hty, _⟩ := Library.bind_eq_ok.mp hb
    unfold BankState.requiredType at hty
    cases hs : b.state <;> rw [hs] at hty <;> cases hty
  have hrank : ChannelState.rankReadyCommand config s ⟨.srefExit, { rank := i }, toU64 (-1)⟩ clk
      (config.rankBanks i) 0 none = .ok answer := h
  cases hl : config.rankBanks i with
  | nil => exact List.ne_nil_of_mem (config.exists_mem_rankBanks i) hl
  | cons ix rest =>
      rw [hl, ChannelState.rankReadyCommand] at hrank
      obtain ⟨r, hr, _⟩ := Library.bind_eq_ok.mp hrank
      exact hbank _ r hr

/-- The loop puts at most one rank to sleep that is awake. -/
theorem updateSelfRefresh_cases :
    ∀ l : List Nat, s.updateSelfRefresh l = .ok s' → s' = s ∨
      ∃ i ∈ l, ∃ cmd, s.channelState.rankIsSref i = false ∧
        s.channelState.getReadyCommand config ⟨.srefEnter, { rank := i }, toU64 (-1)⟩ s.clk =
          .ok (some cmd) ∧ s.issueCommand cmd = .ok s'
  | [], h => by
      cases h
      exact .inl rfl
  | i :: rest, h => by
      have hrest (h : s.updateSelfRefresh rest = .ok s') := updateSelfRefresh_cases rest h
      rw [updateSelfRefresh] at h
      dsimp only at h
      split at h
      · split at h
        · obtain ⟨ready, hready, _⟩ := Library.bind_eq_ok.mp h
          exact absurd hready (not_ready_srefExit _ _ _ _)
        · exact (hrest h).imp_right fun ⟨j, hj, hcmd⟩ => ⟨j, List.mem_cons_of_mem _ hj, hcmd⟩
      · rename_i hawake
        split at h
        · obtain ⟨ready, hready, h⟩ := Library.bind_eq_ok.mp h
          cases ready with
          | none =>
              exact (hrest h).imp_right fun ⟨j, hj, hcmd⟩ => ⟨j, List.mem_cons_of_mem _ hj, hcmd⟩
          | some cmd =>
              exact .inr ⟨i, List.mem_cons_self .., cmd, by simpa using hawake, hready, h⟩
        · exact (hrest h).imp_right fun ⟨j, hj, hcmd⟩ => ⟨j, List.mem_cons_of_mem _ hj, hcmd⟩

theorem updateSelfRefresh_moves (s : Controller config) (hsleep : config.enableSelfRefresh = true)
    (ho : IssuedSince o s fun _ => False) :
    ∀ l : List Nat, (∀ i ∈ l, i < config.ranks) → Moves o s (s.updateSelfRefresh l)
  | [], _ => .refl s
  | i :: rest, hl => by
      have hrest := updateSelfRefresh_moves s hsleep ho rest
        (fun j hj => hl j (List.mem_cons_of_mem _ hj))
      rw [updateSelfRefresh]
      dsimp only
      split
      · split
        · refine Library.Ensures.bind ((s.channelState.getReadyCommand_ensures config _ s.clk).mono
            (fun _ hr => hr) (fun e he => (Fails.request he).later)) ?_
          intro r hr
          exact absurd hr (not_ready_srefExit _ _ _ _)
        · exact hrest
      · split
        · rename_i hidle
          rw [Bool.and_eq_true] at hidle
          refine Library.Ensures.bind ((s.channelState.getReadyCommand_ensures config _ s.clk).mono
            (fun _ hr => hr) (fun e he => (Fails.request he).later)) ?_
          intro r hr
          cases r with
          | none => exact hrest
          | some cmd =>
              have hwanted : s.Wanted cmd := by
                refine ⟨?_, _, s.clk, .sleep (hl i (List.mem_cons_self ..)) hsleep hidle.1,
                  Or.inl rfl, hr⟩
                by_contra hrw
                rw [Bool.not_eq_false] at hrw
                have he := ChannelState.eq_of_isReadWrite hr hrw
                rw [← he] at hrw
                cases hrw
              exact .of_cases
                (fun s₁ hs₁ => .single (.answer hwanted (ho.mono fun _ h => h.elim) hs₁))
                (fun e he => (Fails.answer hwanted.answers he).later)
        · exact hrest

/-- `ClockTick` up to the scheduling of transactions: the refresh counter, and then
moves. -/
theorem beforeSchedule_ensures (hs : ∀ req ∈ s.channelState.refreshQ, RefreshRequest config req) :
    Library.Ensures s.beforeSchedule
      (fun s₂ => ∃ s₁, s.tickRefresh = .ok s₁ ∧ Relation.ReflTransGen (Move s) s₁ s₂)
      (fun e => Fails s e ∨ ∃ s₁, s.tickRefresh = .ok s₁ ∧ FailsLater s s₁ e) := by
  refine Library.Ensures.bind (P := fun s₁ => s.tickRefresh = .ok s₁ ∧ Quiet s s₁) ?_ ?_
  · exact .of_cases (fun s₁ hs₁ => ⟨hs₁, s.tickRefresh_ensures.of_ok hs₁⟩)
      (fun e he => Or.inl (s.tickRefresh_ensures.of_error he))
  rintro s₁ ⟨htick, hquiet⟩
  have hs₁ : ∀ req ∈ s₁.channelState.refreshQ, RefreshRequest config req := fun req hreq =>
    (hquiet.requests req hreq).elim (hs req) id
  refine Library.Ensures.bind ((issueCommands_ensures hquiet hs₁).mono (fun _ h => h)
    (fun _ he => Or.inr ⟨s₁, htick, he⟩)) ?_
  rintro ⟨cmdIssued, s₂⟩ ⟨hs₂, hnone⟩
  have hidle := hs₂.tail (.still ⟨.updateIdleCycles s₂, rfl⟩)
  dsimp only
  split
  · rename_i hsleep
    rw [Bool.and_eq_true, Bool.not_eq_true'] at hsleep
    have hnone' : IssuedSince s s₂.updateIdleCycles fun _ => False := (hnone hsleep.2).of_log rfl
    have hmoves :=
      (updateSelfRefresh_moves _ hsleep.1 hnone' _ (fun i hi => List.mem_range.mp hi)).head
      hidle
    exact hmoves.mono (fun _ h => ⟨s₁, htick, h⟩) (fun _ he => Or.inr ⟨s₁, htick, he⟩)
  · exact ⟨s₁, htick, hidle⟩

/-- The parts of a tick that ends normally. -/
theorem clockTick_parts (h : s.clockTick = .ok s') :
    ∃ s₀ issued s₁ s₂, s.tickRefresh = .ok s₀ ∧ s₀.issueCommands = .ok (issued, s₁) ∧
      (s₂ = s₁.updateIdleCycles ∨ (config.enableSelfRefresh = true ∧ issued = false ∧
        s₁.updateIdleCycles.updateSelfRefresh (List.range config.ranks) = .ok s₂)) ∧
      s' = { s₂.scheduleTransaction with
        clk := s₂.scheduleTransaction.clk + 1
        cmdQueue := s₂.scheduleTransaction.cmdQueue.clockTick } := by
  obtain ⟨s₂, hbefore, h⟩ := Library.bind_eq_ok.mp h
  obtain ⟨s₀, htick, hbefore⟩ := Library.bind_eq_ok.mp hbefore
  obtain ⟨⟨issued, s₁⟩, hissue, hbefore⟩ := Library.bind_eq_ok.mp hbefore
  cases h
  refine ⟨s₀, issued, s₁, s₂, htick, hissue, ?_, rfl⟩
  dsimp only at hbefore
  split at hbefore
  · rename_i hsleep
    rw [Bool.and_eq_true, Bool.not_eq_true'] at hsleep
    exact .inr ⟨hsleep.1, hsleep.2, hbefore⟩
  · cases hbefore
    exact .inl rfl

/-- `ClockTick` up to the scheduling of transactions is a sequence of steps. -/
theorem beforeSchedule_proceeds (hs : ∀ req ∈ s.channelState.refreshQ, RefreshRequest config req) :
    Proceeds s s s.beforeSchedule := by
  have hfirst : ∀ {s₁}, s.tickRefresh = .ok s₁ → Relation.ReflTransGen (Step s) s s₁ := by
    intro s₁ htick
    exact .single (.quiet (s.tickRefresh_ensures.of_ok htick))
  refine (beforeSchedule_ensures hs).mono ?_ ?_
  · rintro s₂ ⟨s₁, htick, hmoves⟩
    exact (hfirst htick).trans (hmoves.lift id fun _ _ h => h.step)
  · rintro e (he | ⟨s₁, htick, s₂, hmoves, he⟩)
    · exact ⟨s, .refl, he⟩
    · exact ⟨s₂, (hfirst htick).trans (hmoves.lift id fun _ _ h => h.step), he⟩

/-- `ClockTick` is a sequence of steps. -/
theorem clockTick_proceeds (hs : ∀ req ∈ s.channelState.refreshQ, RefreshRequest config req) :
    Proceeds s s s.clockTick := by
  refine Library.Leads.bind (beforeSchedule_proceeds hs) (fun s₁ => ?_)
  exact (Step.schedule.single).tail .advance

end Controller

end Dramsim
