import Dramsim.Controller.History

/-!
# The commands of a tick

Every command that a tick issues comes from one of three places: a queue, a request
of the controller or a PIM stream.  `Issues` says which, in terms of the state in
which the tick starts, and with it what has been issued before in the same tick.

`issue_invariant` is the induction rule for facts about the commands that have been
issued, PIM commands included.
-/

namespace Dramsim

namespace Refresh

variable {config : Config} {channel : ChannelState} {req : Command}

/-- A refresh is asked for in this cycle. -/
def isDue (r : Refresh config) : Bool := r.clk % toU64 config.refreshInterval = 0 && 0 < r.clk

/-- The bank whose turn it is. -/
def nextIndex (r : Refresh config) : BankIndex :=
  ⟨(r.nextRank : Nat), (r.nextBg : Nat), (r.nextBank : Nat)⟩

/-- A request that the counter makes in this cycle.  Only one bank can be meant. -/
def Requests (r : Refresh config) (req : Command) : Prop :=
  r.isDue = true ∧ (req.cmdType = .refreshBank → req.bankIndex = r.nextIndex)

/-- The bank of the new requests. -/
theorem bankIndex_of_firstAwake :
    ∀ {l : List Nat}, req ∈ (firstAwakeNeedsRefresh channel l).refreshQ →
      req ∈ channel.refreshQ ∨ req.cmdType = .refresh
  | [], h => Or.inl h
  | i :: rest, h => by
      unfold firstAwakeNeedsRefresh at h
      split at h
      · rcases List.mem_append.mp h with h | h
        · exact Or.inl h
        · rw [List.mem_singleton.mp h]
          exact Or.inr rfl
      · exact bankIndex_of_firstAwake h

theorem mem_insertRefresh {r : Refresh config} (h : req ∈ (r.insertRefresh channel).2.refreshQ) :
    req ∈ channel.refreshQ ∨ (req.cmdType = .refreshBank → req.bankIndex = r.nextIndex) := by
  unfold insertRefresh at h
  cases hp : config.refreshPolicy <;> rw [hp] at h <;> dsimp only at h
  case rankLevelSimultaneous =>
    refine (bankIndex_of_firstAwake h).imp_right fun hty hbank => ?_
    rw [hty] at hbank
    cases hbank
  case rankLevelStaggered =>
    split at h
    · refine (List.mem_append.mp h).imp_right fun h hbank => ?_
      rw [List.mem_singleton.mp h] at hbank
      cases hbank
    · exact Or.inl h
  case bankLevelStaggered =>
    split at h
    · refine (List.mem_append.mp h).imp_right fun h _ => ?_
      rw [List.mem_singleton.mp h]
      rfl
    · exact Or.inl h

theorem mem_clockTick {r r' : Refresh config} {channel' : ChannelState}
    (hok : r.clockTick channel = .ok (r', channel')) (h : req ∈ channel'.refreshQ) :
    req ∈ channel.refreshQ ∨ r.Requests req := by
  unfold clockTick at hok
  dsimp only at hok
  split at hok
  · cases hok
  · split at hok
    · rename_i hdue
      cases hok
      refine (mem_insertRefresh h).imp_right fun hbank => ⟨?_, hbank⟩
      rw [isDue, Bool.and_eq_true, decide_eq_true_eq, decide_eq_true_eq]
      exact hdue
    · cases hok
      exact Or.inl h

end Refresh

namespace Controller

variable {config : Config} {o s s' : Controller config} {cond : Controller config → Op → Prop}
  {cmd : Command} {Inv : Controller config → Prop} {op : Op}

/-! ## The requests of a controller -/

theorem request_transToCommand (it : Transaction) :
    config.Request (transToCommand config it) ∧
      (transToCommand config it).cmdType.isPimColumn = false := by
  have hcol := columnType_isReadWrite config it.isWrite
  have hrank : (transToCommand config it).isRankCMD = false :=
    CommandType.isRankCMD_of_isReadWrite hcol
  refine ⟨⟨?_, ?_⟩, CommandType.isPimColumn_of_isReadWrite hcol⟩
  · rw [CommandType.isRequest, Bool.or_eq_true]
    exact Or.inl (CommandType.isColumn_of_isReadWrite hcol)
  · rw [hrank, if_neg Bool.false_ne_true]
    exact hasBank_transToCommand it

theorem Asks.request {req : Command} (hs : s.Sound) (h : s.Asks req) :
    config.Request req ∧ req.cmdType.isPimColumn = false := by
  cases h with
  | refresh hmem =>
      obtain ⟨hreq, href⟩ := hs.requests req hmem
      refine ⟨hreq, ?_⟩
      rw [Command.isRefresh] at href
      cases hty : req.cmdType <;> rw [hty] at href <;> first | rfl | cases href
  | @queued i _ _ hmem =>
      obtain ⟨_, it, rfl⟩ := hs.entries i req hmem
      exact request_transToCommand it
  | @selfRefresh i hi =>
      exact ⟨⟨rfl, Int.natCast_nonneg i, Int.ofNat_lt.mpr hi⟩, rfl⟩

/-! ## Within a tick -/

/-- What a state within a tick keeps of the state `o` in which the tick starts. -/
structure Within (o s : Controller config) : Prop where
  clk : s.clk = o.clk
  queues : ∀ i, ∀ cmd ∈ s.cmdQueue.queues i, cmd ∈ o.cmdQueue.queues i
  rankQEmpty : s.cmdQueue.rankQEmpty = o.cmdQueue.rankQEmpty
  pim : ∀ cmd ∈ s.pimCmds, cmd ∈ o.pimCmds
  requests : ∀ req ∈ s.channelState.refreshQ,
    req ∈ o.channelState.refreshQ ∨ o.refresh.Requests req

theorem Within.of_tickRefresh (h : o.tickRefresh = .ok s) : Within o s := by
  obtain ⟨⟨refresh, channel⟩, htick, h⟩ := Library.bind_eq_ok.mp h
  cases h
  exact ⟨rfl, fun _ _ hcmd => hcmd, rfl, fun _ hcmd => hcmd, fun req hreq =>
    Refresh.mem_clockTick htick hreq⟩

theorem Within.of_still (h : Within o s) (hstill : Still s s') :
    Within o s' where
  clk := hstill.clk.trans h.clk
  queues := hstill.queues.queues ▸ h.queues
  rankQEmpty := hstill.queues.rankQEmpty.trans h.rankQEmpty
  pim := fun cmd hcmd => h.pim cmd (hstill.pim cmd hcmd)
  requests := hstill.refreshQ ▸ h.requests

theorem Within.of_issued (h : Within o s) (hissue : Issued s cmd s') : Within o s' where
  clk := hissue.clk.trans h.clk
  queues := hissue.cmdQueue ▸ h.queues
  rankQEmpty := hissue.cmdQueue ▸ h.rankQEmpty
  pim := fun c hc => h.pim c (hissue.pimCmds ▸ hc)
  requests := fun req hreq =>
    h.requests req (ChannelState.mem_refreshQ_of_update hissue.channel hreq)

theorem Within.of_removed (h : Within o s) (hrem : Removed s cmd s') : Within o s' := by
  obtain ⟨q₀, q, hsame, her, rfl⟩ := hrem.erased
  unfold CommandQueue.eraseRWCommand at her
  dsimp only at her
  split at her
  · cases her
    refine ⟨h.clk, fun i c hc => ?_, hsame.rankQEmpty.trans h.rankQEmpty, h.pim, h.requests⟩
    refine h.queues i c ?_
    rw [← hsame.queues]
    by_cases hi : i = config.queueOf cmd.addr
    · subst hi
      simp only [record, Function.update_self] at hc
      exact List.mem_of_mem_eraseP hc
    · simp only [record, Function.update_of_ne hi] at hc
      exact hc
  · cases her

/-! ## Where a command comes from -/

/-- The ways in which a tick that starts in the state `o` issues a command in the
state `s`. -/
inductive Issues (o s : Controller config) (cmd : Command) : Prop where
  /-- A column command of a queue. -/
  | serve {i : Nat} : cmd ∈ o.cmdQueue.queues i → cmd.isReadWrite = true →
      s.channelState.getReadyCommand config cmd s.clk = .ok (some cmd) →
      IssuedSince o s o.WantedFirst → Issues o s cmd
  /-- The answer to a request. -/
  | answer : s.Wanted cmd → IssuedSince o s (fun c => c.isReadWrite = true) → Issues o s cmd
  /-- A command of a PIM stream. -/
  | pim : s.PimDue cmd → IssuedSince o s (fun c => c ∈ o.pimCmds) → cmd ∈ o.pimCmds → Issues o s cmd

/-- A command has been issued before the tick, or satisfies what holds since. -/
theorem IssuedSince.mem {P : Command → Prop} (h : IssuedSince o s P) {e : Nat × Command}
    (he : e ∈ s.issuedCommands) : e ∈ o.issuedCommands ∨ P e.2 := by
  obtain ⟨events, hlog, hP⟩ := h
  rw [issuedCommands, hlog, List.filterMap_append, List.mem_append] at he
  refine he.imp_right fun he => ?_
  obtain ⟨event, hevent, hcmd⟩ := List.mem_filterMap.mp he
  cases event <;> simp only [Event.command?, reduceCtorEq, Option.some.injEq] at hcmd
  exact hcmd ▸ hP _ _ _ hevent

/-- The streams hold commands of PIM kernels only. -/
def Streams (s : Controller config) : Prop := ∀ cmd ∈ s.pimCmds, cmd.IsPim

/-- Nothing is issued between the two states. -/
structure SameCommands (s s' : Controller config) : Prop where
  banks : s.channelState.SameBanks s'.channelState
  issued : s'.issuedCommands = s.issuedCommands
  clk : s.clk ≤ s'.clk

theorem SameCommands.of_device (h : SameDevice s s')
    (hissued : s'.issuedCommands = s.issuedCommands) : SameCommands s s' :=
  ⟨h.channelState ▸ .refl _, hissued, Nat.le_of_eq h.clk.symm⟩

theorem Quiet.sameCommands (h : Quiet s s') : SameCommands s s' :=
  ⟨h.banks, by rw [issuedCommands, h.log, issuedCommands], Nat.le_of_eq h.clk.symm⟩

theorem Removed.sameCommands (h : Removed s cmd s') : SameCommands s s' := by
  obtain ⟨_, _, _, _, rfl⟩ := h.erased
  refine ⟨.refl _, ?_, Nat.le_refl _⟩
  simp [issuedCommands, record, Event.command?]

theorem SameCommands.addTransaction (s : Controller config) (it : Transaction) :
    SameCommands s (s.addTransaction it) := by
  obtain ⟨forwarded, hlog, _⟩ := s.addTransaction_log it
  refine .of_device (s.addTransaction_sameDevice it) ?_
  simp [issuedCommands, hlog, Event.command?]

theorem SameCommands.returnDoneTrans (s : Controller config) (clk : Nat) :
    SameCommands s (s.returnDoneTrans clk).2 := by
  refine .of_device (s.returnDoneTrans_sameDevice clk) ?_
  rcases s.returnDoneTrans_log clk with hlog | ⟨_, _, hlog⟩
  · rw [issuedCommands, hlog, issuedCommands]
  · simp [issuedCommands, hlog, Event.command?]

theorem Scheduled.sameCommands (h : Scheduled s s') : SameCommands s s' :=
  ⟨h.channelState ▸ .refl _, by rw [issuedCommands, h.log, issuedCommands],
    Nat.le_of_eq h.clk.symm⟩

theorem PimOnly.sameCommands (h : PimOnly s s') : SameCommands s s' := by
  rw [h]
  exact ⟨.refl _, rfl, Nat.le_refl _⟩

/-! ## Induction over the commands of a run -/

/-- What the commands of a run preserve. -/
structure Watches (cond : Controller config → Op → Prop) (Inv : Controller config → Prop) :
    Prop where
  frame : ∀ s s', Inv s → SameCommands s s' → Inv s'
  issue : ∀ o s cmd s', cond o .tick → o.Sound → o.Streams → s.Sound → Within o s → Inv s →
    Issues o s cmd → Issued s cmd s' → Inv s'

theorem Streams.tick (h : s.Streams) (hs : s.Sound) (htick : s.clockTick = .ok s') :
    s'.Streams := by
  obtain ⟨_, hpim⟩ : s'.Sound ∧ s'.Streams := by
    refine (clockTick_proceeds hs.requests).preserves htick
      (fun s => s.Sound ∧ s.Streams) ⟨hs, h⟩ ?_
    intro s₁ s₂ ⟨hs₁, h₁⟩ hstep
    exact ⟨hs₁.step hstep, fun cmd hcmd => h₁ cmd (hstep.pimCmds hs₁ hcmd)⟩
  exact hpim

theorem Watches.move (hp : Watches cond Inv) (hcond : cond o .tick) (ho : o.Sound)
    (hpim : o.Streams) (hs : s.Sound) (hin : Within o s) (hinv : Inv s) (h : Move o s s') :
    s'.Sound ∧ Within o s' ∧ Inv s' := by
  refine ⟨hs.step h.step, ?_⟩
  cases h with
  | still hstill => exact ⟨hin.of_still hstill, hp.frame _ _ hinv hstill.toQuiet.sameCommands⟩
  | @serve s₁ _ cmd hrem hsince hissue =>
      have hissued := issueCommand_spec hissue
      have hin₁ := hin.of_removed hrem
      refine ⟨hin₁.of_issued hissued, ?_⟩
      obtain ⟨before, after, hsplit, _, hready, _⟩ := hs.offered hrem.column hrem.offered
      have hmem : cmd ∈ s.cmdQueue.queues (config.queueOf cmd.addr) := by
        rw [hsplit]
        exact List.mem_append_right _ (List.mem_cons_self ..)
      refine hp.issue o s₁ cmd s' hcond ho hpim (hs.of_removed hrem) hin₁
        (hp.frame _ _ hinv hrem.sameCommands) ?_ hissued
      refine .serve (hin.queues _ cmd hmem) hrem.column ?_ (hsince.of_removed hrem)
      obtain ⟨_, _, hframe⟩ := hrem.spec hs
      rw [hframe]
      exact hready
  | discard hrem _ => exact ⟨hin.of_removed hrem, hp.frame _ _ hinv hrem.sameCommands⟩
  | answer hwanted hsince hissue =>
      have hissued := issueCommand_spec hissue
      exact ⟨hin.of_issued hissued, hp.issue o s _ s' hcond ho hpim hs hin hinv
        (.answer hwanted hsince) hissued⟩
  | pim hdue hsince hmem hissue =>
      have hissued := issueCommand_spec hissue
      exact ⟨hin.of_issued hissued, hp.issue o s _ s' hcond ho hpim hs hin hinv
        (.pim hdue hsince hmem) hissued⟩

theorem Watches.tick (hp : Watches cond Inv) (hcond : cond o .tick) (ho : o.Sound)
    (hpim : o.Streams) (hinv : Inv o) (h : o.clockTick = .ok s') : Inv s' := by
  obtain ⟨s₂, hbefore, h⟩ := Library.bind_eq_ok.mp h
  obtain ⟨s₁, htick, hmoves⟩ := (beforeSchedule_ensures ho.requests).of_ok hbefore
  have hquiet := o.tickRefresh_ensures.of_ok htick
  obtain ⟨hs₂, _, hinv₂⟩ : s₂.Sound ∧ Within o s₂ ∧ Inv s₂ := by
    clear hbefore h
    induction hmoves with
    | refl =>
        exact ⟨ho.of_quiet hquiet, .of_tickRefresh htick, hp.frame _ _ hinv hquiet.sameCommands⟩
    | tail _ hmove ih => exact hp.move hcond ho hpim ih.1 ih.2.1 ih.2.2 hmove
  cases h
  have hsched := hp.frame _ _ hinv₂ (scheduleTransaction_spec hs₂.split).sameCommands
  exact hp.frame _ _ hsched ⟨.refl _, rfl, Nat.le_succ _⟩

theorem Watches.operation (hp : Watches cond Inv) (hs : s.Sound) (hpim : s.Streams) (hinv : Inv s)
    (h : ((controllerSystem config).restrict cond).step s op s') : s'.Streams ∧ Inv s' := by
  obtain ⟨hop, hcond⟩ := h
  have hpush : ∀ {cmd : Command}, cmd.IsPim → (∀ c ∈ s'.pimCmds, c ∈ s.pimCmds ∨ c = cmd) →
      s'.Streams := by
    intro cmd hcmd hmem c hc
    exact (hmem c hc).elim (hpim c) fun he => he ▸ hcmd
  cases op with
  | add it =>
      obtain ⟨_, rfl⟩ := hop
      refine ⟨fun cmd hcmd => hpim cmd ?_, hp.frame _ _ hinv (.addTransaction s it)⟩
      exact (s.addTransaction_sameDevice it).pimCmds ▸ hcmd
  | tick => exact ⟨hpim.tick hs hop, hp.tick hcond hs hpim hinv hop⟩
  | done clk =>
      cases hop
      refine ⟨fun cmd hcmd => hpim cmd ?_, hp.frame _ _ hinv (.returnDoneTrans s clk)⟩
      exact (s.returnDoneTrans_sameDevice clk).pimCmds ▸ hcmd
  | pushRdW cmd | pushRdIn cmd time | pushWr cmd =>
      obtain ⟨hcmd, rfl⟩ := hop
      refine ⟨hpush hcmd fun c hc => ?_, hp.frame _ _ hinv (PimOnly.sameCommands rfl)⟩
      simp only [mem_pimCmds, List.mem_append, List.mem_singleton] at hc ⊢
      tauto
  | setInPim inPim | setWrMultitenant wrMultitenant =>
      cases hop
      exact ⟨hpim, hp.frame _ _ hinv (PimOnly.sameCommands rfl)⟩

theorem Sound.operation (hs : s.Sound)
    (h : ((controllerSystem config).restrict cond).step s op s') : s'.Sound := by
  have hp : Preserves cond fun (_ : Controller config) => True :=
    ⟨fun _ _ _ _ _ _ => trivial, fun _ _ _ _ => trivial, fun _ _ _ _ _ _ _ _ => trivial,
      fun _ _ _ _ _ _ _ _ _ => trivial⟩
  exact (hp.operation hs trivial h).1

theorem Streams.operation (hpim : s.Streams) (hs : s.Sound)
    (h : (controllerSystem config).step s op s') : s'.Streams := by
  have hp : Watches (fun (_ : Controller config) _ => True) fun _ => True :=
    ⟨fun _ _ _ _ => trivial, fun _ _ _ _ _ _ _ _ _ _ _ _ => trivial⟩
  exact (hp.operation hs hpim trivial ⟨h, trivial⟩).1

/-- The induction rule for facts about the commands of a run. -/
theorem issue_invariant {ops : List Op} (h : ((controllerSystem config).restrict cond).Run ops s)
    (Inv : Controller config → Prop) (hinit : Inv {}) (hp : Watches cond Inv) : Inv s := by
  have hall : s.Sound ∧ s.Streams ∧ Inv s := by
    refine h.invariant (fun s => s.Sound ∧ s.Streams ∧ Inv s)
      ⟨Sound.init, fun _ hcmd => absurd hcmd List.not_mem_nil, hinit⟩ ?_
    intro s op s' ⟨hs, hpim, hinv⟩ hstep
    exact ⟨hs.operation hstep, hp.operation hs hpim hinv hstep⟩
  exact hall.2.2

/-! ## Later states -/

/-- The state comes later than `o`: its record goes on with commands that are not older. -/
structure Later (o s : Controller config) : Prop where
  clk : o.clk ≤ s.clk
  issued : ∃ more, s.issuedCommands = o.issuedCommands ++ more ∧ ∀ e ∈ more, o.clk ≤ e.1

theorem Later.refl (o : Controller config) : Later o o :=
  ⟨Nat.le_refl _, [], (List.append_nil _).symm, fun _ he => absurd he List.not_mem_nil⟩

theorem Later.watches (o : Controller config) :
    Watches (fun (_ : Controller config) _ => True) (Later o) where
  frame := by
    rintro s s' ⟨hclk, more, hmore, hlate⟩ hsame
    exact ⟨Nat.le_trans hclk hsame.clk, more, hsame.issued.trans hmore, hlate⟩
  issue := by
    rintro o' s cmd s' _ _ _ _ _ ⟨hclk, more, hmore, hlate⟩ _ hissue
    refine ⟨hissue.clk ▸ hclk, more ++ [(s.clk, cmd)], ?_, ?_⟩
    · rw [hissue.issuedCommands, hmore, List.append_assoc]
    · intro e he
      rcases List.mem_append.mp he with he | he
      · exact hlate e he
      · rw [List.mem_singleton.mp he]
        exact hclk

theorem later_of_run {ops : List Op} (hs : o.Sound) (hpim : o.Streams)
    (hrun : ((controllerSystem config).startingAt o).Run ops s) : Later o s := by
  have hall : s.Sound ∧ s.Streams ∧ Later o s := by
    refine hrun.invariant (fun s => s.Sound ∧ s.Streams ∧ Later o s) ⟨hs, hpim, .refl o⟩ ?_
    intro s op s' ⟨hs, hpim, hlater⟩ hstep
    have hop : ((controllerSystem config).restrict fun _ _ => True).step s op s' := ⟨hstep, trivial⟩
    exact ⟨hs.operation hop, (Later.watches o).operation hs hpim hlater hop⟩
  exact hall.2.2

end Controller

end Dramsim
