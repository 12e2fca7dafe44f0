import Dramsim.Controller.RefreshLatency
import Dramsim.Controller.Work
import Dramsim.Library.Ranking
import Mathlib.Algebra.BigOperators.Group.Finset.Piecewise

/-!
# The queues drain

A controller that gets no new transactions serves those it has, although its ranks are refreshed in
the meantime.  A turn without a refresh takes one off the time that the queues can still need
(`Turn.settles`).  While a refresh waits, only its `PRECHARGE`s add to the work, one command for
each bank at most (`Turn.work_le`), so a refresh costs no more than `refreshCost` (`Left.tick`).  If
that is at most half of the interval of the timer, the ticks between two refreshes make up for it
(`Draining`).
-/

namespace Dramsim

namespace Config

/-- What a refresh of a rank can cost the queues: its banks have to be opened again, and nothing may
go while it waits and for the longest gap after it. -/
def refreshCost (config : Config) : Nat :=
  config.banks * (config.longestWait queueTypes + 1) + config.longestWait CommandType.all +
    config.refreshDelay

/-- Configurations whose controllers keep up: ranks are refreshed in turn and are not sent to
sleep, there is one queue with room for both kinds and one command a cycle, no command waits for a
negative number of cycles, and refreshes take up at most half of the time. -/
structure KeepsUp (config : Config) : Prop where
  policy : config.refreshPolicy = .rankLevelStaggered
  noSelfRefresh : config.enableSelfRefresh = false
  single : config.enableHbmDualCmd = false
  unified : config.unifiedQueue = true
  room : 0 < config.cmdQueueSize
  waits : ∀ d ∈ config.waits CommandType.all, 0 ≤ d
  gaps : ∀ d ∈ config.gaps CommandType.all CommandType.ofRefresh, 0 ≤ d
  rate : 2 * config.refreshCost ≤ toU64 config.refreshInterval

variable {config : Config}

theorem KeepsUp.refreshDelay_le (h : config.KeepsUp) :
    config.refreshDelay ≤ toU64 config.refreshInterval := by
  have hrate := h.rate
  rw [refreshCost] at hrate
  omega

theorem KeepsUp.interval_pos (h : config.KeepsUp) : 0 < toU64 config.refreshInterval :=
  lt_of_lt_of_le (Nat.succ_pos _) h.refreshDelay_le

end Config

/-- The operations with which nothing new comes in. -/
def Op.IsPassive : Op → Prop
  | .tick | .done _ => True
  | _ => False

/-- How many ticks an operation is. -/
def Op.ticks : Op → Nat
  | .tick => 1
  | _ => 0

namespace Controller

variable {config : Config} {s s' : Controller config} {ref : Command} {rest : List Command}
  {ops : List Op} {m n : Nat}

/-- No transaction waits and no command is queued. -/
def Drained (s : Controller config) : Prop := s.unifiedQueue = [] ∧ s.cmdQueue.entries = []

theorem Drained.congr (h : s.Drained) (hwait : s'.unifiedQueue = s.unifiedQueue)
    (hqueues : s'.cmdQueue.queues = s.cmdQueue.queues) : s'.Drained := by
  refine ⟨hwait.trans h.1, ?_⟩
  rw [CommandQueue.entries, hqueues]
  exact h.2

theorem Scheduled.drained (hunified : config.unifiedQueue = true) (h : Scheduled s s')
    (hd : s.Drained) : s'.Drained := by
  cases h with
  | held => exact hd
  | unified _ hsplit => exact absurd (hsplit.symm.trans hd.1) (by simp)
  | write _ hsplit | read _ hsplit => rw [hunified] at hsplit; cases hsplit

theorem fresh_of_run (hrun : (controllerSystem config).Run ops s) : s.Fresh := by
  have hb : s.Balanced :=
    hrun.invariant Balanced Balanced.init fun _ _ _ hb hstep => Balanced.keeps.operation hstep hb
  exact fun ix hix => (hb.shut ix hix).2

/-- Empty queues leave no transaction pending. -/
theorem pending_nil (hunified : config.unifiedQueue = true)
    (hdual : config.enableHbmDualCmd = false) (hrun : (ordinarySystem config).Run ops s)
    (hwait : s.unifiedQueue = []) (hentries : s.cmdQueue.entries = []) :
    s.pendingRdQ = [] ∧ s.pendingWrQ = [] := by
  obtain ⟨hs, _, ⟨_, hkept⟩, hordered, _⟩ := ordinary_invariant hrun
    ⟨⟨Booked.init, Kept.init⟩, ⟨rfl, rfl, fun _ => List.Pairwise.nil⟩, WritesClear.init⟩
    (Ordered.preservesOrdinary hunified fun _ _ hpim => noDiscard_of_single hdual hpim)
  have hnone (isWrite : Bool) (addr : Nat) : s.pendingOf isWrite addr = [] := by
    by_contra hne
    refine hkept isWrite addr hne ?_
    rw [← entryTotal_eq hs, entryTotal, waiting, hordered.reads, hordered.writes, hwait, hentries]
    rfl
  have hnil (isWrite : Bool) (q : List Transaction)
      (hq : ∀ addr, s.pendingOf isWrite addr = q.filter fun it => it.addr = addr) : q = [] := by
    refine List.eq_nil_iff_forall_not_mem.mpr fun it hit => ?_
    have hfilter := (hq it.addr).symm.trans (hnone isWrite it.addr)
    exact List.filter_eq_nil_iff.mp hfilter it hit (by simp)
  exact ⟨hnil false _ fun _ => rfl, hnil true _ fun _ => rfl⟩

/-- If time is all that a command waits for, one is found. -/
theorem Settled.exists_firstReady (hsettled : s.Settled s.clk) (h : s.Healthy)
    (hne : s.cmdQueue.entries ≠ []) : ∃ i < config.numQueues, ∃ cmd,
      CommandQueue.getFirstReadyInQueue config s.channelState s.clk (s.cmdQueue.queues i) =
        .ok (some cmd) := by
  obtain ⟨e, he⟩ := List.exists_mem_of_ne_nil _ hne
  obtain ⟨i, hi, hmem⟩ := List.mem_flatMap.mp he
  refine ⟨i, List.mem_range.mp hi, ?_⟩
  have hbank : ∀ e ∈ s.cmdQueue.queues i, config.queueOf e.addr = i ∧
      config.HasBank e.bankIndex := by
    intro e he
    obtain ⟨hq, it, rfl⟩ := h.sound.entries i e he
    exact ⟨hq, hasBank_transToCommand it⟩
  refine CommandQueue.exists_firstReady (List.ne_nil_of_mem hmem) h.awake
    (h.sound.holdsColumns i) ?_ ?_ fun rank => hsettled.windows.ok le_rfl rank
  · intro e he e' he'
    obtain ⟨hq, hix⟩ := hbank e he
    obtain ⟨hq', hix'⟩ := hbank e' he'
    rw [← Config.rankOfQueue_queueOf hix, ← Config.rankOfQueue_queueOf hix', hq, hq']
  · rintro e he ix rfl
    exact hsettled.banks _ (hbank e he).2

/-- The time that the work can take: every command may have to wait for the one before. -/
def workTime (floor : BankIndex → Nat) (s : Controller config) : Nat :=
  s.work floor * (config.longestWait Config.queueTypes + 1)

variable {floor : BankIndex → Nat}

theorem workTime_le (h : s'.work floor ≤ s.work floor) : s'.workTime floor ≤ s.workTime floor :=
  Nat.mul_le_mul_right _ h

theorem workTime_lt (h : s'.work floor < s.work floor) :
    s'.workTime floor + config.longestWait Config.queueTypes < s.workTime floor := by
  have hmul := Nat.mul_le_mul_right (config.longestWait Config.queueTypes + 1) (Nat.succ_le_of_lt h)
  rw [Nat.succ_mul] at hmul
  exact hmul

/-- The banks of a rank may have to be opened once more. -/
def reopened (rank : Int) (ix : BankIndex) : Nat := if ix.rank = rank then 1 else 0

theorem workTime_reopened (s : Controller config) (rank : Int) :
    s.workTime (reopened rank) ≤ s.workTime (fun _ => 0) +
      config.banks * (config.longestWait Config.queueTypes + 1) := by
  have hcard : ∑ ix ∈ config.bankSet, reopened rank ix ≤ config.banks := by
    simp only [reopened, ← Finset.card_filter]
    refine (Finset.card_le_card fun ix hix => ?_).trans (config.card_rankBanks_le rank)
    obtain ⟨hix, hrank⟩ := Finset.mem_filter.mp hix
    rw [List.mem_toFinset, Config.mem_rankBanks]
    exact ⟨hrank, (Config.mem_bankSet.mp hix).2⟩
  have hsum : ∑ ix ∈ config.bankSet,
        max (s.channelState.preparation s.cmdQueue.entries ix) (reopened rank ix) ≤
      ∑ ix ∈ config.bankSet, (max (s.channelState.preparation s.cmdQueue.entries ix) 0 +
        reopened rank ix) := Finset.sum_le_sum fun ix _ => by omega
  rw [Finset.sum_add_distrib] at hsum
  rw [workTime, workTime, ← Nat.add_mul]
  refine Nat.mul_le_mul_right _ ?_
  rw [work, work]
  omega

section Turns

variable (hdual : config.enableHbmDualCmd = false) (hturn : Turn s s')

include hdual hturn

theorem Turn.healthy (h : s.Healthy) : s'.Healthy ∧ s'.clk = s.clk := by
  cases hturn with
  | idle _ _ hquiet => exact ⟨h.quiet hquiet, hquiet.clk⟩
  | serve _ hd h₁ hagain => rw [hagain.eq hdual]; exact ⟨h₁, hd.clk⟩
  | attend _ _ _ hissued h₁ hagain => rw [hagain.eq hdual]; exact ⟨h₁, hissued.clk⟩

/-- Empty queues stay empty. -/
theorem Turn.drained (hd : s.Drained) : s'.Drained := by
  cases hturn with
  | idle _ _ hquiet => exact hd.congr hquiet.unifiedQueue hquiet.queues.queues
  | serve _ hserved _ _ =>
      have hmem := hserved.mem_entries
      rw [hd.2] at hmem
      cases hmem
  | attend _ _ _ hissued _ hagain =>
      rw [hagain.eq hdual]
      exact hd.congr hissued.unifiedQueue (by rw [hissued.cmdQueue])

/-- While a refresh of a rank waits, the banks of the rank may have to be opened once more, and
nothing else adds to the work. -/
theorem Turn.work_le (h : s.Healthy) (hfresh : s.Fresh) (hq : s.channelState.refreshQ = ref :: rest)
    (hty : ref.cmdType = .refresh) :
    s'.work (reopened ref.addr.rank) ≤ s.work (reopened ref.addr.rank) := by
  cases hturn with
  | idle _ _ hquiet => exact hquiet.work_le _
  | serve _ hd _ hagain =>
      rw [hagain.eq hdual]
      exact le_of_add_le_left (hd.work_add_le _ h hfresh)
  | attend hfirst hanswer _ hissued _ hagain =>
      cases hq.symm.trans hfirst
      rw [hagain.eq hdual]
      refine work_le_of_banks hissued.unifiedQueue (by rw [hissued.cmdQueue]) fun ix => ?_
      rcases answer_of_rank_refresh hty hanswer with rfl | ⟨closed, hclosed, _, hpre, hbank⟩
      · -- the refresh itself leaves the row buffers alone
        obtain ⟨b, hb, hrow⟩ := ChannelState.rowBuffer_of_update hissued.channel ix
        have hsame : b = s.channelState.bankStates ix := by
          split at hb
          · rw [BankState.updateState, hty] at hb
            split at hb <;> cases hb
            rfl
          · exact hb
        exact Or.inl (hsame ▸ hrow)
      · obtain ⟨hshut, hrows⟩ := ChannelState.precharge_banks ⟨hpre, hbank⟩ hissued.channel
        by_cases hix : ix = closed
        · subst hix
          right
          rw [ChannelState.preparation_closed hshut, reopened,
            if_pos (Config.mem_rankBanks.mp hclosed).1]
        · exact Or.inl (hrows ix hix)

end Turns

section KeepsUp

variable (hc : config.KeepsUp)

include hc

/-- A turn without a refresh, of a controller that has something to do, uses up some of its time. -/
theorem Turn.settles (hturn : Turn s s') (h : s.Healthy) (hfresh : s.Fresh)
    (hnil : s.channelState.refreshQ = []) (hbusy : ¬ s.Drained) {lag : Nat}
    (hsettled : s.Settled (s.clk + lag)) :
    ∃ lag', s'.endTick.Settled (s'.endTick.clk + lag') ∧
      s'.endTick.workTime (fun _ => 0) + lag' < s.workTime (fun _ => 0) + lag := by
  obtain ⟨h', hclk⟩ := hturn.healthy hc.single h
  obtain ⟨hend, hmoves⟩ := endTick_work (fun _ => 0) hc.unified hc.room h'.sound.split
  have hbanks := s'.endTick_channelState.1
  rw [endTick_clk, hclk]
  cases hturn with
  | attend hq => rw [hnil] at hq; cases hq
  | serve _ hd _ hagain =>
      obtain rfl := hagain.eq hc.single
      have hwait := (hsettled.mono (Nat.add_le_add_left (le_max_left lag _) _)).update
        (fun d hd => hc.waits d (Config.waits_subset (fun ty _ => CommandType.mem_all ty) hd))
        (Config.mem_queueTypes (hd.isQueued h)) (Nat.add_le_add_left (le_max_right lag _) _)
        hd.channel
      refine ⟨max lag (config.longestWait Config.queueTypes) - 1,
        (hwait.same hbanks).mono (by omega), ?_⟩
      have hless := workTime_lt (hend.trans_lt (hd.work_add_le (fun _ => 0) h hfresh))
      omega
  | idle _ hnone hquiet =>
      have hless := workTime_le (hend.trans (hquiet.work_le _))
      have hsettled' := (hsettled.same hquiet.banks).same hbanks
      by_cases hlag : lag = 0
      · -- nothing is left to wait for, so the command queues are empty
        subst hlag
        have hempty : s.cmdQueue.entries = [] := by
          by_contra hne
          obtain ⟨i, hi, cmd, hcmd⟩ := hsettled.exists_firstReady h hne
          rw [hnone hnil i hi] at hcmd
          cases hcmd
        have hlt := hmoves (by rw [CommandQueue.entries, hquiet.queues.queues]; exact hempty)
          (by rw [hquiet.unifiedQueue]; exact fun hwait => hbusy ⟨hwait, hempty⟩)
        have hless := workTime_lt (hlt.trans_le (hquiet.work_le _))
        exact ⟨0, hsettled'.mono (by omega), by omega⟩
      · exact ⟨lag - 1, hsettled'.mono (by omega), by omega⟩

/-! ## Runs -/

omit hc

/-- The ticks without a new refresh in which the queues drain. -/
inductive Left (s : Controller config) (m : Nat) : Prop where
  | free {lag : Nat} : s.channelState.refreshQ = [] → s.Settled (s.clk + lag) →
      s.workTime (fun _ => 0) + lag ≤ m → Left s m
  /-- First the refresh that waits has to go. -/
  | waiting {ref : Command} {n : Nat} : s.channelState.refreshQ = [ref] →
      ref.cmdType = .refresh →
      ChannelState.RefreshesBy config s.channelState ref.addr.rank s.clk n →
      s.workTime (reopened ref.addr.rank) + config.longestWait CommandType.all + n ≤ m → Left s m

theorem Left.mono {m' : Nat} (h : s.Left m) (hle : m ≤ m') : s.Left m' := by
  cases h with
  | free hnil hsettled hm => exact .free hnil hsettled (hm.trans hle)
  | waiting hq hty hn hm => exact .waiting hq hty hn (hm.trans hle)

theorem Left.pos (h : s.Left m) (hbusy : ¬ s.Drained) : 0 < m := by
  have hpos (floor : BankIndex → Nat) : 0 < s.workTime floor := by
    refine Nat.mul_pos (Nat.pos_of_ne_zero fun hzero => hbusy ?_) (Nat.succ_pos _)
    rw [work] at hzero
    exact ⟨List.length_eq_zero_iff.mp (by omega), List.length_eq_zero_iff.mp (by omega)⟩
  cases h with
  | free _ _ hm =>
      have := hpos fun _ => 0
      omega
  | @waiting ref _ _ _ _ hm =>
      have := hpos (reopened ref.addr.rank)
      omega

/-- How far the timer is after a tick. -/
theorem phase_succ_le (interval clk : Nat) :
    clk % interval + (if clk % interval = 0 ∧ 0 < clk then interval else 0) ≤
      (clk - 1) % interval + 1 := by
  have hdiv := intervals_succ interval clk
  have hclk := Nat.div_add_mod clk interval
  have hlast := Nat.div_add_mod (clk - 1) interval
  rw [hdiv, Nat.mul_add] at hclk
  by_cases hdue : clk % interval = 0 ∧ 0 < clk
  · rw [if_pos hdue] at hclk ⊢
    omega
  · rw [if_neg hdue] at hclk ⊢
    omega

/-- A controller that has nothing left to do, or less than `n` ticks to go.  The ticks since the
last refresh make up for what a refresh can cost. -/
def Draining (n : Nat) (s : Controller config) : Prop :=
  (∃ ops, (ordinarySystem config).Run ops s) ∧
    (s.Drained ∨ ∃ m, s.Left m ∧ 2 * m + (s.clk - 1) % toU64 config.refreshInterval < n)

/-- Returning a transaction leaves the queues and the banks alone. -/
theorem Draining.done (h : s.Draining n) (clk : Nat) :
    ∃ s', (ordinarySystem config).step s (.done clk) s' ∧ s'.Draining n := by
  obtain ⟨⟨ops, hrun⟩, hleft⟩ := h
  have hstep : (ordinarySystem config).step s (.done clk) (s.returnDoneTrans clk).2 :=
    ⟨rfl, trivial⟩
  refine ⟨_, hstep, ⟨_, hrun.step hstep⟩, ?_⟩
  rcases s.returnDoneTrans_cases clk with he | ⟨_, _, _, _, he⟩ <;> rw [he]
  · exact hleft
  · refine hleft.imp id fun ⟨m, hm, hlt⟩ => ⟨m, ?_, hlt⟩
    cases hm with
    | free hnil hsettled hm => exact .free hnil ⟨hsettled.banks, hsettled.windows⟩ hm
    | waiting hq hty hn hm => exact .waiting hq hty hn hm

include hc

section Tick

variable (hrun : (ordinarySystem config).Run ops s) (htick : s.clockTick = .ok s')

include hrun htick

theorem turn_of_tick : ∃ s₁ s₂, Quiet s s₁ ∧
    s₁.channelState.refreshQ = s.channelState.refreshQ ++ s.inserted ∧ s₁.Healthy ∧ s₁.Fresh ∧
    Turn s₁ s₂ ∧ s₂.Healthy ∧ s' = s₂.endTick := by
  have h := healthy_of_run hc.noSelfRefresh hrun
  obtain ⟨s₁, s₂, hquiet, hq, hturn, rfl⟩ :=
    clockTick_turn hc.noSelfRefresh h (marked_of_run hrun) htick
  have h₁ := h.quiet hquiet
  refine ⟨s₁, s₂, hquiet, hq, h₁, fun ix => ?_, hturn, (hturn.healthy hc.single h₁).1, rfl⟩
  rw [hquiet.banks.bankStates]
  exact fresh_of_run hrun.of_restrict ix

theorem Drained.tick (hd : s.Drained) : s'.Drained := by
  obtain ⟨s₁, s₂, hquiet, _, h₁, _, hturn, h₂, rfl⟩ := turn_of_tick hc hrun htick
  have hd₂ : s₂.Drained :=
    hturn.drained hc.single (hd.congr hquiet.unifiedQueue hquiet.queues.queues)
  have hsched : Scheduled s₂.updateIdleCycles s₂.updateIdleCycles.scheduleTransaction :=
    scheduleTransaction_spec h₂.sound.split
  have hd₃ : s₂.updateIdleCycles.scheduleTransaction.Drained := hsched.drained hc.unified hd₂
  exact hd₃

/-- A tick in which a refresh waits, from before or from now on. -/
theorem left_of_waiting_tick (hq : s.channelState.refreshQ ++ s.inserted = [ref])
    (hty : ref.cmdType = .refresh)
    (hn : ChannelState.RefreshesBy config s.channelState ref.addr.rank s.clk n) :
    s'.Left (s.workTime (reopened ref.addr.rank) + config.longestWait CommandType.all +
      (n - 1)) := by
  obtain ⟨s₁, s₂, hquiet, hq₁, h₁, hfresh, hturn, h₂, heq⟩ := turn_of_tick hc hrun htick
  have hwork : s'.work (reopened ref.addr.rank) ≤ s.work (reopened ref.addr.rank) := by
    rw [heq]
    exact (endTick_work _ hc.unified hc.room h₂.sound.split).1.trans
      ((hturn.work_le hc.single h₁ hfresh (hq₁.trans hq) hty).trans (hquiet.work_le _))
  have htime := workTime_le hwork
  rcases refreshesBy_of_clockTick hc.noSelfRefresh (healthy_of_run hc.noSelfRefresh hrun)
    (marked_of_run hrun) hc.gaps hq hty hn htick with hnil | ⟨hq', hn'⟩
  · have hrun' : (ordinarySystem config).Run (ops ++ [.tick]) s' := hrun.step ⟨htick, trivial⟩
    refine .free hnil (settled_of_run hc.waits hrun') ?_
    have hzero : s'.workTime (fun _ => 0) ≤ s'.workTime (reopened ref.addr.rank) :=
      Nat.mul_le_mul_right _ (work_mono fun ix => Nat.zero_le _)
    omega
  · exact .waiting hq' hty hn' (by omega)

/-- A tick takes one off, unless it brings a new refresh. -/
theorem Left.tick (h : s.Left m) (hbusy : ¬ s.Drained) :
    s'.Left (if s.RefreshDue then m + config.refreshCost - 1 else m - 1) := by
  have hinserted := inserted_of_run hc.policy hc.noSelfRefresh hrun
  split
  · rename_i hdue
    rw [if_pos hdue] at hinserted
    have honTime := onTime_of_run hc.policy hc.noSelfRefresh hc.gaps hc.refreshDelay_le hrun
    have hnil := honTime.refreshQ_of_due hc.refreshDelay_le hdue
    have hq : s.channelState.refreshQ ++ s.inserted = [turnRequest config s.intervals] := by
      rw [hnil, hinserted, List.nil_append]
    refine (left_of_waiting_tick hc hrun htick hq rfl
      (refreshesBy_of_run hc.gaps hrun (turnRequest_rank config s.intervals))).mono ?_
    cases h with
    | waiting hq' => rw [hnil] at hq'; cases hq'
    | free _ _ hm =>
        have hopen := s.workTime_reopened (turnRequest config s.intervals).addr.rank
        have hpos : 0 < config.refreshDelay := Nat.succ_pos _
        rw [Config.refreshCost]
        omega
  · rename_i hdue
    rw [if_neg hdue] at hinserted
    cases h with
    | @waiting ref n hq hty hn hm =>
        have hq' : s.channelState.refreshQ ++ s.inserted = [ref] := by
          rw [hinserted, List.append_nil, hq]
        have hpos := hn.pos
        exact (left_of_waiting_tick hc hrun htick hq' hty hn).mono (by omega)
    | free hnil hsettled hm =>
        have hempty := (healthy_of_run hc.noSelfRefresh hrun).refreshQ_nil (marked_of_run hrun)
          htick (by rw [hnil, hinserted]; rfl)
        obtain ⟨s₁, s₂, hquiet, hq₁, h₁, hfresh, hturn, h₂, rfl⟩ := turn_of_tick hc hrun htick
        rw [hnil, hinserted] at hq₁
        have hbusy₁ : ¬ s₁.Drained := fun hd =>
          hbusy (hd.congr hquiet.unifiedQueue.symm hquiet.queues.queues.symm)
        have hsettled₁ : s₁.Settled (s₁.clk + _) := hquiet.clk ▸ hsettled.same hquiet.banks
        obtain ⟨lag', hsettled', hlt⟩ := hturn.settles hc h₁ hfresh hq₁ hbusy₁ hsettled₁
        have htime := workTime_le (hquiet.work_le fun _ => 0)
        exact .free hempty hsettled' (by omega)

end Tick

theorem Draining.tick (h : s.Draining n) :
    ∃ s', (ordinarySystem config).step s .tick s' ∧ s'.Draining (n - 1) := by
  obtain ⟨⟨ops, hrun⟩, hleft⟩ := h
  obtain ⟨_, _, _, _, _, htick⟩ := exists_turn hc.noSelfRefresh
    (healthy_of_run hc.noSelfRefresh hrun) (marked_of_run hrun) hc.interval_pos.ne'
  have hstep : (ordinarySystem config).step s .tick _ := ⟨htick, trivial⟩
  refine ⟨_, hstep, ⟨_, hrun.step hstep⟩, ?_⟩
  by_cases hdone : s.Drained
  · exact Or.inl (hdone.tick hc hrun htick)
  obtain ⟨m, hm, hlt⟩ := hleft.resolve_left hdone
  refine Or.inr ⟨_, hm.tick hc hrun htick hdone, ?_⟩
  rw [(clockTick_timers htick).1, Nat.add_sub_cancel]
  have hpos := hm.pos hdone
  have hrate := hc.rate
  have hphase := phase_succ_le (toU64 config.refreshInterval) s.clk
  by_cases hdue : s.RefreshDue
  · rw [if_pos hdue] at hphase ⊢
    omega
  · rw [if_neg hdue] at hphase ⊢
    omega

/-- Nothing is pending, and what has been accepted is complete or has been returned. -/
def Answered (s : Controller config) : Prop :=
  s.pendingRdQ = [] ∧ s.pendingWrQ = [] ∧ ∀ isWrite addr,
    s.acceptedCount isWrite addr = s.completeCount isWrite addr + s.returnedCount isWrite addr

theorem Draining.pending_nil (h : s.Draining 0) : s.pendingRdQ = [] ∧ s.pendingWrQ = [] := by
  obtain ⟨⟨ops, hrun⟩, hleft⟩ := h
  obtain ⟨hwait, hentries⟩ : s.Drained :=
    hleft.resolve_right fun ⟨_, _, hlt⟩ => absurd hlt (by omega)
  exact Controller.pending_nil hc.unified hc.single hrun hwait hentries

end KeepsUp

end Controller

end Dramsim
