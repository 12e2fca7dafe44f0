import Dramsim.Controller.Awake
import Dramsim.Controller.RefreshTimer

/-!
# Refresh requests in order

`Refresh` appends requests to `refresh_q_`, `FinishRefresh` works on the first of them, and
the command queues remember in `ref_q_indices_` which of them have to wait for it.  A
request leaves `refresh_q_` when its command is issued, where it is looked for by its rank
or its bank.

A tick takes at most one request, and this is the first one (`clockTick_attends`).  So the
refreshes that have been issued, followed by the requests that wait, are all requests that
have ever been inserted (`refreshes_in_order`).
-/

namespace Dramsim

open Library (System)

namespace Refresh

variable {config : Config}

/-- The requests that this cycle appends to `refresh_q_`. -/
def inserted (r : Refresh config) (channel : ChannelState) : List Command :=
  if r.isDue then (r.insertRefresh channel).2.refreshQ.drop channel.refreshQ.length else []

theorem firstAwakeNeedsRefresh_refreshQ (channel : ChannelState) :
    ∀ l : List Nat, channel.refreshQ <+: (firstAwakeNeedsRefresh channel l).refreshQ
  | [] => List.prefix_rfl
  | i :: rest => by
      rw [firstAwakeNeedsRefresh]
      split
      · exact List.prefix_append _ _
      · exact firstAwakeNeedsRefresh_refreshQ channel rest

theorem insertRefresh_refreshQ (r : Refresh config) (channel : ChannelState) :
    channel.refreshQ <+: (r.insertRefresh channel).2.refreshQ := by
  unfold insertRefresh
  cases config.refreshPolicy with
  | rankLevelSimultaneous => exact firstAwakeNeedsRefresh_refreshQ channel _
  | rankLevelStaggered | bankLevelStaggered =>
      dsimp only
      split
      · exact List.prefix_append _ _
      · exact List.prefix_rfl

theorem clockTick_refreshQ {r r' : Refresh config} {channel channel' : ChannelState}
    (h : r.clockTick channel = .ok (r', channel')) :
    channel'.refreshQ = channel.refreshQ ++ r.inserted channel := by
  obtain ⟨-, -, rfl⟩ := clockTick_eq h
  unfold inserted
  split
  · exact (List.prefix_iff_eq_append.mp (r.insertRefresh_refreshQ channel)).symm
  · rw [List.append_nil]

end Refresh

/-! ## The queues of a refresh -/

/-- The queue holds commands for a bank that the refresh goes to. -/
def Config.Covers (config : Config) (ref : Command) (i : Int) : Prop :=
  ∃ ix, config.HasBank ix ∧ config.Reaches ref ix ∧
    i = config.getQueueIndex ix.rank ix.bankgroup ix.bank

namespace CommandQueue

variable {config : Config}

/-- The queues of the banks of a rank are consecutive. -/
theorem div_banks_iff {config : Config} {r i : Nat} :
    i / config.banks = r ↔
      ∃ g < config.bankgroups, ∃ b < config.banksPerGroup,
        i = r * config.banks + g * config.banksPerGroup + b := by
  have hper := config.banksPerGroup_pos
  have hgroups := config.bankgroups_pos
  have hbanks : 0 < config.banks := Nat.mul_pos hgroups hper
  constructor
  · rintro rfl
    refine ⟨i % config.banks / config.banksPerGroup, ?_, i % config.banks % config.banksPerGroup,
      Nat.mod_lt _ hper, ?_⟩
    · exact Nat.div_lt_of_lt_mul (Nat.mul_comm _ _ ▸ Nat.mod_lt i hbanks)
    · rw [Nat.add_assoc, Nat.div_add_mod', Nat.div_add_mod']
  · rintro ⟨g, hg, b, hb, rfl⟩
    have hlt : g * config.banksPerGroup + b < config.banks := by
      have hstep : (g + 1) * config.banksPerGroup ≤ config.bankgroups * config.banksPerGroup :=
        Nat.mul_le_mul_right _ hg
      rw [Nat.add_mul] at hstep
      unfold Config.banks
      omega
    rw [Nat.add_assoc, Nat.mul_comm r, Nat.mul_add_div hbanks, Nat.div_eq_of_lt hlt, Nat.add_zero]

theorem mem_getRefQIndices_perBank {ref : Command} (hty : ref.cmdType = .refresh)
    (hqueue : config.queueStructure = .perBank) {r : Nat} (hr : ref.addr.rank = r)
    (hlt : r < config.ranks) {i : Int} :
    i ∈ getRefQIndices config ref ↔ ∃ ix ∈ config.rankBanks r,
      i = config.getQueueIndex ix.rank ix.bankgroup ix.bank := by
  simp only [getRefQIndices, hty, hqueue, hr, if_true, Config.getQueueIndex, List.mem_map,
    List.mem_filter, List.mem_range, decide_eq_true_eq, Int.natCast_inj, div_banks_iff]
  constructor
  · rintro ⟨j, ⟨-, g, hg, b, hb, rfl⟩, rfl⟩
    refine ⟨⟨r, g, b⟩, Config.mem_rankBanks.mpr ⟨rfl, ?_, ?_⟩, by push_cast; rfl⟩ <;> simp <;> omega
  · rintro ⟨⟨r', g, b⟩, hmem, rfl⟩
    obtain ⟨rfl, ⟨hg0, hg⟩, hb0, hb⟩ := Config.mem_rankBanks.mp hmem
    obtain ⟨g, rfl⟩ := Int.eq_ofNat_of_zero_le hg0
    obtain ⟨b, rfl⟩ := Int.eq_ofNat_of_zero_le hb0
    have hin : ∃ g' < config.bankgroups, ∃ b' < config.banksPerGroup,
        r * config.banks + g * config.banksPerGroup + b =
          r * config.banks + g' * config.banksPerGroup + b' :=
      ⟨g, by simpa using hg, b, by simpa using hb, rfl⟩
    refine ⟨_, ⟨?_, hin⟩, by push_cast; rfl⟩
    have hqueues : config.numQueues = config.ranks * config.banks := by
      rw [Config.numQueues, hqueue, Nat.mul_comm]
    have hbanks : 0 < config.banks := Nat.mul_pos config.bankgroups_pos config.banksPerGroup_pos
    rw [hqueues, ← Nat.div_lt_iff_lt_mul hbanks]
    exact (div_banks_iff.mpr hin).trans_lt hlt

/-- `GetRefQIndices` finds exactly the queues that a refresh covers. -/
theorem mem_getRefQIndices {ref : Command} (h : Controller.RefreshRequest config ref) {i : Int} :
    i ∈ getRefQIndices config ref ↔ config.Covers ref i := by
  obtain ⟨⟨_, hin⟩, href⟩ := h
  unfold Config.Covers Config.Reaches
  cases hrank : ref.isRankCMD with
  | true =>
      have hty : ref.cmdType = .refresh := by
        cases hc : ref.cmdType <;> rw [Command.isRefresh, hc] at href <;>
          rw [Command.isRankCMD, hc] at hrank <;> first | rfl | (cases href; done) | cases hrank
      rw [hrank, if_pos rfl] at hin
      obtain ⟨r, hr⟩ := Int.eq_ofNat_of_zero_le hin.1
      have hall : ∀ ix ∈ config.rankBanks ref.addr.rank, config.HasBank ix := fun ix hmem =>
        Config.hasBank_of_mem_rankBanks hin hmem
      simp only [if_true]
      cases hqueue : config.queueStructure with
      | perRank =>
          simp only [getRefQIndices, hty, hqueue, if_true, Config.getQueueIndex, List.mem_singleton]
          constructor
          · rintro rfl
            have hmem := config.exists_mem_rankBanks ref.addr.rank
            exact ⟨_, hall _ hmem, hmem, rfl⟩
          · rintro ⟨ix, -, hmem, rfl⟩
            exact (Config.mem_rankBanks.mp hmem).1
      | perBank =>
          rw [mem_getRefQIndices_perBank hty hqueue hr (by omega), hr]
          constructor
          · rintro ⟨ix, hmem, hi⟩
            exact ⟨ix, hall ix (hr ▸ hmem), hmem, hi⟩
          · rintro ⟨ix, -, hmem, hi⟩
            exact ⟨ix, hmem, hi⟩
  | false =>
      have hty : ref.cmdType ≠ .refresh := fun hc => by
        rw [Command.isRankCMD, hc] at hrank
        cases hrank
      rw [hrank, if_neg Bool.false_ne_true] at hin
      simp only [getRefQIndices, if_neg hty, List.mem_singleton, Bool.false_eq_true, if_false]
      constructor
      · rintro rfl
        exact ⟨_, hin, rfl, rfl⟩
      · rintro ⟨_, -, rfl, rfl⟩
        rfl

end CommandQueue

namespace Controller

variable {config : Config} {s s' : Controller config} {cmd : Command} {selected : Option Command}

/-! ## What leaves the requests alone -/

/-- The refreshes that have been issued, oldest first. -/
def refreshes (s : Controller config) : List Command :=
  (s.issuedCommands.map Prod.snd).filter Command.isRefresh

/-- The requests that the next tick inserts. -/
def inserted (s : Controller config) : List Command := s.refresh.inserted s.channelState

/-- No refresh is issued, and the queues that wait for one stay. -/
structure Follows (s s' : Controller config) : Prop where
  refreshQ : s'.channelState.refreshQ = s.channelState.refreshQ
  refreshes : s'.refreshes = s.refreshes
  isInRef : s'.cmdQueue.isInRef = s.cmdQueue.isInRef
  refQIndices : s'.cmdQueue.refQIndices = s.cmdQueue.refQIndices

theorem Follows.refl (s : Controller config) : Follows s s := ⟨rfl, rfl, rfl, rfl⟩

theorem Follows.trans {s'' : Controller config} (h : Follows s s') (h' : Follows s' s'') :
    Follows s s'' :=
  ⟨h'.refreshQ.trans h.refreshQ, h'.refreshes.trans h.refreshes, h'.isInRef.trans h.isInRef,
    h'.refQIndices.trans h.refQIndices⟩

/-- A step that issues nothing and keeps the channel and the command queues. -/
theorem Follows.of_same (hq : s'.channelState.refreshQ = s.channelState.refreshQ)
    (hissued : s'.issuedCommands = s.issuedCommands) (hcmd : s'.cmdQueue = s.cmdQueue) :
    Follows s s' :=
  ⟨hq, by rw [Controller.refreshes, hissued]; rfl, by rw [hcmd], by rw [hcmd]⟩

theorem Issued.refreshes (h : Issued s cmd s') :
    s'.refreshes = s.refreshes ++ [cmd].filter Command.isRefresh := by
  rw [Controller.refreshes, h.issuedCommands, List.map_append, List.filter_append]
  rfl

theorem Issued.follows (h : Issued s cmd s') (hcmd : cmd.isRefresh = false) : Follows s s' := by
  refine ⟨ChannelState.refreshQ_of_update h.channel hcmd, ?_, by rw [h.cmdQueue],
    by rw [h.cmdQueue]⟩
  rw [h.refreshes, List.filter_singleton, hcmd]
  simp

theorem SameDevice.follows (h : SameDevice s s') (hissued : s'.issuedCommands = s.issuedCommands) :
    Follows s s' :=
  .of_same (by rw [h.channelState]) hissued h.cmdQueue

/-! ## The queues -/

theorem commandFrom_marks (channel : ChannelState) :
    ∀ (n : Nat) (q : CommandQueue config) {selected : Option Command} {q' : CommandQueue config},
      CommandQueue.commandFrom channel n q = .ok (selected, q') →
      q'.isInRef = q.isInRef ∧ q'.refQIndices = q.refQIndices
  | 0, q, _, _, h => by
      cases h
      exact ⟨rfl, rfl⟩
  | n + 1, q, selected, q', h => by
      rw [CommandQueue.commandFrom] at h
      split at h
      · exact commandFrom_marks channel n q.getNextQueue h
      · obtain ⟨ready, _, h⟩ := Library.bind_eq_ok.mp h
        cases ready with
        | none => exact commandFrom_marks channel n q.getNextQueue h
        | some cmd =>
            dsimp only at h
            split at h
            · obtain ⟨q₁, herase, h⟩ := Library.bind_eq_ok.mp h
              cases h
              unfold CommandQueue.eraseRWCommand at herase
              dsimp only at herase
              split at herase <;> cases herase
              exact ⟨rfl, rfl⟩
            · cases h
              exact ⟨rfl, rfl⟩

/-- The queues select no refresh. -/
theorem getCommandToIssue_follows (hs : s.Sound) (h : s.getCommandToIssue = .ok (selected, s')) :
    Follows s s' ∧ ∀ cmd, selected = some cmd → cmd.isRefresh = false := by
  obtain ⟨⟨cmd, q⟩, hq, h⟩ := Library.bind_eq_ok.mp h
  obtain ⟨hin, hindices⟩ := commandFrom_marks _ _ _ hq
  have hsel := (s.cmdQueue.getCommandToIssue_ensures s.channelState).of_ok hq
  cases cmd with
  | none =>
      cases h
      exact ⟨⟨rfl, rfl, hin, hindices⟩, fun _ hcmd => by cases hcmd⟩
  | some cmd =>
      have hcmd : cmd.isRefresh = false := by
        obtain ⟨i, _, hfirst⟩ := hsel.1
        obtain ⟨_, entry, _, hyields⟩ := CommandQueue.getFirstReadyInQueue_spec hfirst
        obtain ⟨_, trans, rfl⟩ := hs.entries i entry (hyields.split ▸ by simp)
        exact (ChannelState.getReadyCommand_spec hyields.answer).isRefresh_of_column
          (columnType_isReadWrite config trans.isWrite)
      dsimp only at h
      split at h <;> cases h
      · refine ⟨⟨rfl, ?_, hin, hindices⟩, fun _ he => Option.some.inj he ▸ hcmd⟩
        simp [refreshes, issuedCommands, record, Event.command?]
      · exact ⟨⟨rfl, rfl, hin, hindices⟩, fun _ he => Option.some.inj he ▸ hcmd⟩

/-! ## The streams -/

theorem isRefresh_of_isPim (h : cmd.IsPim) : cmd.isRefresh = false := by
  rcases h with h | h
  · cases hty : cmd.cmdType <;> rw [hty] at h <;>
      first | (rw [Command.isRefresh, hty]; rfl) | cases h
  · rw [Command.isRefresh, h]
    rfl

theorem issuePim_follows (hcmd : cmd.IsPim) (h : s.issuePim cmd = .ok s') : Follows s s' := by
  unfold issuePim at h
  split at h
  · cases h
    exact .refl s
  · exact (issueCommand_spec h).follows (isRefresh_of_isPim hcmd)

theorem issuePim_streams (h : s.issuePim cmd = .ok s') :
    s'.rdWCmds = s.rdWCmds ∧ s'.rdInCmds = s.rdInCmds ∧ s'.wrCmds = s.wrCmds := by
  unfold issuePim at h
  split at h
  · cases h
    exact ⟨rfl, rfl, rfl⟩
  · have hissued := issueCommand_spec h
    exact ⟨hissued.rdWCmds, hissued.rdInCmds, hissued.wrCmds⟩

theorem Follows.streams (h : Follows s s') {rdW rdIn wr : List Command} {times : List Int} :
    Follows s { s' with rdWCmds := rdW, rdInCmds := rdIn, wrCmds := wr, releaseTime := times } :=
  ⟨h.refreshQ, h.refreshes, h.isInRef, h.refQIndices⟩

theorem issueRdW_follows :
    ∀ (l kept : List Command) (s : Controller config) {s' : Controller config},
      (∀ cmd ∈ l, cmd.IsPim) → s.issueRdW kept l = .ok s' →
      Follows s s' ∧ s'.rdInCmds = s.rdInCmds ∧ s'.wrCmds = s.wrCmds
  | [], kept, s, _, _, h => by
      cases h
      exact ⟨(Follows.refl s).streams, rfl, rfl⟩
  | cmd :: rest, kept, s, s', hl, h => by
      obtain ⟨hcmd, hrest⟩ := List.forall_mem_cons.mp hl
      rw [issueRdW] at h
      obtain ⟨ready, _, h⟩ := Library.bind_eq_ok.mp h
      split at h
      · obtain ⟨s₁, hs₁, h⟩ := Library.bind_eq_ok.mp h
        obtain ⟨hnext, hrdIn, hwr⟩ := issueRdW_follows rest kept s₁ hrest h
        obtain ⟨-, hrdIn₁, hwr₁⟩ := issuePim_streams hs₁
        exact ⟨(issuePim_follows hcmd hs₁).trans hnext, hrdIn.trans hrdIn₁, hwr.trans hwr₁⟩
      · exact issueRdW_follows rest _ s hrest h

theorem issueRdIn_follows :
    ∀ (l : List Command) (times : List Int) (kept : List Command) (keptTime : List Int)
      (s : Controller config) {s' : Controller config}, (∀ cmd ∈ l, cmd.IsPim) →
      s.issueRdIn kept keptTime l times = .ok s' → Follows s s' ∧ s'.wrCmds = s.wrCmds
  | [], times, kept, keptTime, s, _, _, h => by
      cases h
      exact ⟨(Follows.refl s).streams, rfl⟩
  | cmd :: rest, times, kept, keptTime, s, s', hl, h => by
      obtain ⟨hcmd, hrest⟩ := List.forall_mem_cons.mp hl
      unfold issueRdIn at h
      obtain ⟨ready, _, h⟩ := Library.bind_eq_ok.mp h
      split at h
      · cases times with
        | nil => cases h
        | cons time times =>
            dsimp only at h
            split at h
            · obtain ⟨s₁, hs₁, h⟩ := Library.bind_eq_ok.mp h
              obtain ⟨hnext, hwr⟩ := issueRdIn_follows rest times kept keptTime s₁ hrest h
              exact ⟨(issuePim_follows hcmd hs₁).trans hnext, hwr.trans (issuePim_streams hs₁).2.2⟩
            · exact issueRdIn_follows rest times _ _ s hrest h
      · exact issueRdIn_follows rest _ _ _ s hrest h

theorem issueWr_follows :
    ∀ (l kept : List Command) (s : Controller config) {s' : Controller config},
      (∀ cmd ∈ l, cmd.IsPim) → s.issueWr kept l = .ok s' → Follows s s'
  | [], kept, s, _, _, h => by
      cases h
      exact (Follows.refl s).streams
  | cmd :: rest, kept, s, s', hl, h => by
      obtain ⟨hcmd, hrest⟩ := List.forall_mem_cons.mp hl
      rw [issueWr] at h
      obtain ⟨ready, _, h⟩ := Library.bind_eq_ok.mp h
      split at h
      · split at h
        · exact issueWr_follows rest kept s hrest h
        · obtain ⟨s₁, hs₁, h⟩ := Library.bind_eq_ok.mp h
          have hfirst := (issueCommand_spec hs₁).follows (isRefresh_of_isPim hcmd)
          split at h
          · cases h
            exact hfirst.streams
          · exact hfirst.trans (issueWr_follows rest kept s₁ hrest h)
      · exact issueWr_follows rest _ s hrest h

theorem issuePimStreams_follows (hs : s.Streams) (h : s.issuePimStreams = .ok s') :
    Follows s s' := by
  obtain ⟨s₁, hs₁, h⟩ := Library.bind_eq_ok.mp h
  obtain ⟨s₂, hs₂, h⟩ := Library.bind_eq_ok.mp h
  have hmem : ∀ {l : List Command}, (∀ cmd ∈ l, cmd ∈ s.pimCmds) → ∀ cmd ∈ l, cmd.IsPim :=
    fun hl cmd hcmd => hs cmd (hl cmd hcmd)
  obtain ⟨hrdW, hrdIn, hwr⟩ := issueRdW_follows _ _ s
    (hmem fun _ hcmd => mem_pimCmds.mpr (.inl hcmd)) hs₁
  obtain ⟨hrdIn₂, hwr₂⟩ := issueRdIn_follows _ _ _ _ s₁
    (hrdIn ▸ hmem fun _ hcmd => mem_pimCmds.mpr (.inr (.inl hcmd))) hs₂
  have hwr₃ := issueWr_follows _ _ s₂
    (hwr₂ ▸ hwr ▸ hmem fun _ hcmd => mem_pimCmds.mpr (.inr (.inr hcmd))) h
  exact (hrdW.trans hrdIn₂).trans hwr₃

/-! ## Self refresh and scheduling -/

/-- A request for self refresh is answered by no refresh. -/
theorem updateSelfRefresh_follows {l : List Nat} (h : s.updateSelfRefresh l = .ok s') :
    Follows s s' := by
  rcases updateSelfRefresh_cases l h with rfl | ⟨i, _, cmd, _, hready, hissue⟩
  · exact .refl _
  · refine (issueCommand_spec hissue).follows ?_
    cases ChannelState.getReadyCommand_spec hready with
    | wholeRank _ _ => rfl
    | bankOfRank hrank _ hdue hne _ =>
        rcases BankState.requiredType_of_isRankCMD hdue.1 hrank with ⟨_, hty⟩ | ⟨_, hty⟩
        · exact absurd hty hne
        · rw [Command.isRefresh, hty]
          rfl
    | bank hrank _ _ _ _ => cases hrank

theorem scheduleTransaction_follows (s : Controller config) : Follows s s.scheduleTransaction := by
  obtain ⟨draining, -, hstart⟩ := s.startDraining_eq
  have hadd (cmd : Command) : (s.cmdQueue.addCommand cmd).isInRef = s.cmdQueue.isInRef ∧
      (s.cmdQueue.addCommand cmd).refQIndices = s.cmdQueue.refQIndices := by
    unfold CommandQueue.addCommand
    dsimp only
    split <;> exact ⟨rfl, rfl⟩
  have hset (queue : List Transaction) :
      (s.startDraining.setScheduledQueue queue).channelState = s.channelState ∧
        (s.startDraining.setScheduledQueue queue).log = s.log := by
    rw [hstart]
    unfold setScheduledQueue
    split
    · exact ⟨rfl, rfl⟩
    · split <;> exact ⟨rfl, rfl⟩
  cases hfirst : firstAccepted s.cmdQueue [] s.startDraining.scheduledQueue with
  | none =>
      rw [scheduleTransaction_of_none hfirst, hstart]
      exact ⟨rfl, rfl, rfl, rfl⟩
  | some found =>
      obtain ⟨before, it, after⟩ := found
      obtain ⟨hchannel, hlog⟩ := hset (before ++ after)
      rw [scheduleTransaction_of_some hfirst]
      repeat' split
      · rw [hstart]
        exact ⟨rfl, rfl, rfl, rfl⟩
      all_goals
        refine ⟨by simp only [hchannel], ?_, (hadd _).1, (hadd _).2⟩
        simp only [refreshes, issuedCommands, hlog]

/-! ## A tick -/

/-- The queues that wait are those of the first request. -/
structure Marked (s : Controller config) : Prop where
  idle : s.cmdQueue.isInRef = false → s.cmdQueue.refQIndices = []
  busy : s.cmdQueue.isInRef = true → ∃ ref rest, s.channelState.refreshQ = ref :: rest ∧
    s.cmdQueue.refQIndices = CommandQueue.getRefQIndices config ref

theorem Follows.marked (h : Follows s s') (hm : s.Marked) : s'.Marked := by
  refine ⟨fun hin => ?_, fun hin => ?_⟩
  · rw [h.refQIndices]
    exact hm.idle (h.isInRef ▸ hin)
  · rw [h.refreshQ, h.refQIndices]
    exact hm.busy (h.isInRef ▸ hin)

/-- At most one request of the queue has been taken, and this is the first one. -/
inductive Attends (queue issued : List Command) (s : Controller config) : Prop where
  | none : s.channelState.refreshQ = queue → s.refreshes = issued → Attends queue issued s
  | first {ref : Command} : queue = ref :: s.channelState.refreshQ →
      s.refreshes = issued ++ [ref] → Attends queue issued s

theorem Follows.attends {queue issued : List Command} (h : Follows s s')
    (ha : s.Attends queue issued) : s'.Attends queue issued := by
  cases ha with
  | none hq hissued => exact .none (h.refreshQ.trans hq) (h.refreshes.trans hissued)
  | first hq hissued => exact .first (h.refreshQ ▸ hq) (h.refreshes.trans hissued)

/-- A refresh that answers a request is the request. -/
theorem answer_eq_of_isRefresh {channel : ChannelState} {ref : Command} {clk : Nat}
    (href : ref.isRefresh = true) (h : channel.getReadyCommand config ref clk = .ok (some cmd))
    (hcmd : cmd.isRefresh = true) : cmd = ref := by
  cases ChannelState.getReadyCommand_spec h with
  | wholeRank _ _ => rfl
  | bankOfRank hrank _ hdue hne _ =>
      rcases BankState.requiredType_of_isRankCMD hdue.1 hrank with ⟨_, hty⟩ | ⟨_, hty⟩
      · exact absurd hty hne
      · rw [Command.isRefresh, hty] at hcmd
        cases hcmd
  | bank _ hdue haddr hhex _ =>
      have hty : cmd.cmdType = ref.cmdType := by
        have hcol : ref.cmdType.isColumn = false := by
          cases hc : ref.cmdType <;> rw [Command.isRefresh, hc] at href <;> first | rfl | cases href
        rcases BankState.requiredType_cases hdue.1 with ⟨_, ⟨_, h⟩ | ⟨_, h⟩ | ⟨_, h⟩⟩ |
          ⟨_, ⟨hc, _, _⟩ | ⟨hc, _, _⟩ | ⟨_, h⟩⟩ | ⟨_, hc, _⟩
        case inl.inr.inr => exact h
        case inr.inl.inl | inr.inl.inr.inl | inr.inr => rw [hcol] at hc; cases hc
        all_goals
          rw [Command.isRefresh, h] at hcmd
          cases hcmd
      cases cmd
      cases ref
      simp only at hty haddr hhex
      rw [hty, haddr, hhex]

/-- What `FinishRefresh` answers and remembers for the first request. -/
theorem finishRefresh_cases {q' : CommandQueue config} (hs : s.Sound) (hm : s.Marked)
    (h : s.cmdQueue.finishRefresh s.channelState = .ok (selected, q')) :
    (∃ ref rest, selected = some ref ∧ ref.isRefresh = true ∧
      s.channelState.refreshQ = ref :: rest ∧ q'.isInRef = false ∧ q'.refQIndices = []) ∨
    ((∀ cmd, selected = some cmd → cmd.isRefresh = false) ∧ Marked { s with cmdQueue := q' }) := by
  unfold CommandQueue.finishRefresh at h
  split at h
  · cases h
    exact .inr ⟨fun _ hcmd => (nomatch hcmd), hm.idle, hm.busy⟩
  · rename_i ref rest hq
    obtain ⟨q₁, hq₁⟩ : ∃ q₁, q₁ = (if (!s.cmdQueue.isInRef) = true then
      { s.cmdQueue with
        refQIndices := s.cmdQueue.refQIndices ++ CommandQueue.getRefQIndices config ref
        isInRef := true }
      else s.cmdQueue) := ⟨_, rfl⟩
    dsimp only at h
    rw [← hq₁] at h
    -- the queues wait for `ref`, from now on or since an earlier tick
    have hin : q₁.isInRef = true ∧
        q₁.refQIndices = CommandQueue.getRefQIndices config ref := by
      rw [hq₁]
      cases hbusy : s.cmdQueue.isInRef with
      | false => simp [hm.idle hbusy]
      | true =>
          obtain ⟨ref', rest', hq', hindices⟩ := hm.busy hbusy
          rw [hq] at hq'
          cases hq'
          simpa [hbusy] using hindices
    have hmarked : Marked { s with cmdQueue := q₁ } :=
      ⟨fun hnot => by simp [hin.1] at hnot, fun _ => ⟨ref, rest, hq, hin.2⟩⟩
    obtain ⟨answer, hanswer, h⟩ := Library.bind_eq_ok.mp h
    cases answer with
    | none =>
        cases h
        exact .inr ⟨fun _ hcmd => (nomatch hcmd), hmarked⟩
    | some cmd =>
        dsimp only at h
        split at h <;> rename_i href
        · cases h
          obtain rfl : cmd = ref := answer_eq_of_isRefresh
            (hs.requests ref (by rw [hq]; exact List.mem_cons_self ..)).2 hanswer href
          exact .inl ⟨cmd, rest, rfl, href, hq, rfl, rfl⟩
        · cases h
          refine .inr ⟨fun c hc => ?_, hmarked⟩
          cases hc
          simpa using href

theorem selectCommand_cases (hs : s.Sound) (hm : s.Marked)
    (h : s.selectCommand = .ok (selected, s')) :
    s'.channelState = s.channelState ∧ s'.refreshes = s.refreshes ∧
      ((∃ ref rest, selected = some ref ∧ ref.isRefresh = true ∧
          s.channelState.refreshQ = ref :: rest ∧ s'.cmdQueue.isInRef = false ∧
          s'.cmdQueue.refQIndices = []) ∨
        ((∀ cmd, selected = some cmd → cmd.isRefresh = false) ∧ s'.Marked)) := by
  have hchannel := (selectCommand_same h).channelState
  have hqueue : ∀ {s₁ : Controller config}, s₁.Sound → s₁.Marked → s₁.refreshes = s.refreshes →
      s₁.getCommandToIssue = .ok (selected, s') → s'.refreshes = s.refreshes ∧
        (∀ cmd, selected = some cmd → cmd.isRefresh = false) ∧ s'.Marked := by
    intro s₁ hs₁ hm₁ hissued h₁
    obtain ⟨hfollows, hcmd⟩ := getCommandToIssue_follows hs₁ h₁
    exact ⟨hfollows.refreshes.trans hissued, hcmd, hfollows.marked hm₁⟩
  unfold selectCommand at h
  split at h
  · obtain ⟨⟨cmd, q⟩, hfinish, h⟩ := Library.bind_eq_ok.mp h
    have hsame := ((s.cmdQueue.finishRefresh_ensures s.channelState).of_ok hfinish).1
    have hcases := finishRefresh_cases hs hm hfinish
    cases cmd with
    | none =>
        rcases hcases with ⟨_, _, hcmd, _⟩ | ⟨_, hm₁⟩
        · cases hcmd
        · obtain ⟨hissued, hcmd, hm'⟩ := hqueue (hs.of_quiet (.of_queue hsame)) hm₁ rfl h
          exact ⟨hchannel, hissued, .inr ⟨hcmd, hm'⟩⟩
    | some cmd =>
        cases h
        exact ⟨rfl, rfl, hcases⟩
  · obtain ⟨hissued, hcmd, hm'⟩ := hqueue hs hm rfl h
    exact ⟨hchannel, hissued, .inr ⟨hcmd, hm'⟩⟩

/-- The first request is taken by its refresh. -/
theorem Issued.attends {ref : Command} {rest : List Command} (h : Issued s ref s')
    (href : ref.isRefresh = true) (hq : s.channelState.refreshQ = ref :: rest) :
    s'.Attends (ref :: rest) s.refreshes := by
  have hrest := ChannelState.refreshQ_of_refresh h.channel href hq
  refine .first (by rw [hrest]) ?_
  rw [h.refreshes]
  simp [href]

/-- The second command of a cycle comes from the queues. -/
theorem issueSelected_cases (hs : s.Sound) (h : s.issueSelected cmd = .ok s') :
    ∃ s₁, Issued s cmd s₁ ∧ Follows s₁ s' := by
  obtain ⟨s₁, hs₁, h⟩ := Library.bind_eq_ok.mp h
  have hissued := issueCommand_spec hs₁
  refine ⟨s₁, hissued, ?_⟩
  split at h
  · obtain ⟨⟨second, s₂⟩, hs₂, h⟩ := Library.bind_eq_ok.mp h
    obtain ⟨hfollows, hsecond⟩ := getCommandToIssue_follows (hs.of_issued hissued) hs₂
    cases second with
    | none =>
        cases h
        exact hfollows
    | some second =>
        dsimp only at h
        split at h
        · obtain ⟨s₃, hs₃, h⟩ := Library.bind_eq_ok.mp h
          cases h
          have hlast := (issueCommand_spec hs₃).follows (hsecond second rfl)
          exact hfollows.trans ⟨hlast.refreshQ, hlast.refreshes, hlast.isInRef, hlast.refQIndices⟩
        · cases h
          exact hfollows
  · cases h
    exact .refl _

theorem issueCommands_attends {issued : Bool} (hs : s.Sound) (hpim : s.Streams) (hm : s.Marked)
    (h : s.issueCommands = .ok (issued, s')) :
    s'.Attends s.channelState.refreshQ s.refreshes ∧ s'.Marked := by
  obtain ⟨⟨selected, s₁⟩, hsel, h⟩ := Library.bind_eq_ok.mp h
  obtain ⟨hchannel, hissued, hcases⟩ := selectCommand_cases hs hm hsel
  have hsame := selectCommand_same hsel
  have hs₁ : s₁.Sound := by
    obtain ⟨s₀, hstill, hpicked⟩ := (selectCommand_ensures (o := s) hs.requests).of_ok hsel
    have hs₀ := hs.of_quiet hstill.toQuiet
    cases selected with
    | none => exact hs₀.of_quiet (Still.toQuiet hpicked)
    | some cmd =>
        rcases hpicked with ⟨_, hrem⟩ | ⟨hstill', _⟩
        · exact hs₀.of_removed hrem
        · exact hs₀.of_quiet hstill'.toQuiet
  have hnone : s₁.Attends s.channelState.refreshQ s.refreshes := .none (by rw [hchannel]) hissued
  dsimp only at h
  rcases hcases with ⟨ref, rest, rfl, href, hq, hin, hindices⟩ | ⟨hcmd, hm₁⟩
  · rw [Option.any_some, href, Bool.true_or, if_pos rfl] at h
    obtain ⟨s₂, hs₂, h⟩ := Library.bind_eq_ok.mp h
    cases h
    obtain ⟨s₃, hissue, hfollows⟩ := issueSelected_cases hs₁ hs₂
    have hm₃ : s₃.Marked := by
      refine ⟨fun _ => ?_, fun hbusy => ?_⟩
      · rw [hissue.cmdQueue, hindices]
      · rw [hissue.cmdQueue, hin] at hbusy
        cases hbusy
    have ha := hissue.attends href (hchannel ▸ hq)
    rw [← hq, hissued] at ha
    exact ⟨hfollows.attends ha, hfollows.marked hm₃⟩
  · split at h
    · cases selected with
      | none =>
          cases h
          exact ⟨hnone, hm₁⟩
      | some cmd =>
          obtain ⟨s₂, hs₂, h⟩ := Library.bind_eq_ok.mp h
          cases h
          obtain ⟨s₃, hissue, hrest⟩ := issueSelected_cases hs₁ hs₂
          have hfollows := (hissue.follows (hcmd cmd rfl)).trans hrest
          exact ⟨hfollows.attends hnone, hfollows.marked hm₁⟩
    · obtain ⟨s₂, hs₂, h⟩ := Library.bind_eq_ok.mp h
      cases h
      have hpim₁ : s₁.Streams := fun cmd hcmd' => hpim cmd (hsame.pimCmds ▸ hcmd')
      have hfollows := issuePimStreams_follows hpim₁ hs₂
      exact ⟨hfollows.attends hnone, hfollows.marked hm₁⟩

theorem tickRefresh_inserts (h : s.tickRefresh = .ok s') :
    s'.channelState.refreshQ = s.channelState.refreshQ ++ s.inserted ∧
      s'.refreshes = s.refreshes ∧ s'.cmdQueue = s.cmdQueue ∧ s'.pimCmds = s.pimCmds := by
  obtain ⟨⟨refresh, channel⟩, htick, h⟩ := Library.bind_eq_ok.mp h
  cases h
  exact ⟨Refresh.clockTick_refreshQ htick, rfl, rfl, rfl⟩

/-- New requests are appended and leave the first one in its place. -/
theorem Marked.tickRefresh (hm : s.Marked) (h : s.tickRefresh = .ok s') : s'.Marked := by
  obtain ⟨hq, _, hcmd, _⟩ := tickRefresh_inserts h
  refine ⟨fun hin => ?_, fun hin => ?_⟩
  · rw [hcmd] at hin ⊢
    exact hm.idle hin
  · rw [hcmd] at hin ⊢
    obtain ⟨ref, rest, hfirst, hindices⟩ := hm.busy hin
    exact ⟨ref, rest ++ s.inserted, by rw [hq, hfirst, List.cons_append], hindices⟩

/-- A tick inserts requests at the end, and takes at most the first one. -/
theorem clockTick_attends (hs : s.Sound) (hpim : s.Streams) (hm : s.Marked)
    (h : s.clockTick = .ok s') :
    s'.Attends (s.channelState.refreshQ ++ s.inserted) s.refreshes ∧ s'.Marked := by
  obtain ⟨s₀, issued, s₁, s₂, htick, hissue, hsleep, rfl⟩ := clockTick_parts h
  obtain ⟨hq, hissued, _, hpim₀⟩ := tickRefresh_inserts htick
  have hs₀ := hs.of_quiet (s.tickRefresh_ensures.of_ok htick)
  obtain ⟨ha, hm₁⟩ := issueCommands_attends hs₀ (fun cmd hc => hpim cmd (hpim₀ ▸ hc))
    (hm.tickRefresh htick) hissue
  rw [hq, hissued] at ha
  have hidle : Follows s₁ s₁.updateIdleCycles := ⟨rfl, rfl, rfl, rfl⟩
  have hrest : Follows s₁ s₂ := by
    rcases hsleep with rfl | ⟨_, _, hsleep⟩
    · exact hidle
    · exact hidle.trans (updateSelfRefresh_follows hsleep)
  have hsched := hrest.trans (scheduleTransaction_follows s₂)
  have hall : Follows s₁ { s₂.scheduleTransaction with
      clk := s₂.scheduleTransaction.clk + 1
      cmdQueue := s₂.scheduleTransaction.cmdQueue.clockTick } :=
    ⟨hsched.refreshQ, hsched.refreshes, hsched.isInRef, hsched.refQIndices⟩
  exact ⟨hall.attends ha, hall.marked hm₁⟩

/-! ## Runs -/

/-- The requests that an operation inserts. -/
def insertedBy (s : Controller config) : Op → List Command
  | .tick => s.inserted
  | _ => []

/-- Everything that has been inserted has been issued or waits, in this order. -/
structure InOrder (s : Controller config) (history : List Command) : Prop where
  sound : s.Sound
  streams : s.Streams
  marked : s.Marked
  order : s.refreshes ++ s.channelState.refreshQ = history

theorem InOrder.init : InOrder ({} : Controller config) [] :=
  ⟨Sound.init, fun _ hcmd => absurd hcmd List.not_mem_nil,
    ⟨fun _ => rfl, fun hbusy => Bool.noConfusion hbusy⟩, rfl⟩

/-- Operations other than ticks serve no refresh. -/
theorem follows_of_step {op : Op} (hop : op ≠ .tick) (h : (controllerSystem config).step s op s') :
    Follows s s' := by
  cases op with
  | tick => exact absurd rfl hop
  | add it =>
      obtain ⟨_, rfl⟩ := h
      exact (s.addTransaction_sameDevice it).follows (SameCommands.addTransaction s it).issued
  | done clk =>
      cases h
      exact (s.returnDoneTrans_sameDevice clk).follows (SameCommands.returnDoneTrans s clk).issued
  | pushRdW _ | pushRdIn _ _ | pushWr _ =>
      obtain ⟨_, rfl⟩ := h
      exact ⟨rfl, rfl, rfl, rfl⟩
  | setInPim _ | setWrMultitenant _ =>
      cases h
      exact ⟨rfl, rfl, rfl, rfl⟩

theorem InOrder.step {history history' : List Command} {op : Op} (h : InOrder s history)
    (hs : ((controllerSystem config).observe insertedBy).step (s, history) op (s', history')) :
    InOrder s' history' := by
  obtain ⟨hop, rfl⟩ := hs
  have hstep : ((controllerSystem config).restrict fun _ _ => True).step s op s' := ⟨hop, trivial⟩
  have hsound := h.sound.operation hstep
  have hstreams := h.streams.operation h.sound hop
  by_cases htick : op = .tick
  · subst htick
    obtain ⟨ha, hm⟩ := clockTick_attends h.sound h.streams h.marked hop
    refine ⟨hsound, hstreams, hm, ?_⟩
    show s'.refreshes ++ s'.channelState.refreshQ = history ++ s.inserted
    rw [← h.order, List.append_assoc]
    cases ha with
    | none hq hissued => rw [hq, hissued]
    | first hq hissued => rw [hq, hissued, List.append_assoc, List.singleton_append]
  · have hfollows := follows_of_step htick hop
    have hnone : insertedBy s op = [] := by
      cases op <;> first | rfl | exact absurd rfl htick
    refine ⟨hsound, hstreams, hfollows.marked h.marked, ?_⟩
    show s'.refreshes ++ s'.channelState.refreshQ = history ++ insertedBy s op
    rw [hfollows.refreshQ, hfollows.refreshes, hnone, List.append_nil, h.order]

/-- In every run, next to the history of the inserted requests: the refreshes that have been
issued and the requests that wait make up the history, the next tick takes at most the first
request, and the queues that wait are those of the first request. -/
theorem refreshes_in_order {ops : List Op} {history : List Command}
    (hrun : ((controllerSystem config).observe insertedBy).Run ops (s, history)) :
    s.refreshes ++ s.channelState.refreshQ = history ∧
    (∀ s', s.clockTick = .ok s' →
      s'.Attends (s.channelState.refreshQ ++ s.inserted) s.refreshes) ∧
    (s.cmdQueue.isInRef = true → ∃ ref rest, s.channelState.refreshQ = ref :: rest ∧
      ∀ i, i ∈ s.cmdQueue.refQIndices ↔ config.Covers ref i) := by
  have h : InOrder s history :=
    hrun.invariant (fun p => InOrder p.1 p.2) InOrder.init fun _ _ _ hp hs => hp.step hs
  refine ⟨h.order, fun s' htick => (clockTick_attends h.sound h.streams h.marked htick).1, ?_⟩
  intro hbusy
  obtain ⟨ref, rest, hq, hindices⟩ := h.marked.busy hbusy
  refine ⟨ref, rest, hq, fun i => ?_⟩
  rw [hindices]
  exact CommandQueue.mem_getRefQIndices
    (h.sound.requests ref (by rw [hq]; exact List.mem_cons_self ..))

/-- A refresh every four cycles: the first is issued, and two more wait for `tRFC`. -/
theorem refreshes_in_order_waiting :
    ∃ (s : Controller { Config.defaults with tREFI := 4 }) (history : List Command),
      s.refreshes.length = 1 ∧ s.channelState.refreshQ.length = 2 ∧
      s.refreshes ++ s.channelState.refreshQ = history ∧
      ∃ ref rest, s.channelState.refreshQ = ref :: rest ∧
        ∀ i, i ∈ s.cmdQueue.refQIndices ↔
          Config.Covers { Config.defaults with tREFI := 4 } ref i := by
  have hsome : ((replay { Config.defaults with tREFI := 4 } (List.replicate 13 .tick)).any fun s =>
      s.refreshes.length = 1 && s.channelState.refreshQ.length = 2 && s.cmdQueue.isInRef) =
      true := by
    decide +kernel
  obtain ⟨s, hs, h⟩ := (Option.any_eq_true _ _).mp hsome
  rw [Bool.and_eq_true, Bool.and_eq_true, decide_eq_true_eq, decide_eq_true_eq] at h
  obtain ⟨history, hrun⟩ :=
    ((run_of_replay (fun _ => True) hs fun _ _ => trivial).of_restrict).observe insertedBy
  obtain ⟨horder, -, hcovers⟩ := refreshes_in_order hrun
  exact ⟨s, history, h.1.1, h.1.2, horder, hcovers h.2⟩

end Controller

end Dramsim
