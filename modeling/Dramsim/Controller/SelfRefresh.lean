import Dramsim.Channel.Legality
import Dramsim.Controller.Refinement
import Dramsim.Controller.RefreshOrder

/-!
# Self refresh

A rank in self refresh answers a column command with `SREF_EXIT`.  It answers nothing else:
a refresh ends the process, and so does the request for `SREF_EXIT` that `ClockTick` makes
for a sleeping rank with queued commands.

The request is only made in a cycle that issues nothing.  A sleeping rank that has been
asked for has a command in a queue (`Waiting`), a queue is only skipped for the first refresh
request, and the first command of a queue that is not skipped wakes its rank as soon as
`SREF_EXIT` is due.  So the process goes on as long as no rank sleeps through the first refresh
request or is asked for too early (`WakesSafely`, `tick_survives_sleep`).
-/

namespace Dramsim

variable {ix : BankIndex} {req : Command} {i : Nat}

open Library (System)

/-! ## Banks -/

theorem BankState.updateState_ne_pd {b b' : BankState} {cmd : Command}
    (h : b.updateState cmd = .ok b') : b'.state ≠ .pd := by
  rcases updateState_cases h with ⟨hs, ⟨_, rfl⟩ | ⟨_, rfl⟩⟩ |
    ⟨hs, ⟨_, rfl⟩ | ⟨_, rfl⟩ | ⟨_, rfl⟩⟩ | ⟨_, _, rfl⟩
  · rw [hs]
    decide
  · exact fun h => nomatch h
  · rw [hs]
    decide
  · exact fun h => nomatch h
  · exact fun h => nomatch h
  · exact fun h => nomatch h

namespace ChannelState

variable {config : Config} {s s' : ChannelState} {cmd : Command} {clk : Nat}

/-- No bank is in power-down, a state that no command leads to. -/
def Alive (s : ChannelState) : Prop := ∀ ix, (s.bankStates ix).state ≠ .pd

theorem Alive.update {timing : Timing} (hs : s.Alive)
    (h : s.updateTimingAndStates config timing cmd clk = .ok s') : s'.Alive := by
  intro ix
  by_cases hix : config.Reaches cmd ix
  · obtain ⟨s₁, hs₁, rfl⟩ := updateTimingAndStates_spec h
    rw [updateTiming_state]
    exact BankState.updateState_ne_pd (hs₁.taken ix hix)
  · rw [state_of_not_reaches h hix]
    exact hs ix

/-- A bank that sleeps answers column commands, too. -/
theorem Alive.servesColumns (h : s.Alive) (config : Config) : s.ServesColumns config := by
  intro req clk hcol
  have hcolumn : req.cmdType.isColumn = true := CommandType.isColumn_of_isReadWrite hcol
  refine exists_getReadyCommand_of_bank (CommandType.isRankCMD_of_isReadWrite hcol) ?_
  have hrequest : req.cmdType.isRequest = true := by
    rw [CommandType.isRequest, hcolumn, Bool.true_or]
  cases hs : (s.bankStates req.bankIndex).state with
  | opened => exact BankState.Awake.exists_getReadyCommand (.inl hs) hrequest clk
  | closed => exact BankState.Awake.exists_getReadyCommand (.inr hs) hrequest clk
  | sref =>
      rw [BankState.getReadyCommand, BankState.requiredType_of_sref hs hcolumn]
      dsimp only [bind, Except.bind]
      split <;> exact ⟨_, rfl⟩
  | pd => exact absurd hs (h _)

end ChannelState

/-! ## Queues -/

namespace Config

variable {config : Config}

/-- The rank whose commands a queue holds. -/
def rankOfQueue (config : Config) (i : Nat) : Nat :=
  match config.queueStructure with
  | .perRank => i
  | .perBank => i / config.banks

theorem rankOfQueue_getQueueIndex (h : config.HasBank ix) :
    (config.rankOfQueue (config.getQueueIndex ix.rank ix.bankgroup ix.bank).toNat : Int) =
      ix.rank := by
  obtain ⟨⟨hr0, _⟩, ⟨hg0, hg⟩, hb0, hb⟩ := h
  unfold rankOfQueue getQueueIndex
  cases config.queueStructure with
  | perRank => exact Int.toNat_of_nonneg hr0
  | perBank =>
      obtain ⟨r, hr⟩ := Int.eq_ofNat_of_zero_le hr0
      obtain ⟨g, hg'⟩ := Int.eq_ofNat_of_zero_le hg0
      obtain ⟨b, hb'⟩ := Int.eq_ofNat_of_zero_le hb0
      rw [hg'] at hg
      rw [hb'] at hb
      have hindex : (r : Int) * config.banks + g * config.banksPerGroup + b =
          ((r * config.banks + g * config.banksPerGroup + b : Nat) : Int) := by
        push_cast
        rfl
      simp only [hr, hg', hb', hindex, Int.toNat_natCast, Int.natCast_inj]
      exact CommandQueue.div_banks_iff.mpr ⟨g, by omega, b, by omega, rfl⟩

theorem rankOfQueue_queueOf {addr : Address} (h : config.HasBank addr.bankIndex) :
    (config.rankOfQueue (config.queueOf addr) : Int) = addr.rank :=
  rankOfQueue_getQueueIndex h

/-- A command goes to banks of its own rank. -/
theorem Reaches.rank {cmd : Command} (h : config.Reaches cmd ix) : ix.rank = cmd.addr.rank := by
  unfold Reaches at h
  split at h
  · exact (mem_rankBanks.mp h).1
  · rw [h]
    rfl

theorem Request.rank (hreq : config.Request req) :
    0 ≤ req.addr.rank ∧ req.addr.rank < config.ranks := by
  obtain ⟨_, hin⟩ := hreq
  split at hin
  · exact hin
  · exact hin.1

theorem Request.hasBank (hreq : config.Request req) (h : config.Reaches req ix) :
    config.HasBank ix := by
  obtain ⟨_, hin⟩ := hreq
  unfold Reaches at h
  split at hin
  · rename_i hrank
    rw [if_pos hrank] at h
    exact hasBank_of_mem_rankBanks hin h
  · rename_i hrank
    rw [if_neg hrank] at h
    exact h ▸ hin

/-- A refresh covers queues of its own rank. -/
theorem Covers.rank {ref : Command} (h : config.Covers ref i) :
    (config.rankOfQueue i : Int) = ref.addr.rank := by
  obtain ⟨ix, hix, hreach, hi⟩ := h
  rw [← hreach.rank, ← rankOfQueue_getQueueIndex hix, ← hi, Int.toNat_natCast]

end Config

namespace CommandQueue

variable {config : Config} {channel : ChannelState}

/-- The queue waits for a refresh. -/
def Skips (q : CommandQueue config) (i : Nat) : Prop :=
  q.isInRef = true ∧ (i : Int) ∈ q.refQIndices

theorem getNextQueue_queueIdx (q : CommandQueue config) :
    (q.getNextQueue.queueIdx : Nat) = (q.queueIdx + 1) % config.numQueues := by
  unfold getNextQueue
  split
  · rename_i hlt
    exact (Nat.mod_eq_of_lt hlt).symm
  · rename_i hge
    have hlast : (q.queueIdx : Nat) + 1 = config.numQueues := by
      have := q.queueIdx.isLt
      omega
    rw [hlast, Nat.mod_self]

/-- The `k`-th queue after the one served last. -/
def turn (q : CommandQueue config) (k : Nat) : Nat := (q.queueIdx + 1 + k) % config.numQueues

theorem getNextQueue_queueIdx_eq (q : CommandQueue config) :
    (q.getNextQueue.queueIdx : Nat) = q.turn 0 :=
  q.getNextQueue_queueIdx

theorem turn_getNextQueue (q : CommandQueue config) (k : Nat) :
    q.getNextQueue.turn k = q.turn (k + 1) := by
  rw [turn, getNextQueue_queueIdx, Nat.add_assoc, Nat.mod_add_mod, Nat.add_comm 1 k, turn]

/-- Every queue gets its turn. -/
theorem exists_turn (q : CommandQueue config) (hi : i < config.numQueues) :
    ∃ k < config.numQueues, q.turn k = i := by
  have hlt := q.queueIdx.isLt
  unfold turn
  by_cases hafter : (q.queueIdx : Nat) < i
  · refine ⟨i - q.queueIdx - 1, by omega, ?_⟩
    have hsum : (q.queueIdx : Nat) + 1 + (i - q.queueIdx - 1) = i := by omega
    rw [hsum, Nat.mod_eq_of_lt hi]
  · refine ⟨i + config.numQueues - q.queueIdx - 1, by omega, ?_⟩
    have hsum : (q.queueIdx : Nat) + 1 + (i + config.numQueues - q.queueIdx - 1) =
        i + config.numQueues := by
      omega
    rw [hsum, Nat.add_mod_right, Nat.mod_eq_of_lt hi]

/-- The queues that are looked at in vain hold nothing that could go. -/
theorem commandFrom_none {q' : CommandQueue config} :
    ∀ (n : Nat) (q : CommandQueue config), commandFrom channel n q = .ok (none, q') →
      ∀ k < n, ¬ q.Skips (q.turn k) →
        getFirstReadyInQueue config channel q.clk (q.queues (q.turn k)) = .ok none
  | 0, _, _, k, hk, _ => absurd hk (Nat.not_lt_zero k)
  | n + 1, q, h, k, hk, hskip => by
      -- the next `n` queues, counted from the one that is looked at here
      have hrest (h : commandFrom channel n q.getNextQueue = .ok (none, q')) (k : Nat) (hk : k < n)
          (hskip : ¬ q.Skips (q.turn (k + 1))) :
          getFirstReadyInQueue config channel q.clk (q.queues (q.turn (k + 1))) = .ok none := by
        have := commandFrom_none n q.getNextQueue h k hk
        rw [turn_getNextQueue] at this
        exact this hskip
      rw [commandFrom] at h
      split at h
      · rename_i hwaits
        cases k with
        | zero =>
            refine absurd ?_ hskip
            rw [Bool.and_eq_true, decide_eq_true_eq, getNextQueue_queueIdx_eq] at hwaits
            exact hwaits
        | succ k => exact hrest h k (Nat.lt_of_succ_lt_succ hk) hskip
      · obtain ⟨ready, hready, h⟩ := Library.bind_eq_ok.mp h
        cases ready with
        | some cmd =>
            dsimp only at h
            split at h
            · obtain ⟨_, _, h⟩ := Library.bind_eq_ok.mp h
              cases h
            · cases h
        | none =>
            cases k with
            | zero =>
                rw [getNextQueue_queueIdx_eq] at hready
                exact hready
            | succ k => exact hrest h k (Nat.lt_of_succ_lt_succ hk) hskip

/-- Nothing is selected only if no queue has anything to offer. -/
theorem getCommandToIssue_none {q q' : CommandQueue config}
    (h : q.getCommandToIssue channel = .ok (none, q')) (hi : i < config.numQueues)
    (hskip : ¬ q.Skips i) : getFirstReadyInQueue config channel q.clk (q.queues i) = .ok none := by
  obtain ⟨k, hk, rfl⟩ := q.exists_turn hi
  exact commandFrom_none _ _ h k hk hskip

/-- The first command of a queue wakes its rank. -/
theorem getFirstReadyInQueue_of_sref {entry : Command} {rest : List Command} {clk : Nat}
    (hcol : entry.isReadWrite = true)
    (hs : (channel.bankStates entry.bankIndex).state = .sref)
    (hdue : (channel.bankStates entry.bankIndex).cmdTiming .srefExit ≤ clk) :
    getFirstReadyInQueue config channel clk (entry :: rest) =
      .ok (some ⟨.srefExit, entry.addr, entry.hexAddr⟩) := by
  have hbank : (channel.bankStates entry.bankIndex).getReadyCommand entry clk =
      .ok (some ⟨.srefExit, entry.addr, entry.hexAddr⟩) :=
    BankState.getReadyCommand_eq_some.mpr
      ⟨BankState.requiredType_of_sref hs (CommandType.isColumn_of_isReadWrite hcol), hdue, rfl, rfl⟩
  have hready : channel.getReadyCommand config entry clk =
      .ok (some ⟨.srefExit, entry.addr, entry.hexAddr⟩) := by
    have hrank : entry.isRankCMD = false := CommandType.isRankCMD_of_isReadWrite hcol
    rw [ChannelState.getReadyCommand, hrank, if_neg Bool.false_ne_true, hbank]
    rfl
  rw [getFirstReadyInQueue, firstReadyFrom, hready]
  rfl

end CommandQueue

/-! ## Refresh requests -/

namespace Refresh

variable {config : Config} {channel : ChannelState} {req : Command}

theorem awake_of_firstAwake :
    ∀ {l : List Nat}, req ∈ (firstAwakeNeedsRefresh channel l).refreshQ →
      req ∈ channel.refreshQ ∨ channel.rankIsSref req.addr.rank = false
  | [], h => .inl h
  | i :: rest, h => by
      unfold firstAwakeNeedsRefresh at h
      split at h
      · rename_i hawake
        refine (List.mem_append.mp h).imp_right fun h => ?_
        rw [List.mem_singleton.mp h]
        simpa using hawake
      · exact awake_of_firstAwake h

/-- A refresh is only asked for a rank that is awake. -/
theorem awake_of_clockTick {r r' : Refresh config} {channel' : ChannelState}
    (hok : r.clockTick channel = .ok (r', channel')) (h : req ∈ channel'.refreshQ) :
    req ∈ channel.refreshQ ∨ channel.rankIsSref req.addr.rank = false := by
  have hinsert (h : req ∈ (r.insertRefresh channel).2.refreshQ) :
      req ∈ channel.refreshQ ∨ channel.rankIsSref req.addr.rank = false := by
    unfold insertRefresh at h
    cases hp : config.refreshPolicy with
    | rankLevelSimultaneous =>
        rw [hp] at h
        exact awake_of_firstAwake h
    | rankLevelStaggered | bankLevelStaggered =>
        rw [hp] at h
        dsimp only at h
        split at h
        · rename_i hawake
          refine (List.mem_append.mp h).imp_right fun h => ?_
          rw [List.mem_singleton.mp h]
          simpa using hawake
        · exact .inl h
  unfold clockTick at hok
  dsimp only at hok
  split at hok
  · cases hok
  · split at hok
    · cases hok
      exact hinsert h
    · cases hok
      exact .inl h

end Refresh

namespace Controller

variable {config : Config} {o s s' : Controller config} {cmd : Command} {ops : List Op}
  {ix : BankIndex}

/-! ## What a tick keeps -/

/-- The facts about banks and queues that every step keeps. -/
structure Tended (s : Controller config) : Prop where
  sound : s.Sound
  pim : s.pimCmds = []
  refines : s.Refines
  alive : s.channelState.Alive

theorem SameCommands.alive (h : SameCommands s s') (hs : s.channelState.Alive) :
    s'.channelState.Alive := by
  intro ix
  rw [h.banks.bankStates]
  exact hs ix

theorem Step.alive (hs : s.Sound) (h : Step o s s') (halive : s.channelState.Alive) :
    s'.channelState.Alive := by
  cases h with
  | quiet hquiet => exact hquiet.sameCommands.alive halive
  | serve hrem hissue =>
      exact (hrem.sameCommands.alive halive).update (issueCommand_spec hissue).channel
  | discard hrem _ => exact hrem.sameCommands.alive halive
  | answer _ hissue | pim _ hissue => exact halive.update (issueCommand_spec hissue).channel
  | schedule => exact (scheduleTransaction_spec hs.split).sameCommands.alive halive
  | advance => exact halive

theorem Tended.step (h : s.Tended) (hstep : Step o s s') : s'.Tended where
  sound := h.sound.step hstep
  pim := List.eq_nil_iff_forall_not_mem.mpr fun cmd hcmd => by
    have hmem := hstep.pimCmds h.sound hcmd
    rw [h.pim] at hmem
    cases hmem
  refines := h.refines.step h.sound h.pim hstep
  alive := hstep.alive h.sound h.alive

/-- A bank of the device sleeps with its rank. -/
theorem Tended.sref (h : s.Tended) (hix : config.HasBank ix) :
    (s.channelState.bankStates ix).state = .sref ↔ s.channelState.rankIsSref ix.rank = true := by
  obtain ⟨actions, hrun⟩ := h.refines.run
  exact (bankInvariant_of_run hrun.of_restrict).sref ix hix

theorem Tended.awake (h : s.Tended) (hix : config.HasBank ix)
    (hrank : s.channelState.rankIsSref ix.rank = false) : (s.channelState.bankStates ix).Awake := by
  have hsref := h.sref hix
  rw [hrank] at hsref
  have hpd := h.alive ix
  unfold BankState.Awake
  cases hs : (s.channelState.bankStates ix).state with
  | opened => exact .inl rfl
  | closed => exact .inr rfl
  | sref => exact absurd (hsref.mp hs) Bool.false_ne_true
  | pd => exact absurd hs hpd

theorem Sound.holdsColumns (h : s.Sound) : s.cmdQueue.HoldsColumns := by
  intro i cmd hcmd
  obtain ⟨_, trans, rfl⟩ := h.entries i cmd hcmd
  exact columnType_isReadWrite config trans.isWrite

/-! ## Ranks that have been asked for -/

/-- A rank in self refresh that has been asked for has a command in a queue. -/
def Waiting (s : Controller config) : Prop :=
  ∀ i : Int, s.channelState.rankIsSref i = true → s.cmdQueue.rankQEmpty i = false →
    ∃ j, ∃ cmd ∈ s.cmdQueue.queues j, cmd.addr.rank = i

theorem Waiting.congr (h : s.Waiting)
    (hsref : s'.channelState.rankIsSref = s.channelState.rankIsSref)
    (hqueues : s'.cmdQueue.queues = s.cmdQueue.queues)
    (hasked : s'.cmdQueue.rankQEmpty = s.cmdQueue.rankQEmpty) : s'.Waiting := by
  intro i hi hq
  rw [hqueues]
  exact h i (hsref ▸ hi) (hasked ▸ hq)

/-- A column command that leaves its queue is for a rank that is awake. -/
theorem Waiting.removed (ht : s.Tended) (h : s.Waiting) (hrem : Removed s cmd s') :
    s'.Waiting := by
  obtain ⟨before, after, hsplit, ⟨it, hit⟩, hready, _⟩ := ht.sound.offered hrem.column hrem.offered
  have hbank : config.HasBank cmd.bankIndex := hit ▸ hasBank_transToCommand it
  have hawake : s.channelState.rankIsSref cmd.addr.rank = false := by
    rw [Bool.eq_false_iff]
    intro hsleep
    have hsref := (ht.sref hbank).mpr hsleep
    cases ChannelState.getReadyCommand_spec hready with
    | wholeRank hrank _ | bankOfRank hrank _ _ _ _ =>
        rw [Command.isRankCMD, CommandType.isRankCMD_of_isReadWrite hrem.column] at hrank
        cases hrank
    | bank _ hdue _ _ _ =>
        have hexit := hdue.1
        rw [BankState.requiredType_of_sref hsref
          (CommandType.isColumn_of_isReadWrite hrem.column)] at hexit
        have hcol := hrem.column
        rw [Command.isReadWrite, ← Except.ok.inj hexit] at hcol
        cases hcol
  obtain ⟨⟨before, after, hsplit, hqueues⟩, _, hframe⟩ := hrem.spec ht.sound
  have hasked : s'.cmdQueue.rankQEmpty = s.cmdQueue.rankQEmpty :=
    (Within.of_removed (o := s) ⟨rfl, fun _ _ hc => hc, rfl, fun _ hc => hc, fun _ hr => .inl hr⟩
      hrem).rankQEmpty
  intro i hi hq
  rw [hframe] at hi
  obtain ⟨j, c, hc, hrank⟩ := h i hi (hasked ▸ hq)
  have hne : c ≠ cmd := by
    rintro rfl
    rw [← hrank, hawake] at hi
    cases hi
  refine ⟨j, c, ?_, hrank⟩
  rw [hqueues]
  by_cases hj : j = config.queueOf cmd.addr
  · subst hj
    rw [Function.update_self]
    rw [hsplit] at hc
    simpa [hne] using hc
  · rw [Function.update_of_ne hj]
    exact hc

theorem Waiting.issued (h : s.Waiting) (hissue : Issued s cmd s')
    (hsleep : cmd.cmdType = .srefEnter → s.cmdQueue.rankQEmpty cmd.addr.rank = true) :
    s'.Waiting := by
  have hflags := ChannelState.rankIsSref_of_update hissue.channel
  intro i hi hq
  rw [hissue.cmdQueue] at hq ⊢
  refine h i ?_ hq
  rw [hflags] at hi
  split at hi
  · rename_i hty
    by_cases hr : i = cmd.addr.rank
    · rw [hr, hsleep hty] at hq
      cases hq
    · rwa [Function.update_of_ne hr] at hi
  · split at hi
    · by_cases hr : i = cmd.addr.rank
      · rw [hr, Function.update_self] at hi
        cases hi
      · rwa [Function.update_of_ne hr] at hi
    · exact hi

/-- Only a rank that has not been asked for is put to sleep. -/
theorem Wanted.notAsked (hs : s.Sound) (h : s.Wanted cmd) (hty : cmd.cmdType = .srefEnter) :
    s.cmdQueue.rankQEmpty cmd.addr.rank = true := by
  obtain ⟨_, req, clk, hwants, _, hready⟩ := h
  have hans := ChannelState.getReadyCommand_spec hready
  have hreq : req.cmdType = .srefEnter := by
    by_contra hne
    exact hans.ne_srefEnter hne hty
  cases hwants with
  | refresh hmem =>
      have href := (hs.requests req hmem).2
      rw [Command.isRefresh, hreq] at href
      cases href
  | @queued i _ _ hmem =>
      obtain ⟨_, trans, rfl⟩ := hs.entries i req hmem
      have hcol := columnType_isReadWrite config trans.isWrite
      rw [show columnType config trans.isWrite = .srefEnter from hreq] at hcol
      cases hcol
  | sleep _ _ hempty =>
      cases hans with
      | wholeRank _ _ => exact hempty
      | bankOfRank _ _ _ hne _ => exact absurd hty hne
      | bank hrank _ _ _ _ => cases hrank

theorem Waiting.move (ht : s.Tended) (h : s.Waiting) (hmove : Move o s s') : s'.Waiting := by
  cases hmove with
  | still hstill =>
      exact h.congr hstill.banks.rankIsSref hstill.queues.queues hstill.queues.rankQEmpty
  | @serve s₁ _ cmd hrem _ hissue =>
      refine (h.removed ht hrem).issued (issueCommand_spec hissue) fun hty => ?_
      have hcol := hrem.column
      rw [Command.isReadWrite, hty] at hcol
      cases hcol
  | discard hrem _ => exact h.removed ht hrem
  | answer hwanted _ hissue =>
      exact h.issued (issueCommand_spec hissue) (hwanted.notAsked ht.sound)
  | pim hdue _ _ _ =>
      have hmem := hdue.1
      rw [ht.pim] at hmem
      cases hmem

theorem Waiting.addCommand (h : s.Waiting) (cmd : Command) :
    Waiting { s with cmdQueue := s.cmdQueue.addCommand cmd } := by
  unfold CommandQueue.addCommand
  dsimp only
  split
  · intro i hi hq
    dsimp only at hi hq ⊢
    by_cases hr : i = cmd.addr.rank
    · refine ⟨config.queueOf cmd.addr, cmd, ?_, hr.symm⟩
      rw [Function.update_self]
      exact List.mem_append_right _ (List.mem_singleton.mpr rfl)
    · rw [Function.update_of_ne hr] at hq
      obtain ⟨j, c, hc, hrank⟩ := h i hi hq
      refine ⟨j, c, ?_, hrank⟩
      by_cases hj : j = config.queueOf cmd.addr
      · subst hj
        rw [Function.update_self]
        exact List.mem_append_left _ hc
      · rw [Function.update_of_ne hj]
        exact hc
  · exact h

theorem Waiting.scheduleTransaction (hs : s.Sound) (h : s.Waiting) :
    s.scheduleTransaction.Waiting := by
  have hsched := scheduleTransaction_spec hs.split
  generalize s.scheduleTransaction = s' at hsched
  cases hsched with
  | held draining _ => exact h.congr rfl rfl rfl
  | unified | write | read => exact (h.addCommand _).congr rfl rfl rfl

theorem Waiting.tick (ht : s.Tended) (h : s.Waiting) (htick : s.clockTick = .ok s') :
    s'.Waiting := by
  obtain ⟨s₂, hbefore, htick⟩ := Library.bind_eq_ok.mp htick
  obtain ⟨s₁, hs₁, hmoves⟩ := (beforeSchedule_ensures ht.sound.requests).of_ok hbefore
  obtain ⟨ht₂, h₂⟩ : s₂.Tended ∧ s₂.Waiting := by
    clear hbefore htick
    induction hmoves with
    | refl =>
        have hquiet := s.tickRefresh_ensures.of_ok hs₁
        exact ⟨ht.step (Step.quiet (o := s) hquiet), h.congr hquiet.banks.rankIsSref
          hquiet.queues.queues hquiet.queues.rankQEmpty⟩
    | tail _ hmove ih => exact ⟨ih.1.step hmove.step, ih.2.move ih.1 hmove⟩
  cases htick
  exact (h₂.scheduleTransaction ht₂.sound).congr rfl rfl rfl

/-! ## A tick -/

/-- Every bank that an answer goes to takes it. -/
theorem Tended.taken (h : s.Tended) (hreq : config.Request req)
    (hready : s.channelState.getReadyCommand config req s.clk = .ok (some cmd))
    (hix : config.Reaches cmd ix) :
    ∃ b, (s.channelState.bankStates ix).updateState cmd = .ok b := by
  obtain ⟨actions, hrun⟩ := h.refines.run
  have huniform := (bankInvariant_of_run hrun.of_restrict).uniform
  have hdue := (ChannelState.getReadyCommand_spec hready).due huniform hreq hix
  exact BankState.updateState_of_requiredType hdue.1

theorem issueAnswer_survives (h : s.Tended) (hcmd : s.Answers cmd) :
    Survives (s.issueCommand cmd) Tended := by
  refine .of_cases (fun s' hs' => h.step (Step.answer (o := s) hcmd hs')) (fun e he => ?_)
  obtain ⟨_, req, clk, hask, hclk, hready⟩ := hcmd
  have hnow : clk = s.clk := hclk.elim id fun hq => hq.trans h.sound.clock
  exact issueCommand_error_not_ofBank
    (fun ix hix => h.taken (hask.request h.sound).1 (hnow ▸ hready) hix) he

theorem issuePicked_survives (h : s.Tended) (hpicked : s.Picked (some cmd) s') :
    Survives (s'.issueCommand cmd) Tended := by
  rcases hpicked with ⟨_, hrem⟩ | ⟨hstill, hwanted⟩
  · refine .of_cases (fun s₁ hs₁ => h.step (Step.serve (o := s) hrem hs₁)) (fun e he => ?_)
    obtain ⟨_, _, _, ⟨it, rfl⟩, hready, _⟩ := h.sound.offered hrem.column hrem.offered
    have hframe := (hrem.spec h.sound).2.2
    refine issueCommand_error_not_ofBank (fun ix hix => ?_) he
    rw [hframe]
    exact h.taken (request_transToCommand it).1 hready hix
  · exact issueAnswer_survives (h.step (Step.quiet (o := s) hstill.toQuiet)) hwanted.answers

theorem Tended.getCommandToIssue (h : s.Tended) :
    Survives s.getCommandToIssue fun r => s.Picked r.1 r.2 :=
  getCommandToIssue_survives (h.alive.servesColumns config) h.sound.holdsColumns

theorem issueSelected_survives_sleep (h : s.Tended) (hpicked : s.Picked (some cmd) s') :
    Survives (s'.issueSelected cmd) fun _ => True := by
  refine Library.Ensures.bind (issuePicked_survives h hpicked) fun s₁ h₁ => ?_
  split
  · refine Library.Ensures.bind h₁.getCommandToIssue ?_
    rintro ⟨second, s₂⟩ hsecond
    cases second with
    | none => trivial
    | some second =>
        dsimp only
        split
        · exact Library.Ensures.bind (issuePicked_survives h₁ hsecond) fun _ _ => trivial
        · trivial
  · trivial

/-- The first refresh request is for a rank that is awake. -/
def HeadAwake (s : Controller config) : Prop :=
  ∀ ref ∈ s.channelState.refreshQ.head?, s.channelState.rankIsSref ref.addr.rank = false

theorem selectCommand_survives_sleep (h : s.Tended) (hhead : s.HeadAwake) :
    Survives s.selectCommand fun r => ∃ s₀, Still s s₀ ∧ s₀.Picked r.1 r.2 := by
  refine .of_cases (fun r hr => (selectCommand_ensures (o := s) h.sound.requests).of_ok hr)
    (fun e he => ?_)
  unfold selectCommand at he
  split at he
  · have hfirst : ∀ ref ∈ s.channelState.refreshQ.head?,
        ∃ ready, s.channelState.getReadyCommand config ref s.cmdQueue.clk = .ok ready := by
      intro ref href
      have hreq := h.sound.requests ref (List.mem_of_head? href)
      refine ChannelState.exists_getReadyCommand_of_awake hreq.isRequest (fun ix hix => ?_) _
      refine h.awake (Config.Request.hasBank hreq.1 hix) ?_
      rw [hix.rank]
      exact hhead ref href
    obtain ⟨⟨cmd, q⟩, hr⟩ := exists_finishRefresh hfirst
    have hq := (s.cmdQueue.finishRefresh_ensures s.channelState).of_ok hr
    rw [hr] at he
    cases cmd with
    | none =>
        have h₁ := h.step (Step.quiet (o := s) (.of_queue hq.1))
        exact h₁.getCommandToIssue.of_error he
    | some cmd => cases he
  · exact h.getCommandToIssue.of_error he

/-- Where nothing is selected, the queues have been looked at, and the queues that were
skipped are those of the first request. -/
theorem selectCommand_none (hs : s.Sound) (hm : s.Marked)
    (h : s.selectCommand = .ok (none, s')) :
    ∃ q q' : CommandQueue config, s.cmdQueue.SameQueues q ∧ Marked { s with cmdQueue := q } ∧
      q.getCommandToIssue s.channelState = .ok (none, q') := by
  have hqueue (q : CommandQueue config)
      (h : getCommandToIssue { s with cmdQueue := q } = .ok (none, s')) :
      ∃ q', q.getCommandToIssue s.channelState = .ok (none, q') := by
    obtain ⟨⟨cmd, q'⟩, hq, h⟩ := Library.bind_eq_ok.mp h
    cases cmd with
    | none => exact ⟨q', hq⟩
    | some cmd =>
        dsimp only at h
        split at h <;> cases h
  unfold selectCommand at h
  split at h
  · obtain ⟨⟨cmd, q⟩, hfinish, h⟩ := Library.bind_eq_ok.mp h
    have hsame := ((s.cmdQueue.finishRefresh_ensures s.channelState).of_ok hfinish).1
    cases cmd with
    | some cmd => cases h
    | none =>
        rcases finishRefresh_cases hs hm hfinish with ⟨_, _, hcmd, _⟩ | ⟨_, hm₁⟩
        · cases hcmd
        · obtain ⟨q', hq'⟩ := hqueue q h
          exact ⟨q, q', hsame, hm₁, hq'⟩
  · obtain ⟨q', hq'⟩ := hqueue s.cmdQueue h
    exact ⟨s.cmdQueue, q', .refl _, hm, hq'⟩

/-- The rank may leave self refresh. -/
def ExitDue (s : Controller config) (i : Int) : Prop :=
  ∀ ix ∈ config.rankBanks i, (s.channelState.bankStates ix).cmdTiming .srefExit ≤ s.clk

instance (s : Controller config) (i : Int) : Decidable (s.ExitDue i) :=
  inferInstanceAs (Decidable (∀ ix ∈ config.rankBanks i, _))

/-- Where nothing is selected, no rank has been asked for that may leave self refresh. -/
theorem notAsked_of_none (h : s.Tended) (hm : s.Marked) (hw : s.Waiting) (hhead : s.HeadAwake)
    (hnone : s.selectCommand = .ok (none, s')) {i : Int}
    (hsleep : s.channelState.rankIsSref i = true) (hdue : s.ExitDue i) :
    s.cmdQueue.rankQEmpty i = true := by
  rw [← Bool.not_eq_false]
  intro hasked
  obtain ⟨j, cmd, hcmd, hrank⟩ := hw i hsleep hasked
  have hentry (c : Command) (hc : c ∈ s.cmdQueue.queues j) :
      config.HasBank c.bankIndex ∧ config.queueOf c.addr = j ∧
        (config.rankOfQueue j : Int) = c.addr.rank ∧ c.isReadWrite = true := by
    obtain ⟨hq, it, rfl⟩ := h.sound.entries j c hc
    have hbank : config.HasBank (transToCommand config it).bankIndex := hasBank_transToCommand it
    exact ⟨hbank, hq, hq ▸ Config.rankOfQueue_queueOf hbank,
      columnType_isReadWrite config it.isWrite⟩
  obtain ⟨hbank, hqueue, hj, _⟩ := hentry cmd hcmd
  have hlt : j < config.numQueues := hqueue ▸ Config.queueOf_lt hbank
  obtain ⟨q, q', hsame, hmarked, hsel⟩ := selectCommand_none h.sound hm hnone
  -- the queue of the rank is looked at
  have hskip : ¬ q.Skips j := by
    rintro ⟨hin, hmem⟩
    obtain ⟨ref, rest, hq, hindices⟩ := hmarked.busy hin
    rw [hindices, CommandQueue.mem_getRefQIndices
      (h.sound.requests ref (by rw [hq]; exact List.mem_cons_self ..))] at hmem
    have hawake := hhead ref (by rw [hq]; rfl)
    rw [← hmem.rank, hj, hrank, hsleep] at hawake
    cases hawake
  have hvain := CommandQueue.getCommandToIssue_none hsel hlt hskip
  rw [hsame.queues, hsame.clk, h.sound.clock] at hvain
  -- and its first command would have been answered
  cases hfirst : s.cmdQueue.queues j with
  | nil =>
      rw [hfirst] at hcmd
      cases hcmd
  | cons first rest =>
      obtain ⟨hbank₁, _, hj₁, hcol⟩ := hentry first (by rw [hfirst]; exact List.mem_cons_self ..)
      have hi : first.bankIndex.rank = i := hj₁.symm.trans (hj.trans hrank)
      have hsref : (s.channelState.bankStates first.bankIndex).state = .sref := by
        refine (h.sref hbank₁).mpr ?_
        rw [hi]
        exact hsleep
      rw [hfirst, CommandQueue.getFirstReadyInQueue_of_sref hcol hsref
        (hdue _ (Config.mem_rankBanks.mpr ⟨hi, hbank₁.2⟩))] at hvain
      cases hvain

theorem updateSelfRefresh_survives (h : s.Tended) :
    ∀ l : List Nat, (∀ i ∈ l, i < config.ranks) →
      (∀ i ∈ l, s.channelState.rankIsSref i = true → s.cmdQueue.rankQEmpty i = true) →
      Survives (s.updateSelfRefresh l) fun _ => True
  | [], _, _ => trivial
  | i :: rest, hl, hasked => by
      obtain ⟨hi, hrest⟩ := List.forall_mem_cons.mp hl
      obtain ⟨hidle, hasked⟩ := List.forall_mem_cons.mp hasked
      have hnext := updateSelfRefresh_survives h rest hrest hasked
      rw [updateSelfRefresh]
      dsimp only
      split
      · rename_i hsleep
        rw [hidle hsleep]
        exact hnext
      · rename_i hawake
        split
        · have hreq : config.Request ⟨.srefEnter, { rank := i }, toU64 (-1)⟩ :=
            ⟨rfl, Int.natCast_nonneg i, Int.ofNat_lt.mpr hi⟩
          obtain ⟨ready, hready⟩ := ChannelState.exists_getReadyCommand_of_awake hreq.1
            (fun ix hix => h.awake (Config.Request.hasBank hreq hix)
              (by rw [hix.rank]; simpa using hawake)) s.clk
          rw [hready]
          cases ready with
          | none => exact hnext
          | some cmd =>
              refine (issueAnswer_survives h ⟨?_, _, s.clk, .selfRefresh hi, .inl rfl, hready⟩).mono
                (fun _ _ => trivial) (fun _ he => he)
              by_contra hrw
              rw [Bool.not_eq_false] at hrw
              obtain rfl := ChannelState.eq_of_isReadWrite hready hrw
              cases hrw
        · exact hnext

/-- Every rank in self refresh is left alone: the first refresh request is for another one,
and the rank has not been asked for or may leave self refresh. -/
def WakesSafely (s : Controller config) : Prop :=
  ∀ i < config.ranks, s.channelState.rankIsSref i = true →
    (∀ ref ∈ s.channelState.refreshQ.head?, ref.addr.rank ≠ i) ∧
      (s.cmdQueue.rankQEmpty i = true ∨ s.ExitDue i)

instance (s : Controller config) : Decidable s.WakesSafely :=
  inferInstanceAs (Decidable (∀ i < config.ranks, _ → (∀ ref ∈ _, _) ∧ _))

theorem WakesSafely.headAwake (hs : s.Sound) (h : s.WakesSafely) (htick : s.tickRefresh = .ok s') :
    s'.HeadAwake := by
  obtain ⟨⟨refresh, channel⟩, hrefresh, hok⟩ := Library.bind_eq_ok.mp htick
  have hflags := (s.tickRefresh_ensures.of_ok htick).banks.rankIsSref
  have hq := (tickRefresh_inserts htick).1
  intro ref href
  rw [hflags]
  cases hold : s.channelState.refreshQ with
  | nil =>
      cases hok
      rcases Refresh.awake_of_clockTick hrefresh (List.mem_of_head? href) with hmem | hawake
      · rw [hold] at hmem
        cases hmem
      · exact hawake
  | cons first rest =>
      rw [hq, hold, List.cons_append, List.head?_cons] at href
      obtain rfl : first = ref := Option.some.inj href
      obtain ⟨hnonneg, hlt⟩ := Config.Request.rank
        (hs.requests first (by rw [hold]; exact List.mem_cons_self ..)).1
      obtain ⟨i, hi⟩ := Int.eq_ofNat_of_zero_le hnonneg
      rw [hi] at hlt ⊢
      rw [Bool.eq_false_iff]
      intro hsleep
      exact (h i (Int.ofNat_lt.mp hlt) hsleep).1 first (by rw [hold]; rfl) hi

/-- Issuing survives, and a cycle that issues nothing leaves no sleeping rank that has been
asked for. -/
theorem issueCommands_survives_sleep {s₀ : Controller config} (h : s.Tended) (hm : s.Marked)
    (hw : s.Waiting) (hsafe : s.WakesSafely) (htick : s.tickRefresh = .ok s₀) :
    Survives s₀.issueCommands fun r => r.1 = false → r.2.Tended ∧
      ∀ i ∈ List.range config.ranks, r.2.channelState.rankIsSref i = true →
        r.2.cmdQueue.rankQEmpty i = true := by
  have hquiet := s.tickRefresh_ensures.of_ok htick
  have h₀ := h.step (Step.quiet (o := s) hquiet)
  have hhead := hsafe.headAwake h.sound htick
  have hw₀ : s₀.Waiting := hw.congr hquiet.banks.rankIsSref hquiet.queues.queues
    hquiet.queues.rankQEmpty
  have hsel := selectCommand_survives_sleep h₀ hhead
  refine Library.Ensures.bind (P := fun r => s₀.selectCommand = .ok r ∧
    ∃ s₁, Still s₀ s₁ ∧ s₁.Picked r.1 r.2) ?_ ?_
  · exact .of_cases (fun r hr => ⟨hr, hsel.of_ok hr⟩) (fun _ he => hsel.of_error he)
  rintro ⟨selected, s₂⟩ ⟨hok, s₁, hstill, hpicked⟩
  have h₁ := h₀.step (Step.quiet (o := s) hstill.toQuiet)
  have hidle : s₂.pimIdle = true :=
    pimIdle_of_pimCmds ((selectCommand_same hok).pimCmds.trans h₀.pim)
  dsimp only
  rw [hidle, Bool.or_true, if_pos rfl]
  cases selected with
  | some cmd =>
      refine Library.Ensures.bind (issueSelected_survives_sleep h₁ hpicked) fun _ _ => ?_
      intro hfalse
      cases hfalse
  | none =>
      have hsame := hstill.toQuiet.trans (Still.toQuiet hpicked)
      refine fun _ => ⟨h₀.step (Step.quiet (o := s) hsame), fun i hi hsleep => ?_⟩
      rw [hsame.banks.rankIsSref] at hsleep
      rw [hsame.queues.rankQEmpty]
      have hold := hsleep
      rw [hquiet.banks.rankIsSref] at hold
      rcases (hsafe i (List.mem_range.mp hi) hold).2 with hasked | hdue
      · rw [hquiet.queues.rankQEmpty]
        exact hasked
      · refine notAsked_of_none h₀ (hm.tickRefresh htick) hw₀ hhead hok hsleep fun ix hix => ?_
        rw [hquiet.banks.bankStates, hquiet.clk]
        exact hdue ix hix

theorem tick_survives_sleep (h : s.Tended) (hm : s.Marked) (hw : s.Waiting)
    (hsafe : s.WakesSafely) : Survives s.clockTick fun _ => True := by
  refine Library.Ensures.bind (P := fun _ => True) ?_ fun _ _ => trivial
  refine Library.Ensures.bind (P := fun s₀ => s.tickRefresh = .ok s₀) ?_ fun s₀ htick => ?_
  · refine .of_cases (fun _ h => h) (fun e he => ?_)
    rcases Library.bind_eq_error.mp he with he | ⟨_, _, he⟩
    · rw [(s.refresh.clockTick_ensures s.channelState).of_error he]
      decide
    · cases he
  refine Library.Ensures.bind (issueCommands_survives_sleep h hm hw hsafe htick) ?_
  rintro ⟨issued, s₁⟩ hissued
  dsimp only at hissued ⊢
  split
  · rename_i hsleep
    rw [Bool.and_eq_true, Bool.not_eq_true'] at hsleep
    obtain ⟨h₁, hasked⟩ := hissued hsleep.2
    exact updateSelfRefresh_survives (h₁.step (Step.quiet (o := s) (.updateIdleCycles s₁))) _
      (fun i hi => List.mem_range.mp hi) hasked
  · trivial

/-! ## Runs -/

theorem alive_of_run {cond : Controller config → Op → Prop}
    (hrun : ((controllerSystem config).restrict cond).Run ops s) : s.channelState.Alive := by
  refine issue_invariant hrun (fun s => s.channelState.Alive) (fun _ h => nomatch h) ⟨?_, ?_⟩
  · exact fun _ _ halive hsame => hsame.alive halive
  · exact fun _ _ _ _ _ _ _ _ _ halive _ hissue => halive.update hissue.channel

theorem tended_of_run (hrun : (ordinarySystem config).Run ops s) : s.Tended := by
  obtain ⟨hs, hpim⟩ := sound_of_ordinary hrun
  exact ⟨hs, hpim, refines_of_run hrun, alive_of_run hrun⟩

theorem waiting_of_run (hrun : (ordinarySystem config).Run ops s) : s.Waiting := by
  induction hrun with
  | start => exact fun _ hi _ => Bool.noConfusion hi
  | @step ops s s' op hrun hstep ih =>
      obtain ⟨hop, hord⟩ := hstep
      have hdevice (hsame : SameDevice s s') : s'.Waiting :=
        ih.congr (by rw [hsame.channelState]) (by rw [hsame.cmdQueue]) (by rw [hsame.cmdQueue])
      cases op with
      | add it =>
          obtain ⟨_, rfl⟩ := hop
          exact hdevice (s.addTransaction_sameDevice it)
      | done clk =>
          cases hop
          exact hdevice (s.returnDoneTrans_sameDevice clk)
      | tick => exact ih.tick (tended_of_run hrun) hop
      | pushRdW _ | pushRdIn _ _ | pushWr _ | setInPim _ | setWrMultitenant _ => cases hord

theorem marked_of_run (hrun : (ordinarySystem config).Run ops s) : s.Marked := by
  obtain ⟨history, hhistory⟩ := hrun.of_restrict.observe insertedBy
  exact (hhistory.invariant (fun p => InOrder p.1 p.2) InOrder.init fun _ _ _ hp hs =>
    hp.step hs).marked

/-- In every run without PIM commands, a tick ends in no exit of a bank if every rank in self
refresh is left alone. -/
theorem self_refresh_survives {ops : List Op} (hrun : (ordinarySystem config).Run ops s)
    (hsafe : s.WakesSafely) {e : Exit} (he : s.clockTick = .error e) : ¬ e.OfBank :=
  (tick_survives_sleep (tended_of_run hrun) (marked_of_run hrun) (waiting_of_run hrun)
    hsafe).of_error he

/-- A rank sleeps two cycles after the start. -/
def dozing : Config := { Config.defaults with enableSelfRefresh := true, srefThreshold := 2 }

/-- A read for a rank that has slept for `tCKESR` wakes it. -/
theorem self_refresh_survives_late :
    ∃ s : Controller dozing,
      (s.channelState.rankIsSref 0 = true ∧ s.cmdQueue.rankQEmpty 0 = false ∧ s.WakesSafely) ∧
      ∀ e, s.clockTick = .error e → ¬ e.OfBank := by
  have hsome : ((replay dozing (List.replicate 13 .tick ++ [.add ⟨0, false, 0, 0⟩, .tick])).any
      fun s => decide (s.channelState.rankIsSref 0 = true ∧ s.cmdQueue.rankQEmpty 0 = false ∧
        s.WakesSafely)) = true := by
    decide +kernel
  obtain ⟨s, hs, h⟩ := (Option.any_eq_true _ _).mp hsome
  have h := of_decide_eq_true h
  have hrun : (ordinarySystem dozing).Run _ s := run_of_replay Op.IsOrdinary hs (by decide)
  exact ⟨s, h, fun _ he => self_refresh_survives hrun h.2.2 he⟩

/-- A read arrives right after the rank has gone to sleep.  It is queued in the next cycle,
and in the one after that `SREF_EXIT` is not due and is asked for. -/
theorem self_refresh_crash :
    ∃ s : Controller dozing, ∃ ops, (ordinarySystem dozing).Run ops s ∧
      ∃ e, s.clockTick = .error e ∧ e.OfBank := by
  have hsome : ((replay dozing (List.replicate 2 .tick ++ [.add ⟨0, false, 0, 0⟩, .tick])).any
      fun s => match s.clockTick with
        | .ok _ => false
        | .error e => decide (e = .unknownType)) = true := by
    decide +kernel
  obtain ⟨s, hs, h⟩ := (Option.any_eq_true _ _).mp hsome
  refine ⟨s, _, run_of_replay Op.IsOrdinary hs (by decide), .unknownType, ?_, by decide⟩
  split at h
  · cases h
  · rename_i e he
    rw [he, of_decide_eq_true h]

end Controller

end Dramsim
