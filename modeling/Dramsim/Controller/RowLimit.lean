import Dramsim.Controller.RowHits
import Dramsim.Controller.SelectionOrder

/-!
# The limit on row hits

`ArbitratePrecharge` lets a row be closed for the oldest command of a bank once the row has been
hit four times, also if other commands still want it.  It is only consulted when `PRECHARGE` is
due.  Until then the oldest command yields nothing, the search goes on behind it, and a younger
command for the open row is served, which puts `PRECHARGE` off again.

So the limit keeps younger commands back as long as `PRECHARGE` is due whenever one of them is
(`ClosesPromptly`).  `Held` is what that gives within a tick: nothing is served at an overdue
bank, by the first command of a cycle and, for HBM, by the second.
-/

namespace Dramsim

open Library (System)

namespace CommandType

theorem isReadWrite_of_keepsRow {ty : CommandType} (h : ty.keepsRow = true)
    (hpim : ty.isPimColumn = false) : ty.isReadWrite = true := by
  cases ty <;> first | rfl | exact absurd h (by decide) | exact absurd hpim (by decide)

theorem eq_precharge_of_closesRow {ty : CommandType} (h : ty.closesRow = true)
    (hpim : ty.isPimColumn = false) (hrw : ty.isReadWrite = false) : ty = .precharge := by
  cases ty <;> first | rfl | exact absurd h (by decide) | exact absurd hpim (by decide) |
    exact absurd hrw (by decide)

end CommandType

/-! ## `PRECHARGE` and the other banks -/

/-- With HBM no command delays the `PRECHARGE` of a bank unless it works on the row. -/
theorem Timing.not_mem_precharge {config : Config} (hhbm : config.isHBM = true) {cmd : Command}
    {ix : BankIndex} (hix : cmd.bankIndex = ix → cmd.cmdType.leavesRows = true) (d : Int) :
    (CommandType.precharge, d) ∉ (Timing.ofConfig config).governing cmd ix := by
  have hprotocol : config.isGDDR = false ∧ config.protocol ≠ .lpddr4 := by
    unfold Config.isHBM at hhbm
    unfold Config.isGDDR
    cases hp : config.protocol <;> rw [hp] at hhbm <;>
      first | exact ⟨by decide, by decide⟩ | cases hhbm
  have hother : (CommandType.precharge, d) ∉ otherBanksSameBankgroupOf config cmd.cmdType ∧
      (CommandType.precharge, d) ∉ otherBankgroupsSameRankOf config cmd.cmdType ∧
      (CommandType.precharge, d) ∉ otherRanksOf config cmd.cmdType ∧
      (CommandType.precharge, d) ∉ sameRankOf config cmd.cmdType := by
    cases cmd.cmdType <;>
      simp [otherBanksSameBankgroupOf, otherBankgroupsSameRankOf, otherRanksOf, sameRankOf,
        columnRow, prechargedRow, refreshBankRow, hprotocol.1, hprotocol.2]
  have hself (he : ix = cmd.bankIndex) :
      (CommandType.precharge, d) ∉ sameBankOf config cmd.cmdType := by
    have hleaves := hix he.symm
    cases hty : cmd.cmdType <;> rw [hty] at hleaves <;>
      first | exact List.not_mem_nil | cases hleaves
  unfold governing
  split
  · split
    · exact hother.2.2.2
    · exact List.not_mem_nil
  · split
    · split
      · rename_i he
        exact hself he
      · exact List.not_mem_nil
    · cases hpos : cmd.addr.position ix with
      | sameBank => exact hself (Address.position_eq_sameBank.mp hpos)
      | otherBankSameBankgroup => exact hother.1
      | otherBankgroupSameRank => exact hother.2.1
      | otherRank => exact hother.2.2.1

namespace ChannelState

/-- An open bank answers a column command of another row with `PRECHARGE`. -/
theorem getReadyCommand_of_miss {config : Config} {s : ChannelState} {req : Command} {clk : Nat}
    (hcol : req.isReadWrite = true) (hopen : (s.bankStates req.bankIndex).state = .opened)
    (hrow : req.addr.row ≠ (s.bankStates req.bankIndex).openRow)
    (hdue : (s.bankStates req.bankIndex).cmdTiming .precharge ≤ clk) :
    s.getReadyCommand config req clk = .ok (some ⟨.precharge, req.addr, req.hexAddr⟩) := by
  have hrequired : (s.bankStates req.bankIndex).requiredType req = .ok .precharge := by
    unfold BankState.requiredType
    rw [hopen]
    unfold Command.isReadWrite at hcol
    cases hty : req.cmdType <;> rw [hty] at hcol <;> first | exact if_neg hrow | cases hcol
  have hbank : (s.bankStates req.bankIndex).getReadyCommand req clk =
      .ok (some ⟨.precharge, req.addr, req.hexAddr⟩) :=
    BankState.getReadyCommand_eq_some.mpr ⟨hrequired, hdue, rfl, rfl⟩
  have hrank : req.isRankCMD = false := CommandType.isRankCMD_of_isReadWrite hcol
  rw [getReadyCommand, hrank, if_neg Bool.false_ne_true, hbank]
  rfl

end ChannelState

namespace Controller

variable {config : Config} {o s s' : Controller config} {ix : BankIndex} {cmd : Command}

/-! ## Overdue banks -/

/-- The queue that holds the commands of a bank. -/
def queueOfBank (s : Controller config) (ix : BankIndex) : List Command :=
  s.cmdQueue.queues (config.getQueueIndex ix.rank ix.bankgroup ix.bank).toNat

/-- The oldest queued command of a bank. -/
def oldest (s : Controller config) (ix : BankIndex) : Option Command :=
  (s.queueOfBank ix).find? fun cmd => cmd.bankIndex = ix

/-- The open row of the bank has reached the limit, and the oldest command of the bank wants
another row. -/
structure Overdue (s : Controller config) (ix : BankIndex) : Prop where
  opened : (s.channelState.bankStates ix).state = .opened
  limit : 4 ≤ (s.channelState.bankStates ix).rowHitCount
  wants : ∃ cmd, s.oldest ix = some cmd ∧
    cmd.addr.row ≠ (s.channelState.bankStates ix).openRow

/-- If a queued command for the open row of the bank is due, then so is `PRECHARGE`. -/
def PrechargeFirst (s : Controller config) (ix : BankIndex) : Prop :=
  ∀ cmd ∈ s.queueOfBank ix, cmd.bankIndex = ix →
    cmd.addr.row = (s.channelState.bankStates ix).openRow →
    (s.channelState.bankStates ix).cmdTiming cmd.cmdType ≤ s.clk →
    (s.channelState.bankStates ix).cmdTiming .precharge ≤ s.clk

/-- No overdue bank has a row hit that is due before its `PRECHARGE`. -/
def ClosesPromptly (s : Controller config) : Prop :=
  ∀ ix, config.HasBank ix → s.Overdue ix → s.PrechargeFirst ix

/-- What keeps the younger commands of a bank back. -/
structure Held (s : Controller config) (ix : BankIndex) : Prop extends Overdue s ix where
  first : s.PrechargeFirst ix

theorem Overdue.of_any (hopen : (s.channelState.bankStates ix).state = .opened)
    (hlimit : 4 ≤ (s.channelState.bankStates ix).rowHitCount)
    (hold : (s.oldest ix).any (fun cmd =>
      cmd.addr.row ≠ (s.channelState.bankStates ix).openRow) = true) : s.Overdue ix := by
  obtain ⟨cmd, hcmd, hrow⟩ := (Option.any_eq_true _ _).mp hold
  exact ⟨hopen, hlimit, cmd, hcmd, of_decide_eq_true hrow⟩

theorem Overdue.congr (h : s.Overdue ix)
    (hbanks : s'.channelState.bankStates ix = s.channelState.bankStates ix)
    (holdest : s'.oldest ix = s.oldest ix) : s'.Overdue ix := by
  obtain ⟨hopen, hlimit, hold⟩ := h
  exact ⟨hbanks ▸ hopen, hbanks ▸ hlimit, hbanks ▸ holdest ▸ hold⟩

theorem Held.quiet (h : s.Held ix) (hquiet : Quiet s s') : s'.Held ix := by
  have hbanks : s'.channelState.bankStates = s.channelState.bankStates := hquiet.banks.bankStates
  have hqueue : s'.queueOfBank ix = s.queueOfBank ix := by
    rw [queueOfBank, hquiet.queues.queues, queueOfBank]
  refine ⟨h.toOverdue.congr (by rw [hbanks]) (by rw [oldest, hqueue, oldest]), ?_⟩
  unfold PrechargeFirst
  rw [hbanks, hqueue, hquiet.clk]
  exact h.first

/-- A held bank offers no column command: the oldest command stands before every command for
the open row, and `PRECHARGE` is not denied to it. -/
theorem Held.not_offered (hs : s.Sound) (h : s.Held ix) (hcol : cmd.isReadWrite = true)
    (hoffers : s.cmdQueue.Offers s.channelState cmd) : cmd.bankIndex ≠ ix := by
  rintro rfl
  obtain ⟨i, hi, hfirst⟩ := hoffers
  obtain ⟨before, entry, after, hfirst⟩ := CommandQueue.getFirstReadyInQueue_first hfirst
  obtain rfl := ChannelState.eq_of_isReadWrite hfirst.answer hcol
  have hqueue : s.queueOfBank entry.bankIndex = before ++ entry :: after := by
    rw [← hfirst.split, ← hs.queueOf_eq hfirst.split]
    rfl
  obtain ⟨_, _, hopen, hrow, hdue⟩ :=
    hit_of_ready hfirst.answer (CommandType.isColumn_of_isReadWrite hcol)
  rw [hs.clock] at hdue
  have hprecharge := h.first entry (by rw [hqueue]; simp) rfl hrow hdue
  -- the oldest command of the bank is another one, so it stands before
  obtain ⟨old, hold, hother⟩ := h.wants
  have hbefore : before.find? (fun cmd => cmd.bankIndex = entry.bankIndex) = some old := by
    rw [oldest, hqueue, List.find?_append] at hold
    cases hfind : before.find? (fun cmd => cmd.bankIndex = entry.bankIndex) with
    | some found =>
        rw [hfind] at hold
        exact hold
    | none =>
        rw [hfind, List.find?_cons_of_pos (by simp)] at hold
        cases hold
        exact absurd hrow hother
  obtain ⟨hbank, pre, mid, hsplit, hpre⟩ := List.find?_eq_some_iff_append.mp hbefore
  rw [decide_eq_true_eq] at hbank
  have holdmem : old ∈ s.cmdQueue.queues i := by
    rw [hfirst.split, hsplit]
    simp
  have hmiss : s.channelState.getReadyCommand config old s.cmdQueue.clk =
      .ok (some ⟨.precharge, old.addr, old.hexAddr⟩) := by
    rw [hs.clock]
    exact ChannelState.getReadyCommand_of_miss (hs.holdsColumns i old holdmem) (hbank ▸ hopen)
      (hbank ▸ hother) (hbank ▸ hprecharge)
  -- the oldest command has been passed over although it yields `PRECHARGE`
  refine hfirst.first pre old mid hsplit ⟨.precharge, old.addr, old.hexAddr⟩ ⟨?_, hmiss, ?_, ?_⟩
  · rw [hsplit, List.append_assoc, List.cons_append]
  · intro _
    have hnone : (pre.any fun prev => prev.addr.rank = old.addr.rank &&
        prev.addr.bankgroup = old.addr.bankgroup && prev.addr.bank = old.addr.bank) = false := by
      rw [List.any_eq_false]
      intro prev hprev hsame
      have hne := hpre prev hprev
      rw [← hbank, Bool.not_eq_true', decide_eq_false_iff_not] at hne
      simp only [Bool.and_eq_true, decide_eq_true_eq] at hsame
      exact hne (by simp [Command.bankIndex, Address.bankIndex, hsame])
    unfold CommandQueue.arbitratePrecharge
    rw [hnone, if_neg Bool.false_ne_true, hbank]
    simp [h.limit]
  · intro hwrite
    cases hwrite

theorem oldest_removed (hs : s.Sound) (hrem : Removed s cmd s') (hne : cmd.bankIndex ≠ ix) :
    s'.oldest ix = s.oldest ix ∧ ∀ c ∈ s'.queueOfBank ix, c ∈ s.queueOfBank ix := by
  obtain ⟨⟨before, after, hsplit, hqueues⟩, _, _⟩ := hrem.spec hs
  unfold oldest queueOfBank
  rw [hqueues]
  by_cases hi : (config.getQueueIndex ix.rank ix.bankgroup ix.bank).toNat = config.queueOf cmd.addr
  · rw [hi, Function.update_self, hsplit, List.find?_append, List.find?_append,
      List.find?_cons_of_neg (by simpa using hne)]
    refine ⟨rfl, fun c hc => ?_⟩
    simp only [List.mem_append, List.mem_cons] at hc ⊢
    tauto
  · rw [Function.update_of_ne hi]
    exact ⟨rfl, fun _ hc => hc⟩

theorem Held.removed (hs : s.Sound) (h : s.Held ix) (hrem : Removed s cmd s') : s'.Held ix := by
  have hne := h.not_offered hs hrem.column hrem.offered
  obtain ⟨holdest, hsub⟩ := oldest_removed hs hrem hne
  obtain ⟨_, _, hframe⟩ := hrem.spec hs
  have hchannel : s'.channelState = s.channelState := by rw [hframe]
  have hclk : s'.clk = s.clk := by rw [hframe]
  refine ⟨h.toOverdue.congr (by rw [hchannel]) holdest, fun c hc => ?_⟩
  rw [hchannel, hclk]
  exact h.first c (hsub c hc)

/-- The oldest command stays the oldest when others are queued behind it. -/
theorem oldest_scheduled (h : Scheduled s s') {c : Command} (hold : s.oldest ix = some c) :
    s'.oldest ix = some c := by
  have hadd {it : Transaction} (hacc : s.Accepts it) :
      ((s.cmdQueue.addCommand (transToCommand config it)).queues
        (config.getQueueIndex ix.rank ix.bankgroup ix.bank).toNat).find?
          (fun cmd => cmd.bankIndex = ix) = some c := by
    rw [CommandQueue.addCommand_queues hacc]
    by_cases hi : (config.getQueueIndex ix.rank ix.bankgroup ix.bank).toNat =
        config.queueOf (transToCommand config it).addr
    · rw [hi, Function.update_self, List.find?_append, ← hi]
      rw [oldest, queueOfBank] at hold
      rw [hold]
      rfl
    · rw [Function.update_of_ne hi]
      exact hold
  cases h with
  | held => exact hold
  | unified _ _ hacc _ | write _ _ _ hacc | read _ _ _ hacc => exact hadd hacc

/-! ## Commands at an overdue bank -/

/-- A column command to the bank. -/
def HitsBank (ix : BankIndex) (cmd : Command) : Prop :=
  cmd.isReadWrite = true ∧ cmd.bankIndex = ix

/-- A `PRECHARGE` of the bank. -/
def ClosesBank (ix : BankIndex) (cmd : Command) : Prop :=
  cmd.cmdType = .precharge ∧ cmd.bankIndex = ix

/-- Any other ordinary command than a hit leaves the bank overdue, unless it closes the row. -/
theorem Overdue.issued (h : s.Overdue ix) (hix : config.HasBank ix) (hissue : Issued s cmd s')
    (hhit : ¬ HitsBank ix cmd) (hpim : cmd.cmdType.isPimColumn = false) :
    ClosesBank ix cmd ∨ (s'.Overdue ix ∧ (cmd.bankIndex = ix → cmd.cmdType.leavesRows = true) ∧
      (s'.channelState.bankStates ix).openRow = (s.channelState.bankStates ix).openRow) := by
  have holdest : s'.oldest ix = s.oldest ix := by
    rw [oldest, queueOfBank, hissue.cmdQueue, oldest, queueOfBank]
  cases ChannelState.rowStep hissue.channel ix with
  | opens _ _ hclosed _ _ =>
      rw [h.opened] at hclosed
      cases hclosed
  | serves hty hbank _ _ _ =>
      exact absurd ⟨CommandType.isReadWrite_of_keepsRow hty hpim, hbank⟩ hhit
  | closes hty hbank _ _ _ =>
      refine .inl ⟨CommandType.eq_precharge_of_closesRow hty hpim ?_, hbank⟩
      rw [Bool.eq_false_iff]
      exact fun hrw => hhit ⟨hrw, hbank⟩
  | other hleaves hiff hcount =>
      have hrow : (s'.channelState.bankStates ix).openRow =
          (s.channelState.bankStates ix).openRow := by
        rcases ChannelState.row_cases hissue.channel hix with ⟨hact, _⟩ | ⟨hclose, _⟩ |
          ⟨_, _, _, hrow⟩
        · have := (CommandType.of_leavesRows (hleaves hact.2)).2.2
          rw [hact.1] at this
          cases this
        · have := (CommandType.of_leavesRows (hleaves hclose.2)).2.1
          rw [hclose.1] at this
          cases this
        · exact hrow
      refine .inr ⟨⟨hiff.mpr h.opened, hcount ▸ h.limit, ?_⟩, hleaves, hrow⟩
      rw [holdest, hrow]
      exact h.wants

/-- With HBM the bank is also held against the second command of a cycle. -/
theorem Held.issued (h : s.Held ix) (hix : config.HasBank ix) (hhbm : config.isHBM = true)
    (hissue : Issued s cmd s') (hhit : ¬ HitsBank ix cmd)
    (hpim : cmd.cmdType.isPimColumn = false) : ClosesBank ix cmd ∨ s'.Held ix := by
  rcases h.toOverdue.issued hix hissue hhit hpim with hclose | ⟨hover, hleaves, hopenRow⟩
  · exact .inl hclose
  · refine .inr ⟨hover, fun c hc hbank hrow hdue => ?_⟩
    rw [queueOfBank, hissue.cmdQueue] at hc
    rw [hopenRow] at hrow
    rw [hissue.clk, ChannelState.cmdTiming_le_iff hissue.channel hix] at hdue ⊢
    refine ⟨h.first c hc hbank hrow hdue.1, fun d hd => ?_⟩
    exact absurd hd (Timing.not_mem_precharge hhbm hleaves d)

/-! ## A tick -/

/-- The commands issued since `o` do not hit the bank, and `P` holds, or its row has been closed
before they do. -/
def Guarded (o : Controller config) (ix : BankIndex) (P : Controller config → Prop)
    (s : Controller config) : Prop :=
  (∃ events, s.issuedCommands = o.issuedCommands ++ events ∧
    (∀ e ∈ events, ¬ HitsBank ix e.2) ∧ P s) ∨
  ∃ before g after, s.issuedCommands = o.issuedCommands ++ (before ++ g :: after) ∧
    (∀ e ∈ before, ¬ HitsBank ix e.2) ∧ ClosesBank ix g.2

namespace Guarded

variable {P Q : Controller config → Prop}

theorem refl (h : P o) : Guarded o ix P o :=
  .inl ⟨[], (List.append_nil _).symm, fun _ he => absurd he List.not_mem_nil, h⟩

theorem same (hissued : s'.issuedCommands = s.issuedCommands) (h : P s') : Guarded s ix P s' :=
  .inl ⟨[], by rw [hissued, List.append_nil], fun _ he => absurd he List.not_mem_nil, h⟩

theorem of_issued (h : Guarded s ix P s') (ho : s.issuedCommands = o.issuedCommands) :
    Guarded o ix P s' := by
  unfold Guarded at h ⊢
  rwa [ho] at h

/-- What comes later does not matter once the row has been closed. -/
theorem trans (h : Guarded o ix P s) {more : List (Nat × Command)}
    (hmore : s'.issuedCommands = s.issuedCommands ++ more) (hP : P s → Guarded s ix Q s') :
    Guarded o ix Q s' := by
  rcases h with ⟨events, hissued, hevents, hp⟩ | ⟨before, g, after, hissued, hbefore, hg⟩
  · rcases hP hp with ⟨events', hissued', hevents', hq⟩ | ⟨before, g, after, hissued', hbefore, hg⟩
    · refine .inl ⟨events ++ events', ?_, List.forall_mem_append.mpr ⟨hevents, hevents'⟩, hq⟩
      rw [hissued', hissued, List.append_assoc]
    · refine .inr ⟨events ++ before, g, after, ?_, List.forall_mem_append.mpr ⟨hevents, hbefore⟩,
        hg⟩
      rw [hissued', hissued, List.append_assoc, List.append_assoc]
  · refine .inr ⟨before, g, after ++ more, ?_, hbefore, hg⟩
    rw [hmore, hissued]
    simp

theorem still (h : Guarded o ix P s) (hlog : s'.issuedCommands = s.issuedCommands)
    (hP : P s → Q s') : Guarded o ix Q s' :=
  h.trans (hlog.trans (List.append_nil _).symm) fun hp => .same hlog (hP hp)

/-- A command that does not hit the bank closes its row, or leaves what it can. -/
theorem issued (hissue : Issued s cmd s') (hhit : ¬ HitsBank ix cmd)
    (h : ClosesBank ix cmd ∨ P s') : Guarded s ix P s' := by
  have hlog : s'.issuedCommands = s.issuedCommands ++ [(s.clk, cmd)] := hissue.issuedCommands
  rcases h with hclose | hp
  · exact .inr ⟨[], (s.clk, cmd), [], hlog, fun _ he => absurd he List.not_mem_nil, hclose⟩
  · refine .inl ⟨_, hlog, fun e he => ?_, hp⟩
    rw [List.mem_singleton.mp he]
    exact hhit

end Guarded

/-- What is selected in a held bank's cycle does not hit it. -/
theorem Held.picked (hs : s.Sound) (h : s.Held ix) (hpicked : s.Picked (some cmd) s') :
    s'.Sound ∧ s'.Held ix ∧ s'.issuedCommands = s.issuedCommands ∧ ¬ HitsBank ix cmd ∧
      cmd.cmdType.isPimColumn = false := by
  rcases hpicked with ⟨hcol, hrem⟩ | ⟨hstill, hwanted⟩
  · refine ⟨hs.of_removed hrem, h.removed hs hrem, hrem.sameCommands.issued, fun hhit =>
      h.not_offered hs hcol hrem.offered hhit.2, ?_⟩
    rw [Command.isReadWrite] at hcol
    cases hty : cmd.cmdType <;> rw [hty] at hcol <;> first | rfl | cases hcol
  · have hs' := hs.of_quiet hstill.toQuiet
    have hcol := hwanted.isColumn hs'
    rw [CommandType.isColumn, Bool.or_eq_false_iff] at hcol
    refine ⟨hs', h.quiet hstill.toQuiet, hstill.toQuiet.sameCommands.issued, fun hhit => ?_, hcol.2⟩
    rw [HitsBank, hwanted.1] at hhit
    cases hhit.1

theorem Picked.issuedCommands {selected : Option Command} (h : s.Picked selected s') :
    s'.issuedCommands = s.issuedCommands := by
  cases selected with
  | none => exact (Quiet.sameCommands (Still.toQuiet h)).issued
  | some cmd =>
      rcases h with ⟨_, hrem⟩ | ⟨hstill, _⟩
      · exact hrem.sameCommands.issued
      · exact hstill.toQuiet.sameCommands.issued

theorem Held.issuePicked {s₁ : Controller config} (hs : s.Sound) (hix : config.HasBank ix)
    (h : s.Held ix) (hpicked : s.Picked (some cmd) s₁) (hissue : s₁.issueCommand cmd = .ok s') :
    Guarded s ix (fun s => s.Overdue ix) s' ∧
      (config.isHBM = true → Guarded s ix (fun s => s.Held ix) s') := by
  obtain ⟨_, hheld, hlog, hhit, hpim⟩ := h.picked hs hpicked
  have hissued := issueCommand_spec hissue
  constructor
  · refine (Guarded.issued hissued hhit ?_).of_issued hlog
    exact (hheld.toOverdue.issued hix hissued hhit hpim).imp_right And.left
  · intro hhbm
    exact (Guarded.issued hissued hhit (hheld.issued hix hhbm hissued hhit hpim)).of_issued hlog

/-- Nothing that a cycle issues hits a held bank. -/
theorem Held.issueSelected {s₁ : Controller config} (hs : s.Sound) (hix : config.HasBank ix)
    (h : s.Held ix) (hpicked : s.Picked (some cmd) s₁) (hok : s₁.issueSelected cmd = .ok s') :
    Guarded s ix (fun s => s.Overdue ix) s' := by
  obtain ⟨s₂, hissue, hok⟩ := Library.bind_eq_ok.mp hok
  have hfirst := h.issuePicked hs hix hpicked hissue
  split at hok
  · rename_i hdual
    rw [Config.enableHbmDualCmd, Bool.and_eq_true] at hdual
    have hs₂ := (h.picked hs hpicked).1.of_issued (issueCommand_spec hissue)
    obtain ⟨⟨second, s₃⟩, hsecond, hok⟩ := Library.bind_eq_ok.mp hok
    have hpicked₂ : s₂.Picked second s₃ := s₂.getCommandToIssue_ensures.of_ok hsecond
    have hlog : s₃.issuedCommands = s₂.issuedCommands := hpicked₂.issuedCommands
    cases second with
    | none =>
        cases hok
        exact (hfirst.2 hdual.2).still hlog fun hheld =>
          (hheld.quiet (Still.toQuiet hpicked₂)).toOverdue
    | some second =>
        dsimp only at hok
        split at hok
        · obtain ⟨s₄, hissue₂, hok⟩ := Library.bind_eq_ok.mp hok
          cases hok
          have hlog₄ := (issueCommand_spec hissue₂).issuedCommands
          rw [hlog] at hlog₄
          have hserved : Guarded s ix (fun s => s.Overdue ix) s₄ :=
            (hfirst.2 hdual.2).trans hlog₄ fun hheld =>
              (hheld.issuePicked hs₂ hix hpicked₂ hissue₂).1
          exact hserved.still rfl fun hover => hover.congr rfl rfl
        · -- the second command is of the same kind and is dropped
          cases hok
          exact (hfirst.2 hdual.2).still hlog fun hheld =>
            (hheld.picked hs₂ hpicked₂).2.1.toOverdue
  · cases hok
    exact hfirst.1

theorem Held.issueCommands {issued : Bool} (hs : s.Sound) (hpim : s.pimCmds = [])
    (hix : config.HasBank ix) (h : s.Held ix) (hok : s.issueCommands = .ok (issued, s')) :
    Guarded s ix (fun s => s.Overdue ix) s' := by
  obtain ⟨⟨selected, s₂⟩, hselect, hok⟩ := Library.bind_eq_ok.mp hok
  obtain ⟨s₁, hstill, hpicked⟩ := (selectCommand_ensures (o := s) hs.requests).of_ok hselect
  have hlog := hstill.toQuiet.sameCommands.issued
  have hheld := h.quiet hstill.toQuiet
  have hidle : s₂.pimIdle = true := by
    refine pimIdle_of_pimCmds (List.eq_nil_iff_forall_not_mem.mpr fun c hc => ?_)
    have hmem := hstill.pim c (hpicked.pim c hc)
    rw [hpim] at hmem
    cases hmem
  dsimp only at hok
  rw [hidle, Bool.or_true, if_pos rfl] at hok
  cases selected with
  | none =>
      cases hok
      exact .same (hpicked.issuedCommands.trans hlog)
        (hheld.quiet (Still.toQuiet hpicked)).toOverdue
  | some cmd =>
      obtain ⟨s₃, hselected, hok⟩ := Library.bind_eq_ok.mp hok
      cases hok
      exact (hheld.issueSelected (hs.of_quiet hstill.toQuiet) hix hpicked hselected).of_issued hlog

theorem Overdue.updateSelfRefresh (hix : config.HasBank ix)
    (h : Guarded o ix (fun s => s.Overdue ix) s) {l : List Nat}
    (hok : s.updateSelfRefresh l = .ok s') : Guarded o ix (fun s => s.Overdue ix) s' := by
  rcases updateSelfRefresh_cases l hok with rfl | ⟨i, _, cmd, _, hready, hissue⟩
  · exact h
  · have hissued := issueCommand_spec hissue
    have hcol : cmd.cmdType.isColumn = false := by
      rw [Bool.eq_false_iff]
      intro hcol
      have hty := (hit_of_ready hready hcol).1
      rw [← hty] at hcol
      cases hcol
    rw [CommandType.isColumn, Bool.or_eq_false_iff] at hcol
    have hhit : ¬ HitsBank ix cmd := by
      intro hhit
      rw [HitsBank, Command.isReadWrite, hcol.1] at hhit
      cases hhit.1
    refine h.trans hissued.issuedCommands fun hover => .issued hissued hhit ?_
    exact (hover.issued hix hissued hhit hcol.2).imp_right And.left

theorem Held.tick (hs : s.Sound) (hpim : s.pimCmds = []) (hix : config.HasBank ix) (h : s.Held ix)
    (htick : s.clockTick = .ok s') : Guarded s ix (fun s => s.Overdue ix) s' := by
  obtain ⟨s₃, hbefore, htick⟩ := Library.bind_eq_ok.mp htick
  have hs₃ : s₃.Sound := (beforeSchedule_proceeds hs.requests).preserves hbefore Sound hs
    fun _ _ h hstep => h.step hstep
  obtain ⟨s₀, hrefresh, hbefore⟩ := Library.bind_eq_ok.mp hbefore
  obtain ⟨⟨issued, s₁⟩, hissue, hbefore⟩ := Library.bind_eq_ok.mp hbefore
  have hquiet : Quiet s s₀ := s.tickRefresh_ensures.of_ok hrefresh
  have hpim₀ : s₀.pimCmds = [] := List.eq_nil_iff_forall_not_mem.mpr fun c hc => by
    have hmem := hquiet.pim c hc
    rw [hpim] at hmem
    cases hmem
  have hcommands : Guarded s ix (fun s => s.Overdue ix) s₁ :=
    ((h.quiet hquiet).issueCommands (hs.of_quiet hquiet) hpim₀ hix hissue).of_issued
      hquiet.sameCommands.issued
  have hidle : Guarded s ix (fun s => s.Overdue ix) s₁.updateIdleCycles :=
    hcommands.still rfl fun hover => hover.congr rfl rfl
  have hslept : Guarded s ix (fun s => s.Overdue ix) s₃ := by
    dsimp only at hbefore
    split at hbefore
    · exact Overdue.updateSelfRefresh hix hidle hbefore
    · cases hbefore
      exact hidle
  cases htick
  have hsched := scheduleTransaction_spec hs₃.split
  refine hslept.still hsched.sameCommands.issued fun hover => ?_
  obtain ⟨c, hold, hrow⟩ := hover.wants
  exact hover.congr (congrFun hsched.sameCommands.banks.bankStates ix)
    ((oldest_scheduled hsched hold).trans hold.symm)

/-! ## Runs -/

theorem Guarded.operation {op : Op} (hs : s.Sound) (hpim : s.pimCmds = [])
    (hix : config.HasBank ix) (h : Guarded o ix (fun s => s.Overdue ix) s) (hord : op.IsOrdinary)
    (hprompt : op = .tick → s.ClosesPromptly) (hstep : (controllerSystem config).step s op s') :
    Guarded o ix (fun s => s.Overdue ix) s' := by
  have hdevice (hsame : SameDevice s s') (hlog : s'.issuedCommands = s.issuedCommands) :
      Guarded o ix (fun s => s.Overdue ix) s' := by
    refine h.still hlog fun hover => hover.congr (by rw [hsame.channelState]) ?_
    rw [oldest, queueOfBank, hsame.cmdQueue, oldest, queueOfBank]
  cases op with
  | add it =>
      obtain ⟨_, rfl⟩ := hstep
      exact hdevice (s.addTransaction_sameDevice it) (SameCommands.addTransaction s it).issued
  | done clk =>
      cases hstep
      exact hdevice (s.returnDoneTrans_sameDevice clk) (SameCommands.returnDoneTrans s clk).issued
  | tick =>
      have hstreams : s.Streams := fun c hc => by
        rw [hpim] at hc
        cases hc
      have hrun : ((controllerSystem config).startingAt s).Run ([] ++ [.tick]) s' :=
        .step .start hstep
      obtain ⟨more, hmore, _⟩ := (later_of_run hs hstreams hrun).issued
      refine h.trans hmore fun hover => ?_
      exact Held.tick hs hpim hix ⟨hover, hprompt rfl ix hix hover⟩ hstep
  | pushRdW _ | pushRdIn _ _ | pushWr _ | setInPim _ | setWrMultitenant _ => cases hord

/-- From an overdue bank on, nothing hits the bank before its row has been closed, as long as
`PRECHARGE` is due at every overdue bank with a row hit that is. -/
theorem row_limit_bounds_bypassing {ops more : List Op} (hrun : (ordinarySystem config).Run ops s)
    (hix : config.HasBank ix) (hover : s.Overdue ix)
    (hmore : (((controllerSystem config).startingAt s).restrict fun s op =>
      op.IsOrdinary ∧ (op = .tick → s.ClosesPromptly)).Run more s') :
    ∃ events, s'.issuedCommands = s.issuedCommands ++ events ∧
      ∀ before e after, events = before ++ e :: after → HitsBank ix e.2 →
        ∃ g ∈ before, ClosesBank ix g.2 := by
  have hall : (∃ ops', (ordinarySystem config).Run ops' s') ∧
      Guarded s ix (fun s => s.Overdue ix) s' := by
    refine hmore.invariant (fun s' => (∃ ops', (ordinarySystem config).Run ops' s') ∧
      Guarded s ix (fun s => s.Overdue ix) s') ⟨⟨ops, hrun⟩, .refl hover⟩ ?_
    rintro s₁ op s₂ ⟨⟨ops', hrun'⟩, hguard⟩ ⟨hstep, hord, hprompt⟩
    obtain ⟨hs, hpim⟩ := sound_of_ordinary hrun'
    exact ⟨⟨_, hrun'.step ⟨hstep, hord⟩⟩, hguard.operation hs hpim hix hord hprompt hstep⟩
  rcases hall.2 with ⟨events, hissued, hnone, _⟩ | ⟨pre, g, post, hissued, hnone, hclose⟩
  · refine ⟨events, hissued, fun before e after hsplit hhit => absurd hhit (hnone e ?_)⟩
    rw [hsplit]
    simp
  · refine ⟨pre ++ g :: post, hissued, fun before e after hsplit hhit => ⟨g, ?_, hclose⟩⟩
    have hne : e ≠ g := by
      rintro rfl
      rw [HitsBank, Command.isReadWrite, hclose.1] at hhit
      cases hhit.1
    rcases List.append_eq_append_iff.mp hsplit with ⟨l, hbefore, hl⟩ | ⟨l, hpre, hl⟩
    · cases l with
      | nil =>
          cases hl
          exact absurd rfl hne
      | cons g' l =>
          cases hl
          rw [hbefore]
          simp
    · cases l with
      | nil =>
          cases hl
          exact absurd rfl hne
      | cons e' l =>
          cases hl
          refine absurd hhit (hnone e ?_)
          rw [hpre]
          simp

/-- Four reads of a row, one of another row of the bank and a fifth of the first row, as far as
the first four have been served. -/
def limitOps : List Op :=
  [.add ⟨0, false, 0, 0⟩, .add ⟨64, false, 0, 0⟩, .add ⟨128, false, 0, 0⟩, .add ⟨192, false, 0, 0⟩,
    .add ⟨32768, false, 0, 0⟩, .add ⟨256, false, 0, 0⟩] ++ List.replicate 6 .tick

/-- A device whose rows can be closed one cycle after a read. -/
def promptRows : Config := { quickRows with tRAS := 1, tRTP := 1 }

theorem row_limit_bounds_bypassing_prompt : ∃ s s' : Controller promptRows,
    (ordinarySystem promptRows).Run limitOps s ∧ s.Overdue ⟨0, 0, 0⟩ ∧
      (∃ events, s'.issuedCommands = s.issuedCommands ++ events ∧
        ∀ before e after, events = before ++ e :: after → HitsBank ⟨0, 0, 0⟩ e.2 →
          ∃ g ∈ before, ClosesBank ⟨0, 0, 0⟩ g.2) := by
  have hsome : (replay promptRows limitOps).any (fun s =>
      (s.channelState.bankStates ⟨0, 0, 0⟩).state = .opened ∧
      4 ≤ (s.channelState.bankStates ⟨0, 0, 0⟩).rowHitCount ∧
      (s.oldest ⟨0, 0, 0⟩).any (fun cmd =>
        cmd.addr.row ≠ (s.channelState.bankStates ⟨0, 0, 0⟩).openRow) = true ∧
      ((List.range promptRows.numQueues).all fun i => (s.cmdQueue.queues i).all fun cmd =>
        (s.channelState.bankStates cmd.bankIndex).cmdTiming .precharge ≤ s.clk) = true ∧
      s.clockTick.toOption.isSome = true) = true := by
    decide +kernel
  obtain ⟨s, hs, hfacts⟩ := (Option.any_eq_true _ _).mp hsome
  obtain ⟨hopen, hlimit, hold, hdue, htick⟩ := of_decide_eq_true hfacts
  have hrun : (ordinarySystem promptRows).Run limitOps s :=
    run_of_replay Op.IsOrdinary hs (by decide)
  have hover := Overdue.of_any hopen hlimit hold
  have hprompt : s.ClosesPromptly := by
    rintro ix hix _ c hc rfl _ _
    have hi := List.mem_range.mpr (Config.queueOf_lt hix)
    exact of_decide_eq_true (List.all_eq_true.mp (List.all_eq_true.mp hdue _ hi) c hc)
  cases hok : s.clockTick with
  | error e =>
      rw [hok] at htick
      cases htick
  | ok s' =>
      have hmore : (((controllerSystem promptRows).startingAt s).restrict fun s op =>
          op.IsOrdinary ∧ (op = .tick → s.ClosesPromptly)).Run ([] ++ [.tick]) s' :=
        .step .start ⟨hok, trivial, fun _ => hprompt⟩
      exact ⟨s, s', hrun, hover, row_limit_bounds_bypassing hrun (by decide) hover hmore⟩

/-- Where a read may follow a read sooner than `PRECHARGE` may, the fifth read of the row is
served before the older command. -/
theorem row_limit_bypassed : ∃ s s' : Controller quickRows,
    (ordinarySystem quickRows).Run limitOps s ∧ s.Overdue ⟨0, 0, 0⟩ ∧
      (ordinarySystem quickRows).Run (limitOps ++ [.tick]) s' ∧
      ∃ e, s'.issuedCommands = s.issuedCommands ++ [e] ∧ HitsBank ⟨0, 0, 0⟩ e.2 := by
  have hsome : (replay quickRows limitOps).any (fun s =>
      (s.channelState.bankStates ⟨0, 0, 0⟩).state = .opened ∧
      4 ≤ (s.channelState.bankStates ⟨0, 0, 0⟩).rowHitCount ∧
      (s.oldest ⟨0, 0, 0⟩).any (fun cmd =>
        cmd.addr.row ≠ (s.channelState.bankStates ⟨0, 0, 0⟩).openRow) = true ∧
      s.clockTick.toOption.any (fun s' => s'.issuedCommands =
        s.issuedCommands ++ [(6, transToCommand quickRows ⟨256, false, 0, 0⟩)]) = true) = true := by
    decide +kernel
  obtain ⟨s, hs, hfacts⟩ := (Option.any_eq_true _ _).mp hsome
  obtain ⟨hopen, hlimit, hold, htick⟩ := of_decide_eq_true hfacts
  have hrun : (ordinarySystem quickRows).Run limitOps s :=
    run_of_replay Op.IsOrdinary hs (by decide)
  cases hok : s.clockTick with
  | error e =>
      rw [hok] at htick
      cases htick
  | ok s' =>
      rw [hok] at htick
      refine ⟨s, s', hrun, .of_any hopen hlimit hold, hrun.step ⟨hok, trivial⟩, _,
        of_decide_eq_true htick, rfl, by decide⟩

end Controller

end Dramsim
