import Dramsim.Controller.History

/-!
# Conservation of transactions

What has been accepted is pending, complete or returned.  The equations hold along
every run, with PIM commands and with dual issue; that every pending transaction
has its one entry needs that no command is discarded.
-/

namespace Dramsim

/-- A transaction of this address and kind is accepted. -/
def Event.accepts (addr : Nat) (isWrite : Bool) : Event → Bool
  | .accepted it _ => it.carries addr isWrite
  | _ => false

/-- A transaction of this address and kind is returned. -/
def Event.returns (addr : Nat) (isWrite : Bool) : Event → Bool
  | .returned a w => a = addr && w = isWrite
  | _ => false

namespace Controller

variable {config : Config} {o s s' : Controller config} {cmd : Command}

/-- How many transactions of an address have been accepted. -/
def acceptedCount (s : Controller config) (isWrite : Bool) (addr : Nat) : Nat :=
  s.log.countP (Event.accepts addr isWrite)

/-- How many transactions of an address have been returned. -/
def returnedCount (s : Controller config) (isWrite : Bool) (addr : Nat) : Nat :=
  s.log.countP (Event.returns addr isWrite)

/-- How many transactions of an address are complete. -/
def completeCount (s : Controller config) (isWrite : Bool) (addr : Nat) : Nat :=
  s.returnQueue.countP (Transaction.carries addr isWrite)

/-- An accepted read is pending, complete or returned, an accepted write complete
or returned. -/
def Conserved (s : Controller config) : Prop :=
  ∀ isWrite addr, s.acceptedCount isWrite addr =
    (if isWrite then 0 else (s.readsOf addr).length) + s.completeCount isWrite addr +
      s.returnedCount isWrite addr

/-- How many transactions of an address are pending or complete. -/
def unreturned (s : Controller config) (isWrite : Bool) (addr : Nat) : Nat :=
  (if isWrite then 0 else (s.readsOf addr).length) + s.completeCount isWrite addr

/-! ## What is pending or complete -/

theorem unreturned_congr (hrd : s'.pendingRdQ = s.pendingRdQ) (hrq : s'.returnQueue = s.returnQueue)
    (isWrite : Bool) (addr : Nat) : s'.unreturned isWrite addr = s.unreturned isWrite addr := by
  rw [unreturned, readsOf, completeCount, hrd, hrq]
  rfl

/-- The reads that a command answers become complete. -/
theorem unreturned_issued (hs : s.Sound) (h : Issued s cmd s') (isWrite : Bool) (addr : Nat) :
    s'.unreturned isWrite addr = s.unreturned isWrite addr := by
  cases hread : cmd.isRead with
  | false => exact unreturned_congr (h.noReads hread).1 (h.noReads hread).2 isWrite addr
  | true =>
      have hmoved : ((s.readsOf cmd.hexAddr).map fun trans : Transaction =>
          { trans with completeCycle := addClk s.clk config.readDelay }).countP
            (Transaction.carries addr isWrite) =
          if isWrite = false ∧ cmd.hexAddr = addr then (s.readsOf addr).length else 0 := by
        rw [List.countP_map]
        split
        · rename_i hkind
          rw [hkind.2, List.countP_eq_length]
          intro it hit
          rw [Controller.readsOf, List.mem_filter, decide_eq_true_eq] at hit
          exact carries_iff.mpr ⟨hit.2, hkind.1 ▸ hs.pendingRd it hit.1⟩
        · rename_i hkind
          rw [List.countP_eq_zero]
          intro it hit hcar
          rw [Controller.readsOf, List.mem_filter, decide_eq_true_eq] at hit
          obtain ⟨haddr, hw⟩ := carries_iff.mp hcar
          exact hkind ⟨hw ▸ hs.pendingRd it hit.1, hit.2.symm.trans haddr⟩
      rw [unreturned, completeCount, (h.reads hread).2, List.countP_append, hmoved, h.readsOf,
        hread, unreturned, completeCount]
      cases isWrite with
      | true => simp
      | false =>
          by_cases ha : cmd.hexAddr = addr
          · simp [ha, Nat.add_comm]
          · simp [ha]

theorem unreturned_removed (h : Removed s cmd s') (isWrite : Bool) (addr : Nat) :
    s'.unreturned isWrite addr = s.unreturned isWrite addr := by
  obtain ⟨_, _, _, _, rfl⟩ := h.erased
  rfl

theorem unreturned_step (hs : s.Sound) (h : Step o s s') (isWrite : Bool) (addr : Nat) :
    s'.unreturned isWrite addr = s.unreturned isWrite addr := by
  cases h with
  | quiet hquiet => exact unreturned_congr hquiet.pendingRdQ hquiet.returnQueue isWrite addr
  | serve hrem hissue =>
      rw [unreturned_issued (hs.of_removed hrem) (issueCommand_spec hissue),
        unreturned_removed hrem]
  | discard hrem _ => exact unreturned_removed hrem isWrite addr
  | answer _ hissue => exact unreturned_issued hs (issueCommand_spec hissue) isWrite addr
  | pim _ hissue => exact unreturned_issued hs (issueCommand_spec hissue) isWrite addr
  | schedule =>
      have h := scheduleTransaction_spec hs.split
      exact unreturned_congr h.pendingRdQ h.returnQueue isWrite addr
  | advance => rfl

/-- The transaction completes at once, or it is a read and becomes pending. -/
theorem unreturned_addTransaction (s : Controller config) (it : Transaction) (isWrite : Bool)
    (addr : Nat) : (s.addTransaction it).unreturned isWrite addr =
      s.unreturned isWrite addr + if it.carries addr isWrite then 1 else 0 := by
  have hnext : ∀ {s' : Controller config} {it' : Transaction},
      s'.returnQueue = s.returnQueue ++ [it'] → it'.addr = it.addr → it'.isWrite = it.isWrite →
      s'.pendingRdQ = s.pendingRdQ → s'.unreturned isWrite addr =
        s.unreturned isWrite addr + if it.carries addr isWrite then 1 else 0 := by
    intro s' it' hrq ha hw hrd
    have hcar : it'.carries addr isWrite = it.carries addr isWrite := by
      rw [Transaction.carries, ha, hw, Transaction.carries]
    rw [unreturned, readsOf, completeCount, hrd, hrq, List.countP_append, List.countP_singleton,
      hcar, unreturned, readsOf, completeCount]
    omega
  have hpending : ∀ {s' : Controller config} {it' : Transaction},
      s'.pendingRdQ = s.pendingRdQ ++ [it'] → it'.addr = it.addr → it.isWrite = false →
      s'.returnQueue = s.returnQueue → s'.unreturned isWrite addr =
        s.unreturned isWrite addr + if it.carries addr isWrite then 1 else 0 := by
    intro s' it' hrd ha hw hrq
    rw [unreturned, readsOf, completeCount, hrd, hrq, List.filter_append, List.length_append,
      Transaction.carries, hw, unreturned, readsOf, completeCount]
    cases isWrite with
    | true => simp
    | false =>
        by_cases haddr : it.addr = addr
        · simp [ha, haddr]
          omega
        · simp [ha, haddr]
  rcases s.addTransaction_cases it with ⟨hw, _, he⟩ | ⟨_, he⟩ | ⟨hw, _, _, he⟩ | ⟨hw, _, _, he⟩ <;>
    rw [he]
  · rw [enqueue_eq]
    exact hnext rfl rfl rfl rfl
  · exact hnext rfl rfl rfl rfl
  · rw [enqueue_eq]
    exact hpending rfl rfl hw rfl
  · exact hpending rfl rfl hw rfl

theorem unreturned_returnDoneTrans (s : Controller config) (clk : Nat) (isWrite : Bool)
    (addr : Nat) :
    s.unreturned isWrite addr = (s.returnDoneTrans clk).2.unreturned isWrite addr +
      if (s.returnDoneTrans clk).1 = some (addr, isWrite) then 1 else 0 := by
  rcases s.returnDoneTrans_cases clk with he | ⟨before, it, after, hsplit, he⟩
  · rw [he]
    rfl
  · have hcar : it.carries addr isWrite = true ↔ it.addr = addr ∧ it.isWrite = isWrite :=
      carries_iff
    rw [he, unreturned, unreturned, completeCount, completeCount, hsplit, readsOf, readsOf]
    simp only [record, increment, List.countP_append, List.countP_cons, Option.some.injEq,
      Prod.mk.injEq, hcar]
    omega

/-! ## Conservation -/

/-- What a step records in addition and does not count. -/
theorem countP_log {events : List Event} (hlog : s'.log = s.log ++ events) {p : Event → Bool}
    (hevents : ∀ e ∈ events, p e = false) : s'.log.countP p = s.log.countP p := by
  rw [hlog, List.countP_append, Nat.add_eq_left, List.countP_eq_zero]
  intro e he
  rw [hevents e he]
  exact Bool.false_ne_true

/-- A step that accepts and returns nothing. -/
theorem Conserved.of_log (h : s.Conserved) {events : List Event} (hlog : s'.log = s.log ++ events)
    (hevents : ∀ e ∈ events, ∀ addr isWrite, e.accepts addr isWrite = false ∧
      e.returns addr isWrite = false)
    (hpend : ∀ isWrite addr, s'.unreturned isWrite addr = s.unreturned isWrite addr) :
    s'.Conserved := by
  intro isWrite addr
  have hacc : s'.acceptedCount isWrite addr = s.acceptedCount isWrite addr :=
    countP_log hlog fun e he => (hevents e he addr isWrite).1
  have hret : s'.returnedCount isWrite addr = s.returnedCount isWrite addr :=
    countP_log hlog fun e he => (hevents e he addr isWrite).2
  rw [hacc, hret, h isWrite addr]
  exact congrArg (· + _) (hpend isWrite addr).symm

/-- A step that records one event, which is neither an acceptance nor a return. -/
theorem Conserved.of_event (h : s.Conserved) {e : Event} (hlog : s'.log = s.log ++ [e])
    (he : ∀ addr isWrite, e.accepts addr isWrite = false ∧ e.returns addr isWrite = false)
    (hpend : ∀ isWrite addr, s'.unreturned isWrite addr = s.unreturned isWrite addr) :
    s'.Conserved :=
  h.of_log hlog (fun _ hmem => List.mem_singleton.mp hmem ▸ he) hpend

/-- A step that records nothing and moves no transaction that is pending or
complete. -/
theorem Conserved.congr (hc : s.Conserved) (hlog : s'.log = s.log)
    (hrd : s'.pendingRdQ = s.pendingRdQ) (hrq : s'.returnQueue = s.returnQueue) : s'.Conserved :=
  hc.of_log (hlog.trans (List.append_nil _).symm) (fun _ he => absurd he List.not_mem_nil)
    (unreturned_congr hrd hrq)

theorem Conserved.issued (hs : s.Sound) (hc : s.Conserved) (h : Issued s cmd s') : s'.Conserved :=
  hc.of_event h.log (fun _ _ => ⟨rfl, rfl⟩) (unreturned_issued hs h)

theorem Conserved.removed (hc : s.Conserved) (h : Removed s cmd s') : s'.Conserved :=
  hc.of_event h.log (fun _ _ => ⟨rfl, rfl⟩) (unreturned_removed h)

theorem Conserved.step (hs : s.Sound) (hc : s.Conserved) (h : Step o s s') : s'.Conserved := by
  cases h with
  | quiet hquiet => exact hc.congr hquiet.log hquiet.pendingRdQ hquiet.returnQueue
  | serve hrem hissue =>
      exact (hc.removed hrem).issued (hs.of_removed hrem) (issueCommand_spec hissue)
  | discard hrem _ => exact hc.removed hrem
  | answer _ hissue => exact hc.issued hs (issueCommand_spec hissue)
  | pim _ hissue => exact hc.issued hs (issueCommand_spec hissue)
  | schedule =>
      have h := scheduleTransaction_spec hs.split
      exact hc.congr h.log h.pendingRdQ h.returnQueue
  | advance => exact hc.congr rfl rfl rfl

theorem Conserved.addTransaction (hc : s.Conserved) (it : Transaction) :
    (s.addTransaction it).Conserved := by
  intro isWrite addr
  obtain ⟨forwarded, hlog, _⟩ := s.addTransaction_log it
  have hcar : Transaction.carries addr isWrite { it with addedCycle := s.clk } =
      it.carries addr isWrite := rfl
  have hpend := s.unreturned_addTransaction it isWrite addr
  have hold := hc isWrite addr
  rw [acceptedCount, returnedCount, hlog, List.countP_append, List.countP_append,
    List.countP_singleton, List.countP_singleton]
  simp only [acceptedCount, returnedCount, unreturned, Event.accepts, Event.returns, hcar,
    Bool.false_eq_true, if_false] at hold hpend ⊢
  omega

theorem Conserved.returnDoneTrans (hc : s.Conserved) (clk : Nat) :
    (s.returnDoneTrans clk).2.Conserved := by
  intro isWrite addr
  have hold := hc isWrite addr
  have hpend := s.unreturned_returnDoneTrans clk isWrite addr
  simp only [unreturned] at hpend
  rcases s.returnDoneTrans_cases clk with he | ⟨before, it, after, hsplit, he⟩
  · rw [he]
    exact hold
  · have hlog : (s.returnDoneTrans clk).2.log = s.log ++ [.returned it.addr it.isWrite] := by
      rw [he]
      rfl
    have hret : (Event.returned it.addr it.isWrite).returns addr isWrite = true ↔
        (s.returnDoneTrans clk).1 = some (addr, isWrite) := by
      rw [he, Event.returns, Bool.and_eq_true, decide_eq_true_eq, decide_eq_true_eq,
        Option.some.injEq, Prod.mk.injEq]
    rw [acceptedCount, returnedCount, hlog, List.countP_append, List.countP_append,
      List.countP_singleton, List.countP_singleton]
    simp only [acceptedCount, returnedCount, Event.accepts, hret, Bool.false_eq_true,
      if_false] at hold ⊢
    omega

/-! ## What has been returned -/

theorem returnedCount_of_event {e : Event} (hlog : s'.log = s.log ++ [e]) {isWrite : Bool}
    {addr : Nat} (he : e.returns addr isWrite = false) :
    s'.returnedCount isWrite addr = s.returnedCount isWrite addr :=
  countP_log hlog fun _ hmem => List.mem_singleton.mp hmem ▸ he

theorem returnedCount_step (hs : s.Sound) (h : Step o s s') (isWrite : Bool) (addr : Nat) :
    s'.returnedCount isWrite addr = s.returnedCount isWrite addr := by
  cases h with
  | quiet hquiet => rw [returnedCount, hquiet.log, returnedCount]
  | serve hrem hissue =>
      exact (returnedCount_of_event (issueCommand_spec hissue).log rfl).trans
        (returnedCount_of_event hrem.log rfl)
  | discard hrem _ => exact returnedCount_of_event hrem.log rfl
  | answer _ hissue => exact returnedCount_of_event (issueCommand_spec hissue).log rfl
  | pim _ hissue => exact returnedCount_of_event (issueCommand_spec hissue).log rfl
  | schedule => rw [returnedCount, (scheduleTransaction_spec hs.split).log, returnedCount]
  | advance => rfl

theorem returnedCount_addTransaction (s : Controller config) (it : Transaction) (isWrite : Bool)
    (addr : Nat) :
    (s.addTransaction it).returnedCount isWrite addr = s.returnedCount isWrite addr := by
  obtain ⟨forwarded, hlog, _⟩ := s.addTransaction_log it
  exact returnedCount_of_event hlog rfl

theorem returnedCount_returnDoneTrans (s : Controller config) (clk : Nat) (isWrite : Bool)
    (addr : Nat) :
    (s.returnDoneTrans clk).2.returnedCount isWrite addr = s.returnedCount isWrite addr +
      if (s.returnDoneTrans clk).1 = some (addr, isWrite) then 1 else 0 := by
  rcases s.returnDoneTrans_cases clk with he | ⟨before, it, after, hsplit, he⟩
  · rw [he]
    rfl
  · have hlog : (s.returnDoneTrans clk).2.log = s.log ++ [.returned it.addr it.isWrite] := by
      rw [he]
      rfl
    rw [returnedCount, hlog, List.countP_append, List.countP_singleton, he]
    simp only [Event.returns, Bool.and_eq_true, decide_eq_true_eq, Option.some.injEq, Prod.mk.injEq]
    rfl

theorem Conserved.preserves (cond : Controller config → Op → Prop) : Preserves cond Conserved where
  add := fun _ it _ hc _ _ => hc.addTransaction it
  done := fun _ clk _ hc => hc.returnDoneTrans clk
  pim := fun s op s' _ _ _ hc hpim => by
    rw [hpim]
    exact hc.congr rfl rfl rfl
  step := fun _ _ _ _ _ _ hs hc hstep => hc.step hs hstep

/-! ## All queues together -/

/-- The entries for an address in the transaction queues and the command queues. -/
def entryTotal (s : Controller config) (isWrite : Bool) (addr : Nat) : Nat :=
  s.waiting.countP (Transaction.carries addr isWrite) +
    s.cmdQueue.entries.countP (Command.carries addr isWrite)

/-- The entries of an address stand in one queue. -/
theorem entryTotal_eq (hs : s.Sound) (isWrite : Bool) (addr : Nat) :
    s.entryTotal isWrite addr = s.entryCount isWrite addr := by
  have hlt : config.queueAt addr < config.numQueues :=
    Config.queueOf_lt (config.hasBank_addressMapping addr)
  have hzero : ∀ i, i ≠ config.queueAt addr →
      (s.cmdQueue.queues i).countP (Command.carries addr isWrite) = 0 := by
    intro i hi
    rw [List.countP_eq_zero]
    intro cmd hcmd hcar
    obtain ⟨hqueue, it, rfl⟩ := hs.entries i cmd hcmd
    exact hi (hqueue ▸ (queueAt_of_carries hcar).symm)
  obtain ⟨before, after, hsplit⟩ := List.append_of_mem (List.mem_range.mpr hlt)
  have hnodup : (before ++ config.queueAt addr :: after).Nodup := hsplit ▸ List.nodup_range
  have hnot : config.queueAt addr ∉ before ++ after :=
    (List.nodup_cons.mp (List.nodup_middle.mp hnodup)).1
  have hothers : ∀ l : List Nat, config.queueAt addr ∉ l →
      (l.flatMap s.cmdQueue.queues).countP (Command.carries addr isWrite) = 0 := by
    intro l hl
    rw [List.countP_eq_zero]
    intro cmd hcmd
    obtain ⟨i, hi, hmem⟩ := List.mem_flatMap.mp hcmd
    exact List.countP_eq_zero.mp (hzero i (fun he => hl (he ▸ hi))) cmd hmem
  rw [entryTotal, entryCount, CommandQueue.entries, hsplit, List.flatMap_append, List.flatMap_cons,
    List.countP_append, List.countP_append,
    hothers before (fun hmem => hnot (List.mem_append_left _ hmem)),
    hothers after (fun hmem => hnot (List.mem_append_right _ hmem))]
  omega

/-- Without PIM commands and dual issue no command is discarded. -/
theorem noDiscard_of_single (hdual : config.enableHbmDualCmd = false) (hpim : o.pimCmds = []) :
    NoDiscard o := by
  rintro s s' cmd _ _ (⟨hquiet, hidle⟩ | ⟨henabled, _⟩)
  · rw [hquiet.pimIdle hpim] at hidle
    cases hidle
  · rw [hdual] at henabled
    cases henabled

theorem Kept.preservesOrdinary {cond : Controller config → Op → Prop}
    (hcond : ∀ s op, cond s op → op.IsOrdinary)
    (hno : ∀ o, cond o .tick → o.Sound → o.pimCmds = [] → NoDiscard o) :
    PreservesOrdinary cond fun s => s.Booked ∧ s.Kept where
  ordinary := hcond
  add := fun _ it _ hinv _ _ => ⟨hinv.1.addTransaction it, hinv.2.addTransaction it⟩
  done := fun s clk hs hinv =>
    ⟨(Booked.preserves fun _ _ => True).done s clk hs hinv.1,
      hinv.2.congr (fun w a => (s.returnDoneTrans_entries clk w a).1)
        (fun w a => (s.returnDoneTrans_entries clk w a).2)⟩
  step := fun o _ _ htick ho hpim hs _ hinv hstep =>
    ⟨hinv.1.step hs hstep, hinv.2.step hs hinv.1 (hno o htick ho hpim) hstep⟩

/-- No transaction is lost or completed twice.  A read is pending, complete or
returned and a write complete or returned, whatever the queue structure and the
page policy; a pending transaction has exactly one entry in the queues, and the
process never ends for want of a command or a transaction. -/
theorem transactions_conserved (config : Config) (hdual : config.enableHbmDualCmd = false)
    {ops : List Op} {s : Controller config} (h : (ordinarySystem config).Run ops s) (addr : Nat) :
    (s.acceptedCount false addr =
      (s.readsOf addr).length + s.completeCount false addr + s.returnedCount false addr) ∧
    (s.acceptedCount true addr = s.completeCount true addr + s.returnedCount true addr) ∧
    (s.entryTotal false addr = if s.readsOf addr = [] then 0 else 1) ∧
    ((s.writesOf addr).length ≤ 1 ∧ s.entryTotal true addr = (s.writesOf addr).length) ∧
    ∀ e, s.clockTick = .error e →
      e ≠ .notInReadQueue ∧ e ≠ .notInWriteQueue ∧ e ≠ .cannotFindCmd := by
  obtain ⟨hs, hc⟩ := run_invariant h (fun isWrite _ => by cases isWrite <;> rfl)
    (Conserved.preserves _)
  obtain ⟨_, _, hb, hk⟩ := ordinary_invariant h ⟨Booked.init, Kept.init⟩
    (Kept.preservesOrdinary (fun _ _ hop => hop) fun _ _ _ hpim => noDiscard_of_single hdual hpim)
  have hread := hc false addr
  have hwrite := hc true addr
  simp only [Bool.false_eq_true, if_false, if_true, Nat.zero_add] at hread hwrite
  refine ⟨hread, hwrite, ?_, ⟨hb.single addr, ?_⟩, fun e he => clockTick_finds hs hb he⟩
  · rw [entryTotal_eq hs]
    split
    · rename_i hnil
      exact hb.pending false addr hnil
    · rename_i hne
      have hpos := hk false addr hne
      have hle := hb.entry false addr
      omega
  · rw [entryTotal_eq hs]
    have hlen := hb.single addr
    by_cases hnil : s.writesOf addr = []
    · rw [hnil]
      exact hb.pending true addr hnil
    · have hpos := hk true addr hnil
      have hle := hb.entry true addr
      have hlen' := List.length_pos_iff.mpr hnil
      omega

/-- Two reads share one command.  The write has completed although it still
waits. -/
theorem transactions_conserved_shared_read :
    ∃ s : Controller .defaults, ∃ ops, (ordinarySystem .defaults).Run ops s ∧
      s.acceptedCount false 0 = 2 ∧ s.returnedCount false 0 = 1 ∧ s.entryTotal false 0 = 0 ∧
      s.acceptedCount false 0 =
        (s.readsOf 0).length + s.completeCount false 0 + s.returnedCount false 0 ∧
      s.returnedCount true 64 = 1 ∧ s.entryTotal true 64 = (s.writesOf 64).length := by
  have hsome : ((replay .defaults
      ([.add ⟨0, false, 0, 0⟩, .add ⟨0, false, 0, 0⟩, .add ⟨64, true, 0, 0⟩] ++
        List.replicate 13 .tick ++ [.done 13, .done 40])).map fun s =>
      (s.acceptedCount false 0, s.returnedCount false 0, s.entryTotal false 0,
        s.returnedCount true 64)) = some (2, 1, 0, 1) := by
    decide +kernel
  obtain ⟨s, hs, hcounts⟩ := Option.map_eq_some_iff.mp hsome
  simp only [Prod.mk.injEq] at hcounts
  have hrun := ordinary_of_replay hs (by decide)
  exact ⟨s, _, hrun, hcounts.1, hcounts.2.1, hcounts.2.2.1,
    (transactions_conserved .defaults rfl hrun 0).1, hcounts.2.2.2,
    (transactions_conserved .defaults rfl hrun 64).2.2.2.1.2⟩

end Controller

end Dramsim
