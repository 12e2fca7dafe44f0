import Dramsim.Controller.Runs
import Dramsim.Library.Since

/-!
# Every transaction is accounted for

Six containers hold the transactions of a controller: the transaction queues, the
command queues, the two multimaps of pending transactions, the return queue, and,
as the record of events, what has been returned.

* `Conserved` counts the accepted transactions of an address against the pending,
  the completed and the returned ones.  No step breaks it.
* `Booked` says that a queued entry has a pending transaction, and `Kept` that a
  pending transaction has a queued entry.  Only the second can be broken, by
  discarding a command that has left its queue.
-/

namespace Dramsim

/-- The queue of an address. -/
def Config.queueAt (config : Config) (addr : Nat) : Nat :=
  config.queueOf (config.addressMapping addr)

namespace Controller

variable {config : Config} {o s s' s₁ : Controller config} {cmd : Command} {it : Transaction}
  {addr : Nat} {isWrite : Bool} {e : Exit}

/-! ## Counting -/

/-- The entries for reads, or for writes, of an address that are waiting or
queued. -/
def entryCount (s : Controller config) (isWrite : Bool) (addr : Nat) : Nat :=
  s.waiting.countP (Transaction.carries addr isWrite) +
    (s.cmdQueue.queues (config.queueAt addr)).countP (Command.carries addr isWrite)

/-- The pending reads, or writes, of an address. -/
def pendingOf (s : Controller config) (isWrite : Bool) (addr : Nat) : List Transaction :=
  if isWrite then s.writesOf addr else s.readsOf addr

theorem carries_iff : it.carries addr isWrite = true ↔ it.addr = addr ∧ it.isWrite = isWrite := by
  simp [Transaction.carries]

/-- A command only counts for its own queue. -/
theorem queueAt_of_carries (h : (transToCommand config it).carries addr isWrite = true) :
    config.queueAt addr = config.queueOf (transToCommand config it).addr := by
  rw [transToCommand_carries, carries_iff] at h
  rw [Config.queueAt, ← h.1]
  rfl

theorem entryCount_congr (hw : s'.waiting = s.waiting) (hq : s'.cmdQueue.queues = s.cmdQueue.queues)
    (isWrite : Bool) (addr : Nat) : s'.entryCount isWrite addr = s.entryCount isWrite addr := by
  rw [entryCount, hw, hq, entryCount]

theorem Issued.entryCount (h : Issued s cmd s') (isWrite : Bool) (addr : Nat) :
    s'.entryCount isWrite addr = s.entryCount isWrite addr := by
  refine entryCount_congr ?_ (by rw [h.cmdQueue]) isWrite addr
  rw [waiting, h.unifiedQueue, h.readQueue, h.writeBuffer, waiting]

theorem Quiet.entryCount (h : Quiet s s') (isWrite : Bool) (addr : Nat) :
    s'.entryCount isWrite addr = s.entryCount isWrite addr := by
  refine entryCount_congr ?_ h.queues.queues isWrite addr
  rw [waiting, h.unifiedQueue, h.readQueue, h.writeBuffer, waiting]

/-- A removed command is one entry less. -/
theorem Removed.entryCount (hs : s.Sound) (h : Removed s cmd s') (isWrite : Bool) (addr : Nat) :
    s.entryCount isWrite addr =
      s'.entryCount isWrite addr + if cmd.carries addr isWrite then 1 else 0 := by
  obtain ⟨_, _, _, ⟨it, htrans⟩, _⟩ := hs.offered h.column h.offered
  obtain ⟨⟨before, after, hsplit, hqueues⟩, _, hframe⟩ := h.spec hs
  have hw : s'.waiting = s.waiting := by rw [hframe]; rfl
  rw [Controller.entryCount, Controller.entryCount, hw, hqueues]
  by_cases hq : config.queueAt addr = config.queueOf cmd.addr
  · rw [hq, Function.update_self, hsplit, List.countP_append, List.countP_append, List.countP_cons]
    omega
  · have hnot : cmd.carries addr isWrite = false := by
      rw [Bool.eq_false_iff]
      intro hcar
      rw [htrans] at hcar hq
      exact hq (queueAt_of_carries hcar)
    rw [Function.update_of_ne hq, hnot]
    simp

theorem entryCount_addCommand (hacc : s.Accepts it) (isWrite : Bool) (addr : Nat) :
    ((s.cmdQueue.addCommand (transToCommand config it)).queues (config.queueAt addr)).countP
        (Command.carries addr isWrite) =
      (s.cmdQueue.queues (config.queueAt addr)).countP (Command.carries addr isWrite) +
        if it.carries addr isWrite then 1 else 0 := by
  rw [CommandQueue.addCommand_queues hacc]
  by_cases hq : config.queueAt addr = config.queueOf (transToCommand config it).addr
  · rw [hq, Function.update_self, List.countP_append, List.countP_singleton,
      transToCommand_carries]
  · have hnot : it.carries addr isWrite = false := by
      rw [Bool.eq_false_iff]
      intro hcar
      rw [← transToCommand_carries] at hcar
      exact hq (queueAt_of_carries hcar)
    rw [Function.update_of_ne hq, hnot]
    simp

/-- Scheduling moves an entry, and loses none. -/
theorem Scheduled.entryCount (h : Scheduled s s') (isWrite : Bool) (addr : Nat) :
    s'.entryCount isWrite addr = s.entryCount isWrite addr := by
  cases h with
  | held => rfl
  | unified _ hl hacc _ =>
      rw [Controller.entryCount, entryCount_addCommand hacc, Controller.entryCount]
      simp only [waiting, hl, List.countP_append, List.countP_cons]
      omega
  | write _ _ hl hacc =>
      rw [Controller.entryCount, entryCount_addCommand hacc, Controller.entryCount]
      simp only [waiting, hl, List.countP_append, List.countP_cons]
      omega
  | read _ _ hl hacc =>
      rw [Controller.entryCount, entryCount_addCommand hacc, Controller.entryCount]
      simp only [waiting, hl, List.countP_append, List.countP_cons]
      omega

theorem entryCount_enqueue (s : Controller config) (it : Transaction) (isWrite : Bool)
    (addr : Nat) :
    (s.enqueue it).entryCount isWrite addr =
      s.entryCount isWrite addr + if it.carries addr isWrite then 1 else 0 := by
  have hq : (s.enqueue it).cmdQueue = s.cmdQueue := by rw [enqueue_eq]
  rw [entryCount, (s.waiting_enqueue_perm it).countP_eq, List.countP_cons, hq, entryCount]
  omega

/-! ## Pending transactions -/

theorem Issued.readsOf (h : Issued s cmd s') (addr : Nat) :
    s'.readsOf addr =
      if cmd.isRead = true ∧ cmd.hexAddr = addr then [] else s.readsOf addr := by
  cases hread : cmd.isRead with
  | false => simp [Controller.readsOf, (h.noReads hread).1]
  | true =>
      rw [Controller.readsOf, (h.reads hread).1, List.filter_filter]
      by_cases ha : cmd.hexAddr = addr
      · rw [if_pos ⟨rfl, ha⟩, List.filter_eq_nil_iff]
        intro it _
        simp [ha]
      · rw [if_neg (fun hc => ha hc.2), Controller.readsOf]
        refine List.filter_congr fun it _ => ?_
        by_cases hit : it.addr = addr
        · simp [hit, Ne.symm ha]
        · simp [hit]

theorem Issued.writesOf (h : Issued s cmd s') (addr : Nat) :
    s'.writesOf addr =
      if cmd.isWrite = true ∧ cmd.hexAddr = addr then (s.writesOf addr).tail
      else s.writesOf addr := by
  cases hwrite : cmd.isWrite with
  | false => simp [Controller.writesOf, h.noWrites hwrite]
  | true =>
      obtain ⟨hne, hpend⟩ := h.writes hwrite
      obtain ⟨it, hit⟩ := List.exists_mem_of_ne_nil _ hne
      rw [Controller.writesOf, List.mem_filter] at hit
      obtain ⟨found, before, after, hbefore, hfound, hsplit, herase⟩ := List.exists_of_eraseP
        (p := fun trans : Transaction => decide (trans.addr = cmd.hexAddr)) hit.1 hit.2
      have hf : found.addr = cmd.hexAddr := by simpa using hfound
      rw [Controller.writesOf, hpend, herase, Controller.writesOf, hsplit]
      by_cases ha : cmd.hexAddr = addr
      · have hnil : before.filter (fun trans => decide (trans.addr = addr)) = [] := by
          rw [List.filter_eq_nil_iff]
          intro t ht
          exact ha ▸ hbefore t ht
        simp [List.filter_append, hnil, hf, ha]
      · rw [if_neg (fun hc => ha hc.2)]
        simp [List.filter_append, hf, ha]

/-! ## Entries and pending transactions -/

/-- Every entry is that of a pending transaction, there is at most one for each
kind, and at most one write of an address is pending. -/
structure Booked (s : Controller config) : Prop where
  entry : ∀ isWrite addr, s.entryCount isWrite addr ≤ 1
  pending : ∀ isWrite addr, s.pendingOf isWrite addr = [] → s.entryCount isWrite addr = 0
  single : ∀ addr, (s.writesOf addr).length ≤ 1

/-- Every pending transaction has an entry. -/
def Kept (s : Controller config) : Prop :=
  ∀ isWrite addr, s.pendingOf isWrite addr ≠ [] → s.entryCount isWrite addr ≠ 0

theorem Booked.congr (h : s.Booked)
    (hentry : ∀ isWrite addr, s'.entryCount isWrite addr = s.entryCount isWrite addr)
    (hpend : ∀ isWrite addr, s'.pendingOf isWrite addr = s.pendingOf isWrite addr) : s'.Booked where
  entry := fun isWrite addr => hentry isWrite addr ▸ h.entry isWrite addr
  pending := fun isWrite addr hnil => by
    rw [hpend] at hnil
    exact (hentry isWrite addr).trans (h.pending isWrite addr hnil)
  single := fun addr => by
    have hw := hpend true addr
    simp only [pendingOf, if_true] at hw
    exact hw ▸ h.single addr

theorem Kept.congr (h : s.Kept)
    (hentry : ∀ isWrite addr, s'.entryCount isWrite addr = s.entryCount isWrite addr)
    (hpend : ∀ isWrite addr, s'.pendingOf isWrite addr = s.pendingOf isWrite addr) : s'.Kept := by
  intro isWrite addr hne
  rw [hpend] at hne
  exact (hentry isWrite addr).symm ▸ h isWrite addr hne

theorem pendingOf_congr (hrd : s'.pendingRdQ = s.pendingRdQ) (hwr : s'.pendingWrQ = s.pendingWrQ)
    (isWrite : Bool) (addr : Nat) : s'.pendingOf isWrite addr = s.pendingOf isWrite addr := by
  rw [pendingOf, Controller.readsOf, Controller.writesOf, hrd, hwr]
  rfl

/-- A command answers the pending transactions of its own kind. -/
theorem Issued.pendingOf (h : Issued s cmd s') (hsingle : (s.writesOf addr).length ≤ 1)
    (isWrite : Bool) :
    s'.pendingOf isWrite addr =
      if cmd.carries addr isWrite then [] else s.pendingOf isWrite addr := by
  cases isWrite with
  | false =>
      have hcar : (cmd.carries addr false = true) ↔ (cmd.isRead = true ∧ cmd.hexAddr = addr) := by
        simp [Command.carries, and_comm]
      simp only [Controller.pendingOf, Bool.false_eq_true, if_false, h.readsOf, hcar]
  | true =>
      have hcar : (cmd.carries addr true = true) ↔ (cmd.isWrite = true ∧ cmd.hexAddr = addr) := by
        simp [Command.carries, and_comm]
      have htail : (s.writesOf addr).tail = [] := by
        rw [← List.length_eq_zero_iff, List.length_tail]
        omega
      simp only [Controller.pendingOf, if_true, h.writesOf, hcar, htail]

theorem Removed.pendingOf (h : Removed s cmd s') (isWrite : Bool) (addr : Nat) :
    s'.pendingOf isWrite addr = s.pendingOf isWrite addr := by
  obtain ⟨_, _, _, _, rfl⟩ := h.erased
  rfl

/-! ### The steps of a tick -/

/-- A discarded command takes its entry with it. -/
theorem Booked.removed (hs : s.Sound) (hb : s.Booked) (h : Removed s cmd s') : s'.Booked where
  entry := fun isWrite addr => by
    have hcount := h.entryCount hs isWrite addr
    have hold := hb.entry isWrite addr
    omega
  pending := fun isWrite addr hnil => by
    rw [h.pendingOf] at hnil
    have hcount := h.entryCount hs isWrite addr
    have hold := hb.pending isWrite addr hnil
    omega
  single := fun addr => by
    have hw := h.pendingOf true addr
    simp only [Controller.pendingOf, if_true] at hw
    exact hw ▸ hb.single addr

/-- A served command takes its entry and its pending transactions with it. -/
theorem serve_spec (hs : s.Sound) (hb : s.Booked) (hrem : Removed s cmd s₁) (h : Issued s₁ cmd s')
    (isWrite : Bool) (addr : Nat) :
    s.entryCount isWrite addr =
      s'.entryCount isWrite addr + (if cmd.carries addr isWrite then 1 else 0) ∧
    s'.pendingOf isWrite addr =
      if cmd.carries addr isWrite then [] else s.pendingOf isWrite addr := by
  refine ⟨by rw [h.entryCount, hrem.entryCount hs], ?_⟩
  rw [h.pendingOf ((hb.removed hs hrem).single addr), hrem.pendingOf]

theorem Booked.serve (hs : s.Sound) (hb : s.Booked) (hrem : Removed s cmd s₁)
    (h : Issued s₁ cmd s') :
    s'.Booked where
  entry := fun isWrite addr => by
    have hcount := (serve_spec hs hb hrem h isWrite addr).1
    have hold := hb.entry isWrite addr
    omega
  pending := fun isWrite addr hnil => by
    obtain ⟨hcount, hpend⟩ := serve_spec hs hb hrem h isWrite addr
    have hold := hb.entry isWrite addr
    cases hcar : cmd.carries addr isWrite with
    | true =>
        rw [hcar, if_pos rfl] at hcount
        omega
    | false =>
        rw [hcar, if_neg Bool.false_ne_true] at hpend
        have hnone := hb.pending isWrite addr (hpend ▸ hnil)
        omega
  single := fun addr => by
    have hlen := (hb.removed hs hrem).single addr
    rw [h.writesOf]
    split
    · rw [List.length_tail]
      omega
    · exact hlen

theorem Kept.serve (hs : s.Sound) (hb : s.Booked) (hk : s.Kept) (hrem : Removed s cmd s₁)
    (h : Issued s₁ cmd s') : s'.Kept := by
  intro isWrite addr hne
  obtain ⟨hcount, hpend⟩ := serve_spec hs hb hrem h isWrite addr
  cases hcar : cmd.carries addr isWrite with
  | true =>
      rw [hcar, if_pos rfl] at hpend
      exact absurd hpend hne
  | false =>
      rw [hcar, if_neg Bool.false_ne_true] at hpend hcount
      have hold := hk isWrite addr (hpend ▸ hne)
      omega

/-- A command that is no column command answers no transaction. -/
theorem Issued.pendingOf_of_not_column (h : Issued s cmd s') (hcol : cmd.isReadWrite = false)
    (isWrite : Bool) (addr : Nat) : s'.pendingOf isWrite addr = s.pendingOf isWrite addr := by
  obtain ⟨hread, hwrite⟩ := Command.isReadWrite_eq_false.mp hcol
  exact pendingOf_congr (h.noReads hread).1 (h.noWrites hwrite) isWrite addr

/-- No column command is discarded in a tick that starts in the state `o`. -/
def NoDiscard (o : Controller config) : Prop :=
  ∀ (s s' : Controller config) (cmd : Command), s.Sound → Removed s cmd s' → ¬ Displaced o s

/-- All other steps leave the entries and the pending transactions. -/
theorem Step.entries (hs : s.Sound) (h : Step o s s') :
    (∃ cmd s₁, Removed s cmd s₁ ∧ Issued s₁ cmd s') ∨
    (∃ cmd, Removed s cmd s' ∧ Displaced o s) ∨
    ∀ isWrite addr, s'.entryCount isWrite addr = s.entryCount isWrite addr ∧
      s'.pendingOf isWrite addr = s.pendingOf isWrite addr := by
  cases h with
  | serve hrem hissue => exact Or.inl ⟨_, _, hrem, issueCommand_spec hissue⟩
  | discard hrem hdis => exact Or.inr (Or.inl ⟨_, hrem, hdis⟩)
  | quiet hquiet =>
      exact Or.inr (Or.inr fun isWrite addr => ⟨hquiet.entryCount isWrite addr,
        pendingOf_congr hquiet.pendingRdQ hquiet.pendingWrQ isWrite addr⟩)
  | answer hans hissue =>
      have h := issueCommand_spec hissue
      exact Or.inr (Or.inr fun isWrite addr => ⟨h.entryCount isWrite addr,
        h.pendingOf_of_not_column hans.1 isWrite addr⟩)
  | pim hdue hissue =>
      have h := issueCommand_spec hissue
      exact Or.inr (Or.inr fun isWrite addr => ⟨h.entryCount isWrite addr,
        h.pendingOf_of_not_column (hs.pim _ hdue.1) isWrite addr⟩)
  | schedule =>
      have h := scheduleTransaction_spec hs.split
      refine Or.inr (Or.inr fun isWrite addr => ⟨h.entryCount isWrite addr, ?_⟩)
      exact pendingOf_congr h.pendingRdQ h.pendingWrQ isWrite addr
  | advance => exact Or.inr (Or.inr fun _ _ => ⟨rfl, rfl⟩)

theorem Booked.step (hs : s.Sound) (hb : s.Booked) (h : Step o s s') : s'.Booked := by
  rcases h.entries hs with ⟨_, _, hrem, hissue⟩ | ⟨_, hrem, _⟩ | hsame
  · exact hb.serve hs hrem hissue
  · exact hb.removed hs hrem
  · exact hb.congr (fun w a => (hsame w a).1) (fun w a => (hsame w a).2)

theorem Kept.step (hs : s.Sound) (hb : s.Booked) (hk : s.Kept) (hno : NoDiscard o)
    (h : Step o s s') : s'.Kept := by
  rcases h.entries hs with ⟨_, _, hrem, hissue⟩ | ⟨cmd, hrem, hdis⟩ | hsame
  · exact hk.serve hs hb hrem hissue
  · exact absurd hdis (hno s s' cmd hs hrem)
  · exact hk.congr (fun w a => (hsame w a).1) (fun w a => (hsame w a).2)

/-! ### A new transaction -/

theorem pendingOf_insertWrite (s : Controller config) (it : Transaction) (isWrite : Bool)
    (addr : Nat) : (s.insertWrite it).pendingOf isWrite addr =
      s.pendingOf isWrite addr ++ if isWrite = true ∧ it.addr = addr then [it] else [] := by
  cases isWrite with
  | false => simp [pendingOf, insertWrite, readsOf]
  | true => by_cases ha : it.addr = addr <;> simp [pendingOf, insertWrite, writesOf, ha]

theorem pendingOf_insertRead (s : Controller config) (it : Transaction) (isWrite : Bool)
    (addr : Nat) : (s.insertRead it).pendingOf isWrite addr =
      s.pendingOf isWrite addr ++ if isWrite = false ∧ it.addr = addr then [it] else [] := by
  cases isWrite with
  | false => by_cases ha : it.addr = addr <;> simp [pendingOf, insertRead, readsOf, ha]
  | true => simp [pendingOf, insertRead, writesOf]

/-- The first transaction of its kind and address is the only one pending there. -/
theorem pending_first {pending : List Transaction} {it' : Transaction} {kind : Bool}
    (hit : it.isWrite = kind) (hnil : it.addr = addr → it.isWrite = isWrite → pending = []) :
    (pending ++ if isWrite = kind ∧ it.addr = addr then [it'] else []) =
      if it.carries addr isWrite then [it'] else pending := by
  subst hit
  by_cases hcar : it.carries addr isWrite = true
  · obtain ⟨haddr, hkind⟩ := carries_iff.mp hcar
    rw [if_pos hcar, if_pos ⟨hkind.symm, haddr⟩, hnil haddr hkind, List.nil_append]
  · rw [if_neg hcar, if_neg fun h => hcar (carries_iff.mpr ⟨h.2, h.1.symm⟩), List.append_nil]

/-- A transaction makes an entry when it is the first of its kind and address, and
otherwise joins those that are pending. -/
theorem addTransaction_entries (s : Controller config) (it : Transaction) :
    (s.pendingOf it.isWrite it.addr = [] ∧ ∀ isWrite addr,
      (s.addTransaction it).pendingOf isWrite addr =
        (if it.carries addr isWrite then [{ it with addedCycle := s.clk }]
        else s.pendingOf isWrite addr) ∧
      (s.addTransaction it).entryCount isWrite addr =
        s.entryCount isWrite addr + if it.carries addr isWrite then 1 else 0) ∨
    ∀ isWrite addr, ((s.addTransaction it).pendingOf isWrite addr = [] ↔
        s.pendingOf isWrite addr = []) ∧
      (s.addTransaction it).writesOf addr = s.writesOf addr ∧
      (s.addTransaction it).entryCount isWrite addr = s.entryCount isWrite addr := by
  have hcount : ∀ (s' : Controller config) isWrite addr,
      (s'.enqueue { it with addedCycle := s.clk }).entryCount isWrite addr =
        s'.entryCount isWrite addr + if it.carries addr isWrite then 1 else 0 :=
    fun s' isWrite addr => s'.entryCount_enqueue _ isWrite addr
  rcases s.addTransaction_cases it with ⟨hw, hnil, he⟩ | ⟨hne, he⟩ | ⟨hw, _, hnil, he⟩ |
    ⟨hw, _, hne, he⟩ <;> rw [he]
  · have hfirst : s.pendingOf it.isWrite it.addr = [] := by
      rw [pendingOf, hw]
      exact hnil
    refine Or.inl ⟨hfirst, fun isWrite addr => ⟨?_, hcount _ isWrite addr⟩⟩
    rw [pendingOf_congr (s := (s.record _).insertWrite _) (by rw [enqueue_eq]; rfl)
      (by rw [enqueue_eq]; rfl), pendingOf_insertWrite]
    exact pending_first hw fun haddr hkind => haddr ▸ hkind ▸ hfirst
  · exact Or.inr fun isWrite addr => ⟨Iff.rfl, rfl, rfl⟩
  · have hfirst : s.pendingOf it.isWrite it.addr = [] := by
      rw [pendingOf, hw]
      exact hnil
    refine Or.inl ⟨hfirst, fun isWrite addr => ⟨?_, hcount _ isWrite addr⟩⟩
    rw [pendingOf_congr (s := (s.record _).insertRead _) (by rw [enqueue_eq])
      (by rw [enqueue_eq]), pendingOf_insertRead]
    exact pending_first hw fun haddr hkind => haddr ▸ hkind ▸ hfirst
  · refine Or.inr fun isWrite addr => ⟨?_, rfl, rfl⟩
    rw [pendingOf_insertRead, List.append_eq_nil_iff]
    refine ⟨fun h => h.1, fun hpend => ⟨hpend, if_neg ?_⟩⟩
    rintro ⟨rfl, rfl⟩
    exact hne hpend

theorem Booked.addTransaction (hb : s.Booked) (it : Transaction) :
    (s.addTransaction it).Booked := by
  rcases s.addTransaction_entries it with ⟨hnil, hnew⟩ | hsame
  · refine ⟨fun isWrite addr => ?_, fun isWrite addr hpend => ?_, fun addr => ?_⟩
    · rw [(hnew isWrite addr).2]
      split
      · rename_i hcar
        obtain ⟨rfl, rfl⟩ := carries_iff.mp hcar
        rw [hb.pending _ _ hnil]
      · exact hb.entry isWrite addr
    · obtain ⟨hpend', hcount⟩ := hnew isWrite addr
      rw [hpend'] at hpend
      split at hpend
      · cases hpend
      · rename_i hcar
        rw [hcount, if_neg hcar]
        exact hb.pending isWrite addr hpend
    · have hpend' := (hnew true addr).1
      simp only [pendingOf, if_true] at hpend'
      rw [hpend']
      split
      · exact le_refl 1
      · exact hb.single addr
  · refine ⟨fun isWrite addr => ?_, fun isWrite addr hpend => ?_, fun addr => ?_⟩
    · rw [(hsame isWrite addr).2.2]
      exact hb.entry isWrite addr
    · rw [(hsame isWrite addr).2.2]
      exact hb.pending isWrite addr ((hsame isWrite addr).1.mp hpend)
    · rw [(hsame true addr).2.1]
      exact hb.single addr

theorem Kept.addTransaction (hk : s.Kept) (it : Transaction) : (s.addTransaction it).Kept := by
  intro isWrite addr hne
  rcases s.addTransaction_entries it with ⟨_, hnew⟩ | hsame
  · obtain ⟨hpend, hcount⟩ := hnew isWrite addr
    rw [hcount]
    split
    · omega
    · rename_i hcar
      rw [hpend, if_neg hcar] at hne
      exact hk isWrite addr hne
  · rw [(hsame isWrite addr).2.2]
    exact hk isWrite addr (fun hnil => hne ((hsame isWrite addr).1.mpr hnil))

theorem returnDoneTrans_entries (s : Controller config) (clk : Nat) (isWrite : Bool) (addr : Nat) :
    (s.returnDoneTrans clk).2.entryCount isWrite addr = s.entryCount isWrite addr ∧
      (s.returnDoneTrans clk).2.pendingOf isWrite addr = s.pendingOf isWrite addr := by
  rcases s.returnDoneTrans_cases clk with he | ⟨_, _, _, _, he⟩ <;> rw [he]
  · exact ⟨rfl, rfl⟩
  · exact ⟨rfl, rfl⟩

theorem Booked.init : Booked ({} : Controller config) :=
  ⟨fun _ _ => Nat.zero_le 1, fun _ _ _ => rfl, fun _ => Nat.zero_le 1⟩

theorem Kept.init : Kept ({} : Controller config) := by
  intro isWrite addr hne
  cases isWrite <;> exact absurd rfl hne

theorem Booked.preserves (cond : Controller config → Op → Prop) : Preserves cond Booked where
  add := fun _ it _ hb _ _ => hb.addTransaction it
  done := fun s clk _ hb => hb.congr (fun w a => (s.returnDoneTrans_entries clk w a).1)
    (fun w a => (s.returnDoneTrans_entries clk w a).2)
  pim := fun s op s' _ _ _ hb hpim => by
    rw [hpim]
    exact hb.congr (fun _ _ => rfl) (fun _ _ => rfl)
  step := fun _ _ _ _ _ _ hs hb hstep => hb.step hs hstep

/-! ## No command is missing -/

/-- A command that is no column command can only fail in the banks. -/
theorem issueCommand_error_of_not_column (hcol : cmd.isReadWrite = false)
    (h : s.issueCommand cmd = .error e) : e = .illegalUpdate := by
  obtain ⟨hread, hwrite⟩ := Command.isReadWrite_eq_false.mp hcol
  rcases issueCommand_error h with he | ⟨hr, _⟩ | ⟨hw, _⟩
  · exact he
  · rw [hread] at hr
    cases hr
  · rw [hwrite] at hw
    cases hw

/-- A command that leaves its queue finds its transactions pending. -/
theorem Booked.pending_of_removed (hs : s.Sound) (hb : s.Booked)
    (hrem : Removed s (transToCommand config it) s') : s'.pendingOf it.isWrite it.addr ≠ [] := by
  intro hnil
  rw [hrem.pendingOf] at hnil
  have hcount := hrem.entryCount hs it.isWrite it.addr
  rw [hb.pending _ _ hnil, transToCommand_carries, if_pos (carries_iff.mpr ⟨rfl, rfl⟩)] at hcount
  omega

/-- The steps of a controller whose entries are booked never miss a command or a
transaction. -/
theorem Fails.of_booked (hs : s.Sound) (hb : s.Booked) (h : Fails s e) :
    e ≠ .notInReadQueue ∧ e ≠ .notInWriteQueue ∧ e ≠ .cannotFindCmd := by
  cases h with
  | request he => rcases he with rfl | rfl <;> decide
  | interval => decide
  | release => decide
  | erase hcol hoff hsame herr =>
      -- the command stands in the queue it came from
      obtain ⟨before, after, hsplit, _⟩ := hs.offered hcol hoff
      unfold CommandQueue.eraseRWCommand at herr
      rw [hsame.queues, hsplit] at herr
      simp at herr
  | answer hans herr =>
      rw [issueCommand_error_of_not_column hans.1 herr]
      decide
  | pim hdue herr =>
      rw [issueCommand_error_of_not_column (hs.pim _ hdue.1) herr]
      decide
  | @serve s₁ cmd _ hrem herr =>
      obtain ⟨_, _, _, ⟨it, rfl⟩, _⟩ := hs.offered hrem.column hrem.offered
      have hpend := hb.pending_of_removed hs hrem
      rcases issueCommand_error herr with rfl | ⟨hr, hnil⟩ | ⟨hw, hnil⟩
      · decide
      · rw [transToCommand_isRead, Bool.not_eq_true'] at hr
        rw [pendingOf, hr] at hpend
        exact absurd hnil hpend
      · rw [transToCommand_isWrite] at hw
        rw [pendingOf, hw] at hpend
        exact absurd hnil hpend

theorem clockTick_finds (hs : s.Sound) (hb : s.Booked) (h : s.clockTick = .error e) :
    e ≠ .notInReadQueue ∧ e ≠ .notInWriteQueue ∧ e ≠ .cannotFindCmd := by
  obtain ⟨s', hinv, hfail⟩ := ((clockTick_proceeds hs.requests).of_error h).preserves
    (fun s => s.Sound ∧ s.Booked) ⟨hs, hb⟩
    (fun _ _ hinv hstep => ⟨hinv.1.step hstep, hinv.2.step hinv.1 hstep⟩)
  exact hfail.of_booked hinv.1 hinv.2

end Controller

end Dramsim
