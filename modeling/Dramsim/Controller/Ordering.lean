import Dramsim.Controller.Discards

/-!
# Order of reads and writes

A write must not overtake a pending read of its address.  With split queues the
scheduler holds the write back until the read is answered.  With a unified queue it
is a matter of order: the entries of an address keep the order in which they came,
and `HasRWDependency` looks for reads before a write in its queue.  The second
argument needs that no read has lost its entry.

A read must not overtake a pending write to its location.  The controller looks
for pending writes by address, so this holds where the reads that are accepted have
the address of any pending write to their location.
-/

namespace Dramsim

namespace Controller

variable {config : Config} {o s s' : Controller config} {cmd : Command} {it : Transaction}

/-! ## Writes that are issued -/

/-- No write has been issued while a read of its address was pending. -/
def WritesClear (s : Controller config) : Prop :=
  ∀ clk cmd waiting, .issued clk cmd waiting ∈ s.log → cmd.isWrite = true → waiting = []

theorem WritesClear.init : WritesClear ({} : Controller config) :=
  fun _ _ _ hmem _ => absurd hmem List.not_mem_nil

theorem WritesClear.append (h : s.WritesClear) {e : Event} (hlog : s'.log = s.log ++ [e])
    (he : ∀ clk cmd waiting, e = .issued clk cmd waiting → cmd.isWrite = true → waiting = []) :
    s'.WritesClear := by
  intro clk cmd waiting hmem hw
  rw [hlog] at hmem
  rcases List.mem_append.mp hmem with hold | hnew
  · exact h clk cmd waiting hold hw
  · exact he clk cmd waiting (List.mem_singleton.mp hnew).symm hw

theorem WritesClear.issued (h : s.WritesClear) (hi : Issued s cmd s')
    (hclear : cmd.isWrite = true → s.readsOf cmd.hexAddr = []) : s'.WritesClear := by
  refine h.append hi.log fun clk c waiting he hw => ?_
  cases he
  exact hclear hw

theorem WritesClear.removed (h : s.WritesClear) (hrem : Removed s cmd s') : s'.WritesClear :=
  h.append hrem.log fun _ _ _ he => by cases he

/-- A step keeps the writes clear if the write it may remove from a queue is. -/
theorem WritesClear.step (hs : s.Sound) (hw : s.WritesClear)
    (hclear : ∀ cmd s₁, Removed s cmd s₁ → cmd.isWrite = true → s.readsOf cmd.hexAddr = [])
    (h : Step o s s') : s'.WritesClear := by
  have hother : ∀ {cmd : Command}, cmd.isReadWrite = false → Issued s cmd s' → s'.WritesClear := by
    intro cmd hcol hi
    refine hw.issued hi fun hwrite => ?_
    rw [(Command.isReadWrite_eq_false.mp hcol).2] at hwrite
    cases hwrite
  have hsame : s'.log = s.log → s'.WritesClear := by
    intro hlog
    rw [WritesClear, hlog]
    exact hw
  cases h with
  | quiet hquiet => exact hsame hquiet.log
  | @serve s₁ _ cmd hrem hissue =>
      refine (hw.removed hrem).issued (issueCommand_spec hissue) fun hwrite => ?_
      have hpend := hrem.pendingOf false cmd.hexAddr
      exact hpend.trans (hclear cmd s₁ hrem hwrite)
  | discard hrem _ => exact hw.removed hrem
  | answer hans hissue => exact hother hans.1 (issueCommand_spec hissue)
  | pim hdue hissue => exact hother (hs.pim _ hdue.1) (issueCommand_spec hissue)
  | schedule => exact hsame (scheduleTransaction_spec hs.split).log
  | advance => exact hsame rfl

theorem WritesClear.addTransaction (hw : s.WritesClear) (it : Transaction) :
    (s.addTransaction it).WritesClear := by
  obtain ⟨forwarded, hlog, _⟩ := s.addTransaction_log it
  exact hw.append hlog fun _ _ _ he => by cases he

theorem WritesClear.returnDoneTrans (hw : s.WritesClear) (clk : Nat) :
    (s.returnDoneTrans clk).2.WritesClear := by
  rcases s.returnDoneTrans_log clk with hlog | ⟨_, _, hlog⟩
  · rw [WritesClear, hlog]
    exact hw
  · exact hw.append hlog fun _ _ _ he => by cases he

/-! ## Split queues -/

/-- A write that has been scheduled has no pending read. -/
def QueuedClear (s : Controller config) : Prop :=
  ∀ i, ∀ cmd ∈ s.cmdQueue.queues i, cmd.isWrite = true → s.readsOf cmd.hexAddr = []

theorem QueuedClear.of_subset (h : s.QueuedClear)
    (hqueues : ∀ i, ∀ cmd ∈ s'.cmdQueue.queues i, cmd ∈ s.cmdQueue.queues i)
    (hreads : ∀ addr, s.readsOf addr = [] → s'.readsOf addr = []) : s'.QueuedClear :=
  fun i cmd hcmd hw => hreads _ (h i cmd (hqueues i cmd hcmd) hw)

theorem Removed.mem_queues (hs : s.Sound) (h : Removed s cmd s') :
    cmd ∈ s.cmdQueue.queues (config.queueOf cmd.addr) := by
  obtain ⟨before, after, hsplit, _⟩ := hs.offered h.column h.offered
  rw [hsplit]
  exact List.mem_append_right _ (List.mem_cons_self ..)

theorem Removed.queues_subset (hs : s.Sound) (h : Removed s cmd s') (i : Nat) :
    (s'.cmdQueue.queues i).Sublist (s.cmdQueue.queues i) := by
  obtain ⟨⟨before, after, hsplit, hqueues⟩, _, _⟩ := h.spec hs
  rw [hqueues]
  by_cases hi : i = config.queueOf cmd.addr
  · subst hi
    rw [Function.update_self, hsplit]
    exact List.Sublist.append_left (List.sublist_cons_self _ _) _
  · rw [Function.update_of_ne hi]

theorem Issued.readsOf_nil (h : Issued s cmd s') {addr : Nat} (hnil : s.readsOf addr = []) :
    s'.readsOf addr = [] := by
  rw [h.readsOf, hnil, ite_self]

theorem QueuedClear.issued (h : s.QueuedClear) (hi : Issued s cmd s') : s'.QueuedClear :=
  h.of_subset (fun _ _ hc => hi.cmdQueue ▸ hc) (fun _ hnil => hi.readsOf_nil hnil)

theorem QueuedClear.removed (hs : s.Sound) (h : s.QueuedClear) (hrem : Removed s cmd s') :
    s'.QueuedClear :=
  h.of_subset (fun i _ hc => (hrem.queues_subset hs i).subset hc)
    (fun addr hnil => (hrem.pendingOf false addr).trans hnil)

theorem QueuedClear.scheduled (hs : s.Sound) (hu : config.unifiedQueue = false) (h : s.QueuedClear)
    (hsch : Scheduled s s') : s'.QueuedClear := by
  cases hsch with
  | held => exact h
  | unified hunified =>
      rw [hu] at hunified
      cases hunified
  | write _ _ _ _ hnil =>
      intro i cmd hcmd hw
      rcases CommandQueue.mem_addCommand_queues hcmd with hold | ⟨rfl, _⟩
      · exact h i cmd hold hw
      · exact hnil
  | read _ _ hl =>
      intro i cmd hcmd hw
      rcases CommandQueue.mem_addCommand_queues hcmd with hold | ⟨rfl, _⟩
      · exact h i cmd hold hw
      · rw [transToCommand_isWrite, hs.split.reads _ (by rw [hl]; simp)] at hw
        cases hw

theorem QueuedClear.step (hs : s.Sound) (hu : config.unifiedQueue = false) (hq : s.QueuedClear)
    (h : Step o s s') : s'.QueuedClear := by
  cases h with
  | quiet hquiet =>
      refine hq.of_subset (fun i c hc => hquiet.queues.queues ▸ hc) (fun addr hnil => ?_)
      exact (pendingOf_congr hquiet.pendingRdQ hquiet.pendingWrQ false addr).trans hnil
  | serve hrem hissue => exact (hq.removed hs hrem).issued (issueCommand_spec hissue)
  | discard hrem _ => exact hq.removed hs hrem
  | answer _ hissue => exact hq.issued (issueCommand_spec hissue)
  | pim _ hissue => exact hq.issued (issueCommand_spec hissue)
  | schedule => exact hq.scheduled hs hu (scheduleTransaction_spec hs.split)
  | advance => exact hq

/-- Only a read that is not forwarded becomes pending. -/
theorem addTransaction_readsOf (s : Controller config) (it : Transaction) (addr : Nat) :
    (s.addTransaction it).readsOf addr = s.readsOf addr ∨
      (it.isWrite = false ∧ it.addr = addr ∧ s.writesOf addr = []) := by
  by_cases ha : it.addr = addr
  · subst ha
    rcases s.addTransaction_cases it with ⟨_, _, he⟩ | ⟨_, he⟩ | ⟨hw, hnil, _⟩ | ⟨hw, hnil, _⟩
    · rw [he, enqueue_eq]
      exact Or.inl rfl
    · rw [he]
      exact Or.inl rfl
    · exact Or.inr ⟨hw, rfl, hnil⟩
    · exact Or.inr ⟨hw, rfl, hnil⟩
  · refine Or.inl ?_
    rcases s.addTransaction_cases it with ⟨_, _, he⟩ | ⟨_, he⟩ | ⟨_, _, _, he⟩ | ⟨_, _, _, he⟩ <;>
      rw [he]
    · rw [enqueue_eq]
      rfl
    · rfl
    · rw [enqueue_eq]
      simp [readsOf, insertRead, record, ha]
    · simp [readsOf, insertRead, record, ha]

/-- A queued write is pending. -/
theorem writesOf_ne_nil_of_mem (hs : s.Sound) (hb : s.Booked) {i : Nat}
    (hcmd : cmd ∈ s.cmdQueue.queues i) (hw : cmd.isWrite = true) : s.writesOf cmd.hexAddr ≠ [] := by
  intro hnil
  obtain ⟨hqueue, it, rfl⟩ := hs.entries i cmd hcmd
  have hcar : (transToCommand config it).carries it.addr true = true := by
    rw [transToCommand_isWrite] at hw
    rw [transToCommand_carries, carries_iff]
    exact ⟨rfl, hw⟩
  have hzero := hb.pending true it.addr hnil
  rw [entryCount, Nat.add_eq_zero_iff, List.countP_eq_zero, queueAt_of_carries hcar, hqueue]
    at hzero
  exact List.countP_eq_zero.mp hzero.2 _ hcmd hcar

/-- A read of an address whose write is queued is forwarded. -/
theorem QueuedClear.addTransaction (hs : s.Sound) (hb : s.Booked) (hq : s.QueuedClear)
    (it : Transaction) : (s.addTransaction it).QueuedClear := by
  intro i cmd hcmd hw
  rw [(s.addTransaction_sameDevice it).cmdQueue] at hcmd
  rcases s.addTransaction_readsOf it cmd.hexAddr with hsame | ⟨_, _, hnil⟩
  · rw [hsame]
    exact hq i cmd hcmd hw
  · exact absurd hnil (writesOf_ne_nil_of_mem hs hb hcmd hw)

theorem QueuedClear.preservesOrdinary (hu : config.unifiedQueue = false) :
    PreservesOrdinary (fun (_ : Controller config) op => op.IsOrdinary)
      fun s => s.Booked ∧ s.QueuedClear ∧ s.WritesClear where
  ordinary := fun _ _ hop => hop
  add := fun _ it hs hinv _ _ =>
    ⟨hinv.1.addTransaction it, hinv.2.1.addTransaction hs hinv.1 it, hinv.2.2.addTransaction it⟩
  done := fun s clk hs hinv => by
    refine ⟨(Booked.preserves fun _ _ => True).done s clk hs hinv.1, ?_,
      hinv.2.2.returnDoneTrans clk⟩
    rcases s.returnDoneTrans_cases clk with he | ⟨_, _, _, _, he⟩ <;> rw [he] <;> exact hinv.2.1
  step := fun _ _ _ _ _ _ hs _ hinv hstep =>
    ⟨hinv.1.step hs hstep, hinv.2.1.step hs hu hstep, hinv.2.2.step hs
      (fun cmd _ hrem hw => hinv.2.1 _ cmd (hrem.mem_queues hs) hw) hstep⟩

/-! ## The unified queue -/

/-- The entries of an address in the order in which they came: first those in its
command queue, then those that wait. -/
def lineOf (s : Controller config) (addr : Nat) : List Command :=
  (s.cmdQueue.queues (config.queueAt addr)).filter (fun cmd => cmd.hexAddr = addr) ++
    (s.unifiedQueue.filter fun it => it.addr = addr).map (transToCommand config)

/-- With a unified queue no write stands before a read of its address. -/
structure Ordered (s : Controller config) : Prop where
  reads : s.readQueue = []
  writes : s.writeBuffer = []
  line : ∀ addr, (s.lineOf addr).Pairwise fun cmd cmd' =>
    ¬ (cmd.isWrite = true ∧ cmd'.isRead = true)

theorem Ordered.of_sublist (h : s.Ordered) (hr : s'.readQueue = s.readQueue)
    (hw : s'.writeBuffer = s.writeBuffer)
    (hline : ∀ addr, (s'.lineOf addr).Sublist (s.lineOf addr)) : s'.Ordered :=
  ⟨hr.trans h.reads, hw.trans h.writes, fun addr => (h.line addr).sublist (hline addr)⟩

theorem lineOf_congr (hq : s'.cmdQueue.queues = s.cmdQueue.queues)
    (hu : s'.unifiedQueue = s.unifiedQueue) (addr : Nat) : s'.lineOf addr = s.lineOf addr := by
  rw [lineOf, hq, hu, lineOf]

theorem Ordered.issued (h : s.Ordered) (hi : Issued s cmd s') : s'.Ordered := by
  refine h.of_sublist hi.readQueue hi.writeBuffer fun addr => ?_
  rw [lineOf_congr (by rw [hi.cmdQueue]) hi.unifiedQueue]

theorem Ordered.removed (hs : s.Sound) (h : s.Ordered) (hrem : Removed s cmd s') : s'.Ordered := by
  have hframe := (hrem.spec hs).2.2
  refine h.of_sublist (by rw [hframe]) (by rw [hframe]) fun addr => ?_
  have hu : s'.unifiedQueue = s.unifiedQueue := by rw [hframe]
  rw [lineOf, hu, lineOf]
  exact ((hrem.queues_subset hs _).filter _).append_right _

/-- Scheduling keeps the order of every address: the transactions that are passed
over wait for another command queue. -/
theorem lineOf_scheduled {before after : List Transaction}
    (hl : s.unifiedQueue = before ++ it :: after) (hacc : s.Accepts it)
    (hbefore : ∀ t ∈ before, ¬ s.Accepts t) (addr : Nat) :
    lineOf { s with
      unifiedQueue := before ++ after
      cmdQueue := s.cmdQueue.addCommand (transToCommand config it) } addr = s.lineOf addr := by
  unfold lineOf
  simp only [hl, CommandQueue.addCommand_queues hacc, List.filter_append, List.filter_cons]
  by_cases ha : it.addr = addr
  · have hnil : before.filter (fun t => decide (t.addr = addr)) = [] := by
      rw [List.filter_eq_nil_iff]
      intro t ht haddr
      refine hbefore t ht ?_
      rw [decide_eq_true_eq, ← ha] at haddr
      rw [Accepts, transToCommand_addr, haddr]
      exact hacc
    have hqueue : config.queueAt addr = config.queueOf (transToCommand config it).addr := by
      rw [Config.queueAt, ← ha, transToCommand_addr]
    rw [hqueue, Function.update_self, List.filter_append]
    simp [hnil, ha]
  · have hsame : (Function.update s.cmdQueue.queues (config.queueOf (transToCommand config it).addr)
        (s.cmdQueue.queues (config.queueOf (transToCommand config it).addr) ++
          [transToCommand config it]) (config.queueAt addr)).filter
          (fun cmd => decide (cmd.hexAddr = addr)) =
        (s.cmdQueue.queues (config.queueAt addr)).filter fun cmd =>
          decide (cmd.hexAddr = addr) := by
      by_cases hi : config.queueAt addr = config.queueOf (transToCommand config it).addr
      · rw [hi, Function.update_self, List.filter_append]
        simp [ha]
      · rw [Function.update_of_ne hi]
    rw [hsame]
    simp [ha]

theorem Ordered.scheduled (hu : config.unifiedQueue = true) (h : s.Ordered)
    (hsch : Scheduled s s') : s'.Ordered := by
  cases hsch with
  | held => exact h.of_sublist rfl rfl fun addr => List.Sublist.refl _
  | unified _ hl hacc hbefore =>
      refine h.of_sublist rfl rfl fun addr => ?_
      rw [lineOf_scheduled hl hacc hbefore]
  | write _ hsplit =>
      rw [hu] at hsplit
      cases hsplit
  | read _ hsplit =>
      rw [hu] at hsplit
      cases hsplit

theorem Ordered.step (hs : s.Sound) (hu : config.unifiedQueue = true) (ho : s.Ordered)
    (h : Step o s s') : s'.Ordered := by
  cases h with
  | quiet hquiet =>
      refine ho.of_sublist hquiet.readQueue hquiet.writeBuffer fun addr => ?_
      rw [lineOf_congr hquiet.queues.queues hquiet.unifiedQueue]
  | serve hrem hissue => exact (ho.removed hs hrem).issued (issueCommand_spec hissue)
  | discard hrem _ => exact ho.removed hs hrem
  | answer _ hissue => exact ho.issued (issueCommand_spec hissue)
  | pim _ hissue => exact ho.issued (issueCommand_spec hissue)
  | schedule => exact ho.scheduled hu (scheduleTransaction_spec hs.split)
  | advance => exact ho.of_sublist rfl rfl fun _ => List.Sublist.refl _

/-- The commands in the line of an address are entries. -/
theorem carries_of_mem_lineOf {addr : Nat} (h : cmd ∈ s.lineOf addr) (isWrite : Bool)
    (hkind : (if isWrite then cmd.isWrite else cmd.isRead) = true) :
    s.entryCount isWrite addr ≠ 0 := by
  intro hzero
  rw [entryCount, Nat.add_eq_zero_iff, List.countP_eq_zero, List.countP_eq_zero] at hzero
  rcases List.mem_append.mp h with hq | hu
  · rw [List.mem_filter, decide_eq_true_eq] at hq
    refine hzero.2 cmd hq.1 ?_
    rw [Command.carries, hkind, Bool.and_true, decide_eq_true_eq]
    exact hq.2
  · obtain ⟨it, hit, rfl⟩ := List.mem_map.mp hu
    rw [List.mem_filter, decide_eq_true_eq] at hit
    refine hzero.1 it (List.mem_append_left _ (List.mem_append_left _ hit.1)) ?_
    rw [← transToCommand_carries, Command.carries, hkind, Bool.and_true, decide_eq_true_eq]
    exact hit.2

/-- A new entry goes to the end of the line of its address. -/
theorem lineOf_enqueue (hu : config.unifiedQueue = true) (s : Controller config) (it : Transaction)
    (addr : Nat) :
    (s.enqueue it).lineOf addr =
      s.lineOf addr ++ if it.addr = addr then [transToCommand config it] else [] := by
  rw [enqueue, if_pos hu]
  unfold lineOf
  by_cases ha : it.addr = addr
  · simp [ha, List.filter_append, ← List.append_assoc]
  · simp [ha, List.filter_append]

theorem Ordered.enqueue (hu : config.unifiedQueue = true) (h : s.Ordered)
    (hit : it.isWrite = false → s.entryCount true it.addr = 0) : (s.enqueue it).Ordered := by
  have hqueues : (s.enqueue it).readQueue = s.readQueue ∧
      (s.enqueue it).writeBuffer = s.writeBuffer := by
    rw [Controller.enqueue, if_pos hu]
    exact ⟨rfl, rfl⟩
  refine ⟨hqueues.1.trans h.reads, hqueues.2.trans h.writes, fun addr => ?_⟩
  rw [lineOf_enqueue hu, List.pairwise_append]
  refine ⟨h.line addr, ?_, ?_⟩
  · split
    · exact List.pairwise_singleton _ _
    · exact List.Pairwise.nil
  · intro cmd hcmd cmd' hcmd'
    split at hcmd'
    · rename_i ha
      rw [List.mem_singleton.mp hcmd', transToCommand_isRead, Bool.not_eq_true']
      rintro ⟨hw, hr⟩
      exact carries_of_mem_lineOf hcmd true hw (ha ▸ hit hr)
    · cases hcmd'

theorem Ordered.addTransaction (hu : config.unifiedQueue = true) (hb : s.Booked) (h : s.Ordered)
    (it : Transaction) : (s.addTransaction it).Ordered := by
  have hsame : ∀ {s' : Controller config}, s'.readQueue = s.readQueue →
      s'.writeBuffer = s.writeBuffer → s'.cmdQueue = s.cmdQueue →
      s'.unifiedQueue = s.unifiedQueue → s'.Ordered := by
    intro s' hr hw hq hun
    refine h.of_sublist hr hw fun addr => ?_
    rw [lineOf_congr (by rw [hq]) hun]
  rcases s.addTransaction_cases it with ⟨hw, _, he⟩ | ⟨_, he⟩ | ⟨_, hnil, _, he⟩ | ⟨_, _, _, he⟩ <;>
    rw [he]
  · refine Ordered.of_sublist (s := Controller.enqueue _ _) ?_ rfl rfl fun _ => List.Sublist.refl _
    apply Ordered.enqueue hu
    · exact hsame rfl rfl rfl rfl
    · intro hread
      exact absurd (hw.symm.trans hread) Bool.false_ne_true.symm
  · exact hsame rfl rfl rfl rfl
  · apply Ordered.enqueue hu
    · exact hsame rfl rfl rfl rfl
    · exact fun _ => hb.pending true it.addr hnil
  · exact hsame rfl rfl rfl rfl

/-- A write that is selected has no pending read: the entry of the read would stand
before it, and `HasRWDependency` would have seen it. -/
theorem Ordered.clear (hs : s.Sound) (hk : s.Kept) (ho : s.Ordered) (hrem : Removed s cmd s')
    (hw : cmd.isWrite = true) : s.readsOf cmd.hexAddr = [] := by
  by_contra hne
  obtain ⟨before, after, hsplit, ⟨it, rfl⟩, _, hdep⟩ := hs.offered hrem.column hrem.offered
  have hqueue : config.queueAt it.addr = config.queueOf (transToCommand config it).addr := rfl
  -- nothing behind the write is a read of its address
  have hbehind : ∀ c ∈ after.filter (fun c => decide (c.hexAddr = it.addr)) ++
      (s.unifiedQueue.filter fun t => decide (t.addr = it.addr)).map (transToCommand config),
      c.isRead = false := by
    intro c hc
    have hline := ho.line it.addr
    rw [lineOf, hqueue, hsplit, List.filter_append, List.filter_cons_of_pos (by simp),
      List.append_assoc, List.cons_append, List.pairwise_append, List.pairwise_cons] at hline
    rw [Bool.eq_false_iff]
    exact fun hread => hline.2.1.1 c hc ⟨hw, hread⟩
  have hentry := hk false it.addr hne
  refine hentry (Nat.add_eq_zero_iff.mpr ⟨?_, ?_⟩)
  · rw [waiting, ho.reads, ho.writes, List.append_nil, List.append_nil, List.countP_eq_zero]
    intro t ht hcar
    obtain ⟨ha, hr⟩ := carries_iff.mp hcar
    have hread := hbehind (transToCommand config t)
      (List.mem_append_right _ (List.mem_map_of_mem (List.mem_filter.mpr ⟨ht, by simpa using ha⟩)))
    rw [transToCommand_isRead, hr] at hread
    cases hread
  · rw [hqueue, hsplit, List.countP_eq_zero]
    intro c hc hcar
    rw [Command.carries, Bool.and_eq_true, decide_eq_true_eq] at hcar
    have hread : c.isRead = true := hcar.2
    rcases List.mem_append.mp hc with hc | hc
    · obtain ⟨_, t, rfl⟩ := hs.entries _ c (hsplit ▸ List.mem_append_left _ hc)
      refine Bool.false_ne_true ((hdep hw).symm.trans (List.any_eq_true.mpr ⟨_, hc, ?_⟩))
      rw [transToCommand_hexAddr] at hcar
      simp only [hread, transToCommand_addr, hcar.1, decide_true, Bool.and_self]
    · rcases List.mem_cons.mp hc with rfl | hc
      · rw [transToCommand_isWrite] at hw
        rw [transToCommand_isRead, hw] at hread
        cases hread
      · have hnot := hbehind c
          (List.mem_append_left _ (List.mem_filter.mpr ⟨hc, by simpa using hcar.1⟩))
        rw [hread] at hnot
        cases hnot

theorem Ordered.preservesOrdinary (hu : config.unifiedQueue = true)
    (hno : ∀ o : Controller config, o.Sound → o.pimCmds = [] → NoDiscard o) :
    PreservesOrdinary (fun (_ : Controller config) op => op.IsOrdinary)
      fun s => (s.Booked ∧ s.Kept) ∧ s.Ordered ∧ s.WritesClear where
  ordinary := fun _ _ hop => hop
  add := fun _ it _ hinv _ _ =>
    ⟨⟨hinv.1.1.addTransaction it, hinv.1.2.addTransaction it⟩,
      hinv.2.1.addTransaction hu hinv.1.1 it, hinv.2.2.addTransaction it⟩
  done := fun s clk hs hinv => by
    refine ⟨(Kept.preservesOrdinary (fun _ _ hop => hop) fun o _ => hno o).done s clk hs hinv.1, ?_,
      hinv.2.2.returnDoneTrans clk⟩
    rcases s.returnDoneTrans_cases clk with he | ⟨_, _, _, _, he⟩ <;> rw [he]
    · exact hinv.2.1
    · exact hinv.2.1.of_sublist rfl rfl fun _ => List.Sublist.refl _
  step := fun o _ _ _ ho hpim hs _ hinv hstep =>
    ⟨⟨hinv.1.1.step hs hstep, hinv.1.2.step hs hinv.1.1 (hno o ho hpim) hstep⟩,
      hinv.2.1.step hs hu hstep, hinv.2.2.step hs
        (fun _ _ hrem hw => hinv.2.1.clear hs hinv.1.2 hrem hw) hstep⟩

/-- No write is issued while a read of its address is pending, with split queues
always, and with a unified queue where dual issue discards no command. The gaps that decide it
are exact integers, which are those of the source as long as they are values of `int`. -/
theorem write_waits_for_reads (config : Config)
    (hcond : config.unifiedQueue = false ∨ config.enableHbmDualCmd = false ∨ config.ColumnsSpaced)
    {ops : List Op} {s : Controller config} (h : (ordinarySystem config).Run ops s) (clk : Nat)
    (cmd : Command) (waiting : List Transaction) (hissued : .issued clk cmd waiting ∈ s.log)
    (hwrite : cmd.isWrite = true) : waiting = [] := by
  cases hu : config.unifiedQueue with
  | false =>
      have hinit : QueuedClear ({} : Controller config) := fun _ _ hcmd => by cases hcmd
      obtain ⟨_, _, _, _, hclear⟩ := ordinary_invariant h ⟨Booked.init, hinit, WritesClear.init⟩
        (QueuedClear.preservesOrdinary hu)
      exact hclear clk cmd waiting hissued hwrite
  | true =>
      have hno : ∀ o : Controller config, o.Sound → o.pimCmds = [] → NoDiscard o := by
        intro o ho hpim
        rcases hcond with hc | hc | hc
        · rw [hu] at hc
          cases hc
        · exact noDiscard_of_single hc hpim
        · exact noDiscard_of_spaced hc ho hpim
      have hinit : Ordered ({} : Controller config) := ⟨rfl, rfl, fun _ => List.Pairwise.nil⟩
      obtain ⟨_, _, _, _, hclear⟩ := ordinary_invariant h
        ⟨⟨Booked.init, Kept.init⟩, hinit, WritesClear.init⟩ (Ordered.preservesOrdinary hu hno)
      exact hclear clk cmd waiting hissued hwrite

/-- A write behind a read of its address in a unified queue. -/
theorem write_waits_for_reads_unified :
    ∃ s : Controller { Config.defaults with unifiedQueue := true }, ∃ ops clk, ∃ cmd : Command,
      (ordinarySystem _).Run ops s ∧ cmd.isWrite = true ∧ .issued clk cmd [] ∈ s.log := by
  have hsome : ((replay { Config.defaults with unifiedQueue := true }
      ([.add ⟨0, false, 0, 0⟩, .add ⟨0, true, 0, 0⟩] ++ List.replicate 18 .tick)).map fun s =>
      s.log.any fun e => e.serves 0 true) = some true := by
    decide +kernel
  obtain ⟨s, hs, hany⟩ := Option.map_eq_some_iff.mp hsome
  have hrun := ordinary_of_replay hs (by decide)
  obtain ⟨e, he, hserve⟩ := List.any_eq_true.mp hany
  cases e with
  | issued clk cmd waiting =>
      have hwrite : cmd.isWrite = true := by
        rw [Event.serves, Command.carries, Bool.and_eq_true] at hserve
        exact hserve.2
      have hnil := write_waits_for_reads _ (Or.inr (Or.inl rfl)) hrun clk cmd waiting he hwrite
      exact ⟨s, _, clk, cmd, hrun, hwrite, hnil ▸ he⟩
  | accepted | erased | returned => cases hserve

/-- The HBM2 device with a unified queue: a read has lost its command to a write of
the other rank, and a later write to its address is issued while it is pending. -/
theorem write_overtakes_lost_read :
    ∃ s : Controller { Config.hbm2 with unifiedQueue := true }, ∃ ops, ∃ i j k : Nat,
      ∃ r w : Transaction, ∃ clk, ∃ cmd : Command, ∃ waiting,
      (ordinarySystem _).Run ops s ∧ i < j ∧ j < k ∧
      s.log[i]? = some (.accepted r false) ∧ r.isWrite = false ∧
      s.log[j]? = some (.accepted w false) ∧ w.isWrite = true ∧ w.addr = r.addr ∧
      s.log[k]? = some (.issued clk cmd waiting) ∧ cmd.isWrite = true ∧ cmd.hexAddr = w.addr ∧
      r ∈ waiting := by
  have hsome : ((replay { Config.hbm2 with unifiedQueue := true }
      ([.add ⟨131072, true, 0, 0⟩, .add ⟨131328, true, 0, 0⟩, .add ⟨131584, true, 0, 0⟩] ++
        List.replicate 5 .tick ++ [.add ⟨163840, true, 0, 0⟩, .tick, .add ⟨0, false, 0, 0⟩] ++
        List.replicate 16 .tick ++ [.add ⟨0, true, 0, 0⟩, .tick, .tick])).map fun s =>
      (s.log[5]?, s.log[17]?, s.log[19]?)) =
      some (some (.accepted ⟨0, false, 6, 0⟩ false), some (.accepted ⟨0, true, 22, 0⟩ false),
        some (.issued 23 ⟨.write, Config.hbm2.addressMapping 0, 0⟩ [⟨0, false, 6, 0⟩])) := by
    decide +kernel
  obtain ⟨s, hs, hevents⟩ := Option.map_eq_some_iff.mp hsome
  simp only [Prod.mk.injEq] at hevents
  exact ⟨s, _, 5, 17, 19, _, _, _, _, _, ordinary_of_replay hs (by decide), by decide, by decide,
    hevents.1, rfl, hevents.2.1, rfl, rfl, hevents.2.2, rfl, rfl, List.mem_cons_self ..⟩

/-! ## Reads behind writes -/

/-- The operations without PIM that let a read find the pending writes to its
location: those have its very address. -/
def aliasFree (s : Controller config) : Op → Bool
  | .add it => it.isWrite || s.pendingWrQ.all fun w =>
      decide (config.addressMapping w.addr = config.addressMapping it.addr → w.addr = it.addr)
  | .tick | .done _ => true
  | _ => false

/-- Every read that was accepted while a write to its location waited has been
forwarded. -/
def ReadsForwarded (s : Controller config) : Prop :=
  ∀ before r forwarded, before ++ [.accepted r forwarded] <+: s.log → r.isWrite = false →
    ∀ addr, config.addressMapping addr = config.addressMapping r.addr →
      Event.Unserved addr true before → forwarded = true

theorem ReadsForwarded.init : ReadsForwarded ({} : Controller config) := by
  intro before r forwarded hprefix
  have hnil := List.prefix_nil.mp hprefix
  simp at hnil

theorem ReadsForwarded.append (h : s.ReadsForwarded) {e : Event} (hlog : s'.log = s.log ++ [e])
    (hnew : ∀ r forwarded, e = .accepted r forwarded → r.isWrite = false →
      ∀ addr, config.addressMapping addr = config.addressMapping r.addr →
        Event.Unserved addr true s.log → forwarded = true) : s'.ReadsForwarded := by
  intro before r forwarded hprefix hread addr hloc hsince
  rw [hlog, List.prefix_concat_iff] at hprefix
  rcases hprefix with heq | hold
  · obtain ⟨rfl, he⟩ := List.append_inj' heq rfl
    exact hnew r forwarded (List.cons.inj he).1.symm hread addr hloc hsince
  · exact h before r forwarded hold hread addr hloc hsince

theorem ReadsForwarded.step (hs : s.Sound) (hf : s.ReadsForwarded) (h : Step o s s') :
    s'.ReadsForwarded := by
  have hissued : ∀ {s₁ s₂ : Controller config} {cmd : Command}, s₁.ReadsForwarded →
      Issued s₁ cmd s₂ → s₂.ReadsForwarded :=
    fun h₁ hi => h₁.append hi.log fun _ _ he => by cases he
  have hremoved : ∀ {s₁ : Controller config} {cmd : Command}, Removed s cmd s₁ →
      s₁.ReadsForwarded :=
    fun hrem => hf.append hrem.log fun _ _ he => by cases he
  have hsame : s'.log = s.log → s'.ReadsForwarded := by
    intro hlog
    rw [ReadsForwarded, hlog]
    exact hf
  cases h with
  | quiet hquiet => exact hsame hquiet.log
  | serve hrem hissue => exact hissued (hremoved hrem) (issueCommand_spec hissue)
  | discard hrem _ => exact hremoved hrem
  | answer _ hissue => exact hissued hf (issueCommand_spec hissue)
  | pim _ hissue => exact hissued hf (issueCommand_spec hissue)
  | schedule => exact hsame (scheduleTransaction_spec hs.split).log
  | advance => exact hsame rfl

theorem ReadsForwarded.addTransaction (ho : s.Outstanding) (hf : s.ReadsForwarded)
    (hfree : s.aliasFree (.add it) = true) : (s.addTransaction it).ReadsForwarded := by
  obtain ⟨forwarded, hlog, hforward, _⟩ := s.addTransaction_log it
  refine hf.append hlog fun r fwd he hread addr hloc hsince => ?_
  cases he
  -- the write that waits is pending, and has the address of the read
  have hpend : s.writesOf addr ≠ [] := ho true addr hsince
  obtain ⟨w, hw⟩ := List.exists_mem_of_ne_nil _ hpend
  rw [writesOf, List.mem_filter, decide_eq_true_eq] at hw
  have hit : it.isWrite = false := hread
  rw [aliasFree, hit, Bool.false_or, List.all_eq_true] at hfree
  have haddr := of_decide_eq_true (hfree w hw.1) (by rw [hw.2]; exact hloc)
  exact hforward.mpr ⟨hit, by rw [← haddr, hw.2]; exact hpend⟩

theorem ReadsForwarded.preserves :
    Preserves (fun (s : Controller config) op => s.aliasFree op = true)
      fun s => (s.Booked ∧ s.Outstanding) ∧ s.ReadsForwarded where
  add := fun _ it hs hinv hfree hacc =>
    ⟨(Outstanding.preserves fun _ _ => True).add _ it hs hinv.1 trivial hacc,
      hinv.2.addTransaction hinv.1.2 hfree⟩
  done := fun s clk hs hinv => by
    refine ⟨(Outstanding.preserves fun _ _ => True).done s clk hs hinv.1, ?_⟩
    rcases s.returnDoneTrans_log clk with hlog | ⟨_, _, hlog⟩
    · rw [ReadsForwarded, hlog]
      exact hinv.2
    · exact hinv.2.append hlog fun _ _ he => by cases he
  pim := fun s op s' hfree hop _ _ _ => by
    cases op <;> first | exact absurd trivial hop | cases hfree
  step := fun _ _ _ _ _ _ hs hinv hstep =>
    ⟨⟨hinv.1.1.step hs hstep, hinv.1.2.step hs hinv.1.1 hstep⟩, hinv.2.step hs hstep⟩

/-- A read that is accepted after a write to its location, before the command of the
write has been issued, is answered from the write buffer and never becomes a
command, as long as the reads that are accepted have the address of any pending
write to their location. -/
theorem read_answered_by_write (config : Config) {ops : List Op} {s : Controller config}
    (h : ((controllerSystem config).restrict fun s op => s.aliasFree op = true).Run ops s)
    {before between after : List Event} {w r : Transaction} {forwarded : Bool}
    (hlog : s.log = before ++ .accepted w false :: between ++ .accepted r forwarded :: after)
    (hw : w.isWrite = true) (hr : r.isWrite = false)
    (hloc : config.addressMapping w.addr = config.addressMapping r.addr)
    (hbetween : ∀ e ∈ between, e.serves w.addr true = false) : forwarded = true := by
  obtain ⟨_, _, hf⟩ := run_invariant h ⟨⟨Booked.init, Outstanding.init⟩, ReadsForwarded.init⟩
    ReadsForwarded.preserves
  have hprefix : (before ++ .accepted w false :: between) ++ [.accepted r forwarded] <+: s.log :=
    ⟨after, by rw [hlog, List.append_assoc, List.singleton_append]⟩
  refine hf _ r forwarded hprefix hr w.addr hloc
    ⟨before, _, between, rfl, ?_, fun e he hserve => ?_⟩
  · simp [Event.awaits, carries_iff, hw]
  · exact Bool.false_ne_true ((hbetween e he).symm.trans hserve)

/-- A read behind a write to the same address. -/
theorem read_answered_by_write_same_address :
    ∃ s : Controller .defaults, ∃ ops, ∃ forwarded,
      ((controllerSystem .defaults).restrict fun s op => s.aliasFree op = true).Run ops s ∧
      s.log = [.accepted ⟨0, true, 0, 0⟩ false, .accepted ⟨0, false, 0, 0⟩ forwarded] ∧
      forwarded = true := by
  have hsome : ((replayWhere (fun (s : Controller .defaults) op => s.aliasFree op)
      [.add ⟨0, true, 0, 0⟩, .add ⟨0, false, 0, 0⟩, .tick]).map fun s => s.log) =
      some [.accepted ⟨0, true, 0, 0⟩ false, .accepted ⟨0, false, 0, 0⟩ true] := by
    decide +kernel
  obtain ⟨s, hs, hlog⟩ := Option.map_eq_some_iff.mp hsome
  have hrun := run_of_replayWhere hs
  have hsplit : s.log = [] ++ .accepted ⟨0, true, 0, 0⟩ false :: [] ++
      .accepted ⟨0, false, 0, 0⟩ true :: [] := hlog
  exact ⟨s, _, true, hrun, hlog, read_answered_by_write .defaults hrun hsplit rfl rfl rfl
    (fun e he => by cases he)⟩

/-- Addresses 0 and 1 lie in one burst.  The read of the second is issued although
the write to the first waits. -/
theorem read_overtakes_aliased_write :
    ∃ s : Controller .defaults, ∃ ops, ∃ i j k : Nat, ∃ w r : Transaction, ∃ clk, ∃ cmd : Command,
      ∃ waiting,
      (ordinarySystem .defaults).Run ops s ∧ i < j ∧ j < k ∧
      s.log[i]? = some (.accepted w false) ∧ w.isWrite = true ∧
      s.log[j]? = some (.accepted r false) ∧ r.isWrite = false ∧
      Config.defaults.addressMapping w.addr = Config.defaults.addressMapping r.addr ∧
      s.log[k]? = some (.issued clk cmd waiting) ∧ cmd.isRead = true ∧ cmd.hexAddr = r.addr ∧
      r ∈ waiting ∧ ∀ e ∈ s.log, e.serves w.addr true = false := by
  have hsome : ((replay .defaults
      ([.add ⟨0, true, 0, 0⟩, .add ⟨1, false, 0, 0⟩] ++ List.replicate 12 .tick)).map fun s =>
      (s.log[0]?, s.log[1]?, s.log[4]?, s.log.all fun e => !e.serves 0 true)) =
      some (some (.accepted ⟨0, true, 0, 0⟩ false), some (.accepted ⟨1, false, 0, 0⟩ false),
        some (.issued 11 ⟨.read, Config.defaults.addressMapping 1, 1⟩ [⟨1, false, 0, 0⟩]),
        true) := by
    decide +kernel
  obtain ⟨s, hs, hevents⟩ := Option.map_eq_some_iff.mp hsome
  simp only [Prod.mk.injEq, List.all_eq_true, Bool.not_eq_true'] at hevents
  exact ⟨s, _, 0, 1, 4, _, _, _, _, _, ordinary_of_replay hs (by decide), by decide, by decide,
    hevents.1, rfl, hevents.2.1, rfl, by decide, hevents.2.2.1, rfl, rfl, List.mem_cons_self ..,
    hevents.2.2.2⟩

end Controller

end Dramsim
