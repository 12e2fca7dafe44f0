import Dramsim.Controller.Runs

/-!
# Scheduling from split queues

With split queues `ScheduleTransaction` takes from the read queue, or from the write
buffer while that is drained.  A write that waits for a pending read of its address
ends the search, also when the read itself is still in the read queue.

`schedule_stuck_iff` says exactly when nothing is scheduled although the command
queues are empty and a read waits.
-/

namespace Dramsim

open Library (System)

namespace Controller

variable {config : Config} {s s' : Controller config} {q : CommandQueue config}

/-! ## Draining -/

/-- The write buffer is drained, or would be from now on. -/
def Drains (s : Controller config) : Prop :=
  0 < s.writeDraining ∨ (s.writeDraining = 0 ∧
    (config.transQueueSize ≤ s.writeBuffer.length ∨
      (8 < s.writeBuffer.length ∧ s.cmdQueue.queueEmpty = true)))

/-- The write buffer is drained, and its first write waits for a pending read. -/
def WriteBlocked (s : Controller config) : Prop :=
  s.Drains ∧ ∃ it rest, s.writeBuffer = it :: rest ∧ s.readsOf it.addr ≠ []

/-- No more writes are drained than there are. -/
structure DrainBounds (s : Controller config) : Prop where
  nonneg : 0 ≤ s.writeDraining
  le_length : s.writeDraining ≤ s.writeBuffer.length

theorem DrainBounds.congr (h : s.DrainBounds) (hd : s'.writeDraining = s.writeDraining)
    (hlen : s.writeBuffer.length ≤ s'.writeBuffer.length) : s'.DrainBounds := by
  obtain ⟨hnonneg, hle⟩ := h
  exact ⟨by rw [hd]; exact hnonneg, by rw [hd]; omega⟩

theorem DrainBounds.of_scheduled (hb : s.DrainBounds) (h : Scheduled s s') : s'.DrainBounds := by
  obtain ⟨hnonneg, hle⟩ := hb
  cases h with
  | held draining hd =>
      rcases hd with rfl | rfl | rfl
      · exact ⟨hnonneg, hle⟩
      · exact ⟨Int.natCast_nonneg _, le_refl _⟩
      · exact ⟨le_refl 0, Int.natCast_nonneg _⟩
  | unified => exact ⟨hnonneg, hle⟩
  | @write before after it draining _ hl _ _ hd hpos =>
      have hlen : s.writeBuffer.length = (before ++ after).length + 1 := by
        rw [hl, List.length_append, List.length_append, List.length_cons]
        omega
      have hdrain : draining ≤ s.writeBuffer.length := by
        rcases hd with rfl | rfl
        · exact hle
        · exact le_refl _
      refine ⟨?_, ?_⟩ <;> simp only <;> omega
  | read draining _ _ _ hd =>
      rcases hd with rfl | rfl
      · exact ⟨hnonneg, hle⟩
      · exact ⟨Int.natCast_nonneg _, le_refl _⟩

theorem DrainBounds.enqueue (hb : s.DrainBounds) (it : Transaction) :
    (s.enqueue it).DrainBounds := by
  refine hb.congr (by rw [enqueue_eq]) ?_
  unfold Controller.enqueue
  split
  · exact le_refl _
  · split
    · simp
    · exact le_refl _

theorem DrainBounds.addTransaction (hb : s.DrainBounds) (it : Transaction) :
    (s.addTransaction it).DrainBounds := by
  rcases s.addTransaction_cases it with ⟨_, _, he⟩ | ⟨_, he⟩ | ⟨_, _, _, he⟩ | ⟨_, _, _, he⟩ <;>
    rw [he]
  · refine DrainBounds.congr (s := Controller.enqueue _ _) ?_ rfl (le_refl _)
    apply DrainBounds.enqueue
    exact hb.congr rfl (le_refl _)
  · exact hb.congr rfl (le_refl _)
  · apply DrainBounds.enqueue
    exact hb.congr rfl (le_refl _)
  · exact hb.congr rfl (le_refl _)

theorem DrainBounds.step {o : Controller config} (hs : s.Sound) (hb : s.DrainBounds)
    (h : Step o s s') : s'.DrainBounds := by
  have hissued : ∀ {s₁ s₂ : Controller config} {cmd : Command}, s₁.DrainBounds →
      Issued s₁ cmd s₂ → s₂.DrainBounds :=
    fun hb₁ h₁ => hb₁.congr h₁.writeDraining (le_of_eq (by rw [h₁.writeBuffer]))
  have hremoved : ∀ {s₁ : Controller config} {cmd : Command}, Removed s cmd s₁ →
      s₁.DrainBounds := by
    intro s₁ cmd hrem
    rw [(hrem.spec hs).2.2]
    exact hb.congr rfl (le_refl _)
  cases h with
  | quiet hquiet => exact hb.congr hquiet.writeDraining (le_of_eq (by rw [hquiet.writeBuffer]))
  | serve hrem hissue => exact hissued (hremoved hrem) (issueCommand_spec hissue)
  | discard hrem _ => exact hremoved hrem
  | answer _ hissue => exact hissued hb (issueCommand_spec hissue)
  | pim _ hissue => exact hissued hb (issueCommand_spec hissue)
  | schedule => exact hb.of_scheduled (scheduleTransaction_spec hs.split)
  | advance => exact hb.congr rfl (le_refl _)

theorem DrainBounds.preserves (cond : Controller config → Op → Prop) :
    Preserves cond DrainBounds where
  add := fun _ it _ hb _ _ => hb.addTransaction it
  done := fun s clk _ hb => by
    rcases s.returnDoneTrans_cases clk with he | ⟨_, _, _, _, he⟩ <;> rw [he]
    · exact hb
    · exact hb.congr rfl (le_refl _)
  pim := fun s op s' _ _ _ hb hpim => by
    rw [hpim]
    exact hb.congr rfl (le_refl _)
  step := fun _ _ _ _ _ _ hs hb hstep => hb.step hs hstep

/-- The write buffer is chosen exactly while it is drained. -/
theorem startDraining_pos_iff (hb : s.DrainBounds) (hu : config.unifiedQueue = false) :
    0 < s.startDraining.writeDraining ↔ s.Drains ∧ s.writeBuffer ≠ [] := by
  obtain ⟨hnonneg, hle⟩ := hb
  rw [← List.length_pos_iff]
  unfold startDraining Drains
  by_cases hzero : s.writeDraining = 0
  · rw [if_pos ⟨hzero, by rw [hu]; rfl⟩]
    split
    · rename_i hstart
      simp only [hzero, true_and, hstart, or_true]
      omega
    · rename_i hstart
      simp only [hzero, true_and, hstart, or_false]
      omega
  · rw [if_neg (fun hc => hzero hc.1)]
    have hpos : 0 < s.writeDraining := by omega
    simp only [hpos, true_or, true_and, true_iff]
    omega

/-! ## With empty command queues -/

theorem willAcceptCommand_of_empty (h : q.queueEmpty = true) {addr : Address}
    (hbank : config.HasBank addr.bankIndex) :
    q.willAcceptCommand addr = decide (0 < config.cmdQueueSize) := by
  have hnil := List.all_eq_true.mp h _ (List.mem_range.mpr (Config.queueOf_lt hbank))
  rw [CommandQueue.willAcceptCommand, List.isEmpty_iff.mp hnil]
  rfl

/-- A command that is accepted fills its queue. -/
theorem queueEmpty_addCommand {it : Transaction}
    (h : q.willAcceptCommand (transToCommand config it).addr = true) :
    (q.addCommand (transToCommand config it)).queueEmpty = false := by
  rw [Bool.eq_false_iff]
  intro hempty
  have hlt : config.queueOf (transToCommand config it).addr < config.numQueues :=
    Config.queueOf_lt (config.hasBank_addressMapping it.addr)
  have hnil := List.all_eq_true.mp hempty _ (List.mem_range.mpr hlt)
  rw [CommandQueue.addCommand_queues h, Function.update_self] at hnil
  simp at hnil

/-- Empty command queues are all alike: they take the first transaction, or none. -/
theorem firstAccepted_of_empty (h : q.queueEmpty = true) (l : List Transaction) :
    firstAccepted q [] l =
      if config.cmdQueueSize = 0 then none else l.head?.map fun it => ([], it, l.tail) := by
  have hacc : ∀ it : Transaction, q.willAcceptCommand (transToCommand config it).addr =
      decide (0 < config.cmdQueueSize) := fun it =>
    willAcceptCommand_of_empty h (config.hasBank_addressMapping it.addr)
  by_cases hsize : config.cmdQueueSize = 0
  · have hnone : ∀ before l, firstAccepted q before l = none := by
      intro before l
      induction l generalizing before with
      | nil => rfl
      | cons it rest ih => rw [firstAccepted, hacc, hsize, if_neg (by simp), ih]
    rw [if_pos hsize, hnone]
  · rw [if_neg hsize]
    cases l with
    | nil => rfl
    | cons it rest =>
        rw [firstAccepted, hacc, if_pos (by simpa using Nat.pos_of_ne_zero hsize)]
        rfl

theorem scheduledQueue_of_drains (hb : s.DrainBounds) (hu : config.unifiedQueue = false)
    (h : s.Drains ∧ s.writeBuffer ≠ []) : s.startDraining.scheduledQueue = s.writeBuffer := by
  obtain ⟨draining, _, hstart⟩ := s.startDraining_eq
  rw [scheduledQueue, hu, if_neg Bool.false_ne_true,
    if_pos ((startDraining_pos_iff hb hu).mpr h), hstart]

theorem scheduledQueue_of_not_drains (hb : s.DrainBounds) (hu : config.unifiedQueue = false)
    (h : ¬ (s.Drains ∧ s.writeBuffer ≠ [])) : s.startDraining.scheduledQueue = s.readQueue := by
  obtain ⟨draining, _, hstart⟩ := s.startDraining_eq
  rw [scheduledQueue, hu, if_neg Bool.false_ne_true,
    if_neg (fun hpos => h ((startDraining_pos_iff hb hu).mp hpos)), hstart]

/-- A blocked write holds up the scheduler, which only touches its counter. -/
theorem scheduleTransaction_of_blocked (hs : s.Sound) (hb : s.DrainBounds)
    (hu : config.unifiedQueue = false) (hempty : s.cmdQueue.queueEmpty = true)
    (h : s.WriteBlocked) :
    ∃ draining : Int, s.scheduleTransaction = { s with writeDraining := draining } := by
  obtain ⟨hdrain, it, rest, hbuf, hne⟩ := h
  obtain ⟨draining, _, hstart⟩ := s.startDraining_eq
  have hfirst := firstAccepted_of_empty hempty s.startDraining.scheduledQueue
  by_cases hsize : config.cmdQueueSize = 0
  · rw [if_pos hsize] at hfirst
    rw [scheduleTransaction_of_none hfirst, hstart]
    exact ⟨draining, rfl⟩
  · have hq : s.startDraining.scheduledQueue = it :: rest :=
      (scheduledQueue_of_drains hb hu ⟨hdrain, hbuf ▸ List.cons_ne_nil _ _⟩).trans hbuf
    have hfound : firstAccepted s.cmdQueue [] s.startDraining.scheduledQueue =
        some ([], it, rest) := by
      rw [hfirst, if_neg hsize, hq]
      rfl
    have hisWrite : it.isWrite = true :=
      hs.split.writes it (by rw [hbuf]; exact List.mem_cons_self ..)
    rw [scheduleTransaction_of_some hfound, hu, hisWrite]
    simp only [Bool.not_false, Bool.and_self, if_true]
    rw [if_pos (List.length_pos_iff.mpr hne), hstart]
    exact ⟨0, rfl⟩

/-- A read that waits is enough to get a transaction moved, unless a write is
blocked. -/
theorem scheduleTransaction_of_not_blocked (hs : s.Sound) (hb : s.DrainBounds)
    (hu : config.unifiedQueue = false) (hempty : s.cmdQueue.queueEmpty = true)
    (hread : s.readQueue ≠ []) (hsize : config.cmdQueueSize ≠ 0) (h : ¬ s.WriteBlocked) :
    s.scheduleTransaction.cmdQueue.queueEmpty = false := by
  have hmoved : ∀ it : Transaction,
      (s.cmdQueue.addCommand (transToCommand config it)).queueEmpty = false := by
    intro it
    apply queueEmpty_addCommand
    rw [transToCommand_addr,
      willAcceptCommand_of_empty hempty (config.hasBank_addressMapping it.addr)]
    simpa using Nat.pos_of_ne_zero hsize
  have hfound : ∀ it rest, s.startDraining.scheduledQueue = it :: rest →
      firstAccepted s.cmdQueue [] s.startDraining.scheduledQueue = some ([], it, rest) := by
    intro it rest hq
    rw [firstAccepted_of_empty hempty, if_neg hsize, hq]
    rfl
  by_cases hdrain : s.Drains ∧ s.writeBuffer ≠ []
  · obtain ⟨it, rest, hbuf⟩ := List.exists_cons_of_ne_nil hdrain.2
    have hq := (scheduledQueue_of_drains hb hu hdrain).trans hbuf
    have hnil : s.readsOf it.addr = [] := by
      by_contra hne
      exact h ⟨hdrain.1, it, rest, hbuf, hne⟩
    have hisWrite : it.isWrite = true :=
      hs.split.writes it (by rw [hbuf]; exact List.mem_cons_self ..)
    rw [scheduleTransaction_of_some (hfound it rest hq), hu, hisWrite]
    simp [hmoved, hnil]
  · obtain ⟨it, rest, hrd⟩ := List.exists_cons_of_ne_nil hread
    have hq := (scheduledQueue_of_not_drains hb hu hdrain).trans hrd
    have hisRead : it.isWrite = false :=
      hs.split.reads it (by rw [hrd]; exact List.mem_cons_self ..)
    rw [scheduleTransaction_of_some (hfound it rest hq), hu, hisRead]
    simp [hmoved]

/-- When nothing is scheduled although all command queues are empty and a read
waits. -/
theorem schedule_stuck_iff (hs : s.Sound) (hb : s.DrainBounds) (hu : config.unifiedQueue = false)
    (hempty : s.cmdQueue.queueEmpty = true) (hread : s.readQueue ≠ []) :
    s.scheduleTransaction.cmdQueue.queueEmpty = true ↔
      config.cmdQueueSize = 0 ∨ s.WriteBlocked := by
  constructor
  · intro hstuck
    by_contra hnot
    rw [not_or] at hnot
    rw [scheduleTransaction_of_not_blocked hs hb hu hempty hread hnot.1 hnot.2] at hstuck
    cases hstuck
  · rintro (hsize | hblocked)
    · have hnone := firstAccepted_of_empty hempty s.startDraining.scheduledQueue
      rw [if_pos hsize] at hnone
      rw [scheduleTransaction_of_none hnone, startDraining_cmdQueue]
      exact hempty
    · obtain ⟨draining, he⟩ := scheduleTransaction_of_blocked hs hb hu hempty hblocked
      rw [he]
      exact hempty

/-! ## Every tick of a run -/

theorem DrainBounds.init : DrainBounds ({} : Controller config) := ⟨le_refl 0, le_refl 0⟩

/-- In every tick of a controller with split queues that finds its command queues
empty and a read waiting, a transaction enters a command queue, unless the first
write of a buffer that is drained waits for a pending read, or no command fits
into a queue at all. -/
theorem split_schedule_moves_iff (config : Config) (hu : config.unifiedQueue = false)
    {ops : List Op} {s s' : Controller config} (h : (ordinarySystem config).Run ops s)
    (hs' : s.beforeSchedule = .ok s') (hempty : s'.cmdQueue.queueEmpty = true)
    (hread : s'.readQueue ≠ []) :
    s'.scheduleTransaction.cmdQueue.queueEmpty = false ↔
      0 < config.cmdQueueSize ∧ ¬ s'.WriteBlocked := by
  obtain ⟨hs, hb⟩ := run_invariant h DrainBounds.init (DrainBounds.preserves _)
  obtain ⟨hsound, hbounds⟩ := (DrainBounds.preserves fun _ _ => True).tick trivial hs hb
    (beforeSchedule_proceeds hs.requests) hs'
  rw [← Bool.not_eq_true, schedule_stuck_iff hsound hbounds hu hempty hread, not_or,
    Nat.pos_iff_ne_zero]

/-- A read that waits alone is scheduled. -/
theorem split_schedule_moves_single_read :
    ∃ s s' : Controller .defaults, ∃ ops, (ordinarySystem .defaults).Run ops s ∧
      s.beforeSchedule = .ok s' ∧ s'.cmdQueue.queueEmpty = true ∧ s'.readQueue ≠ [] ∧
      (s'.scheduleTransaction.cmdQueue.queueEmpty = false ↔
        0 < Config.defaults.cmdQueueSize ∧ ¬ s'.WriteBlocked) := by
  have hsome : ((replay .defaults [.add ⟨0, false, 0, 0⟩]).bind fun s =>
      s.beforeSchedule.toOption.map fun s' => (s'.cmdQueue.queueEmpty, s'.readQueue)) =
      some (true, [⟨0, false, 0, 0⟩]) := by
    decide +kernel
  obtain ⟨s, hs, htick⟩ := Option.bind_eq_some_iff.mp hsome
  obtain ⟨s', hs', hresult⟩ := Option.map_eq_some_iff.mp htick
  have hok := Library.toOption_eq_some.mp hs'
  simp only [Prod.mk.injEq] at hresult
  have hrun := ordinary_of_replay hs (by decide)
  have hread : s'.readQueue ≠ [] := by
    rw [hresult.2]
    exact List.cons_ne_nil _ _
  exact ⟨s, s', _, hrun, hok, hresult.1, hread,
    split_schedule_moves_iff .defaults rfl hrun hok hresult.1 hread⟩

/-- A read, a write to its address and eight more writes: the first tick drains the
write buffer, whose first write waits for the read, and schedules nothing. -/
theorem split_schedule_stuck_read_then_write :
    ∃ s s' : Controller .defaults, ∃ ops, (ordinarySystem .defaults).Run ops s ∧
      Config.defaults.unifiedQueue = false ∧ s.beforeSchedule = .ok s' ∧
      s'.cmdQueue.queueEmpty = true ∧ s'.readQueue ≠ [] ∧
      s'.scheduleTransaction.cmdQueue.queueEmpty = true := by
  have hsome : ((replay .defaults
      (.add ⟨0, false, 0, 0⟩ :: (List.range 9).map fun i =>
        .add ⟨64 * i, true, 0, 0⟩)).bind fun s =>
      s.beforeSchedule.toOption.map fun s' => (s'.cmdQueue.queueEmpty, s'.readQueue,
        s'.scheduleTransaction.cmdQueue.queueEmpty)) =
      some (true, [⟨0, false, 0, 0⟩], true) := by
    decide +kernel
  obtain ⟨s, hs, htick⟩ := Option.bind_eq_some_iff.mp hsome
  obtain ⟨s', hs', hresult⟩ := Option.map_eq_some_iff.mp htick
  simp only [Prod.mk.injEq] at hresult
  refine ⟨s, s', _, ordinary_of_replay hs (by decide), rfl, Library.toOption_eq_some.mp hs',
    hresult.1, ?_, hresult.2.2⟩
  rw [hresult.2.1]
  exact List.cons_ne_nil _ _

end Controller

end Dramsim
