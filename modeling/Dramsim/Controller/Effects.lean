import Dramsim.Channel.Runs
import Dramsim.Model.Controller
import Dramsim.Queue.Selection

/-!
# Effects of the operations of a controller

One specification for each operation, so that later modules never unfold it.
`Issued` is what `issueCommand` does, `addTransaction_cases` the four ways in which
a transaction is taken, and `Scheduled` the ways in which `scheduleTransaction`
moves one into a command queue.
-/

namespace Dramsim

/-! ## Commands and transactions of an address -/

/-- A command for a read or for a write of an address. -/
def Command.carries (addr : Nat) (isWrite : Bool) (cmd : Command) : Bool :=
  cmd.hexAddr = addr && (if isWrite then cmd.isWrite else cmd.isRead)

/-- A read or a write of an address. -/
def Transaction.carries (addr : Nat) (isWrite : Bool) (trans : Transaction) : Bool :=
  trans.addr = addr && trans.isWrite = isWrite

/-- The command that an event issues, with its clock. -/
def Event.command? : Event → Option (Nat × Command)
  | .issued clk cmd _ => some (clk, cmd)
  | _ => none

namespace Controller

variable {config : Config} {s s' : Controller config} {cmd : Command}

theorem columnType_isReadWrite (config : Config) (isWrite : Bool) :
    (columnType config isWrite).isReadWrite = true := by
  unfold columnType
  cases config.rowBufPolicy <;> cases isWrite <;> rfl

@[simp] theorem transToCommand_isWrite (trans : Transaction) :
    (transToCommand config trans).isWrite = trans.isWrite := by
  unfold transToCommand Command.isWrite columnType
  cases config.rowBufPolicy <;> cases trans.isWrite <;> rfl

@[simp] theorem transToCommand_isRead (trans : Transaction) :
    (transToCommand config trans).isRead = !trans.isWrite := by
  unfold transToCommand Command.isRead columnType
  cases config.rowBufPolicy <;> cases trans.isWrite <;> rfl

@[simp] theorem transToCommand_hexAddr (trans : Transaction) :
    (transToCommand config trans).hexAddr = trans.addr := rfl

@[simp] theorem transToCommand_addr (trans : Transaction) :
    (transToCommand config trans).addr = config.addressMapping trans.addr := rfl

theorem transToCommand_keepsRow {trans : Transaction} :
    (transToCommand config trans).cmdType.keepsRow = true ↔ config.rowBufPolicy = .openPage := by
  unfold transToCommand columnType
  cases config.rowBufPolicy <;> cases trans.isWrite <;> simp [CommandType.keepsRow]

theorem hasBank_transToCommand (trans : Transaction) :
    config.HasBank (transToCommand config trans).bankIndex :=
  config.hasBank_addressMapping trans.addr

@[simp] theorem transToCommand_carries (addr : Nat) (isWrite : Bool) (trans : Transaction) :
    (transToCommand config trans).carries addr isWrite = trans.carries addr isWrite := by
  unfold Command.carries Transaction.carries
  cases isWrite <;> cases htrans : trans.isWrite <;> simp [htrans] <;> rfl

/-! ## Issuing -/

/-- The loop of `IssueCommand` returns the pending reads of the address and leaves
the others. -/
theorem returnReads_eq (addr completeCycle : Nat) :
    ∀ (n : Nat) (pending returned : List Transaction),
      (pending.filter fun trans => trans.addr = addr).length = n →
      returnReads addr completeCycle n (pending, returned) =
        (pending.filter fun trans => trans.addr ≠ addr,
          returned ++ (pending.filter fun trans => trans.addr = addr).map fun trans =>
            { trans with completeCycle := completeCycle })
  | 0, pending, returned, hlen => by
      have hnil := List.length_eq_zero_iff.mp hlen
      have hall : pending.filter (fun trans => trans.addr ≠ addr) = pending := by
        rw [List.filter_eq_self]
        intro trans htrans
        have hne := List.filter_eq_nil_iff.mp hnil trans htrans
        simpa using hne
      rw [hnil, hall, returnReads]
      simp
  | n + 1, pending, returned, hlen => by
      have hne : ∃ trans ∈ pending, (decide (trans.addr = addr)) = true := by
        by_contra hnone
        push Not at hnone
        rw [List.filter_eq_nil_iff.mpr (fun trans ht => by simpa using hnone trans ht)] at hlen
        cases hlen
      obtain ⟨trans, htrans, hp⟩ := hne
      obtain ⟨found, before, after, hbefore, hfound, hsplit, herase⟩ :=
        List.exists_of_eraseP (p := fun trans => decide (trans.addr = addr)) htrans hp
      have hfind : pending.find? (fun trans => decide (trans.addr = addr)) = some found := by
        rw [hsplit, List.find?_append, List.find?_eq_none.mpr hbefore]
        simp [hfound]
      have hkeep : before.filter (fun trans => decide (trans.addr = addr)) = [] :=
        List.filter_eq_nil_iff.mpr hbefore
      have haddr : found.addr = addr := by simpa using hfound
      have hrest :
          ((before ++ after).filter fun trans => decide (trans.addr = addr)).length = n := by
        rw [List.filter_append, hkeep, List.nil_append]
        rw [hsplit, List.filter_append, hkeep, List.nil_append] at hlen
        simpa [haddr] using hlen
      rw [returnReads, hfind]
      simp only
      rw [herase, returnReads_eq addr completeCycle n _ _ hrest, hsplit]
      simp [List.filter_append, hkeep, haddr]

/-- The effect of `issueCommand`. -/
structure Issued (s : Controller config) (cmd : Command) (s' : Controller config) : Prop where
  channel : s.channelState.updateTimingAndStates config (Timing.ofConfig config) cmd s.clk =
    .ok s'.channelState
  log : s'.log = s.log ++ [.issued s.clk cmd (s.readsOf cmd.hexAddr)]
  /-- A read answers all pending reads of its address. -/
  reads : cmd.isRead = true →
    s'.pendingRdQ = s.pendingRdQ.filter (fun trans => trans.addr ≠ cmd.hexAddr) ∧
    s'.returnQueue = s.returnQueue ++ (s.readsOf cmd.hexAddr).map fun trans =>
      { trans with completeCycle := addClk s.clk config.readDelay }
  noReads : cmd.isRead = false → s'.pendingRdQ = s.pendingRdQ ∧ s'.returnQueue = s.returnQueue
  /-- A write retires one pending write of its address. -/
  writes : cmd.isWrite = true → s.writesOf cmd.hexAddr ≠ [] ∧
    s'.pendingWrQ = s.pendingWrQ.eraseP (fun trans => trans.addr = cmd.hexAddr)
  noWrites : cmd.isWrite = false → s'.pendingWrQ = s.pendingWrQ
  clk : s'.clk = s.clk
  cmdQueue : s'.cmdQueue = s.cmdQueue
  unifiedQueue : s'.unifiedQueue = s.unifiedQueue
  readQueue : s'.readQueue = s.readQueue
  writeBuffer : s'.writeBuffer = s.writeBuffer
  writeDraining : s'.writeDraining = s.writeDraining
  rdWCmds : s'.rdWCmds = s.rdWCmds
  rdInCmds : s'.rdInCmds = s.rdInCmds
  wrCmds : s'.wrCmds = s.wrCmds

theorem completePending_cases (h : s.completePending cmd = .ok s') :
    (cmd.isRead = true ∧ s' = { s with
      pendingRdQ := s.pendingRdQ.filter fun trans => trans.addr ≠ cmd.hexAddr
      returnQueue := s.returnQueue ++ (s.readsOf cmd.hexAddr).map fun trans =>
        { trans with completeCycle := addClk s.clk config.readDelay } }) ∨
    (cmd.isRead = false ∧ cmd.isWrite = true ∧ s.writesOf cmd.hexAddr ≠ [] ∧ s' = { s with
      pendingWrQ := s.pendingWrQ.eraseP fun trans => trans.addr = cmd.hexAddr }) ∨
    (cmd.isRead = false ∧ cmd.isWrite = false ∧ s' = s) := by
  unfold completePending at h
  split at h
  · rename_i hread
    dsimp only at h
    split at h
    · cases h
    · refine Or.inl ⟨hread, ?_⟩
      cases h
      rw [readsOf, returnReads_eq _ _ _ _ _ rfl]
  · rename_i hread
    rw [Bool.not_eq_true] at hread
    split at h
    · rename_i hwrite
      split at h
      · cases h
      · rename_i hlen
        cases h
        exact Or.inr (Or.inl ⟨hread, hwrite, fun hnil => hlen (by rw [hnil]; rfl), rfl⟩)
    · rename_i hwrite
      cases h
      exact Or.inr (Or.inr ⟨hread, by simpa using hwrite, rfl⟩)

theorem issueCommand_spec (h : s.issueCommand cmd = .ok s') : Issued s cmd s' := by
  obtain ⟨s₁, hpend, h⟩ := Library.bind_eq_ok.mp h
  obtain ⟨channel, hchannel, h⟩ := Library.bind_eq_ok.mp h
  cases h
  rcases completePending_cases hpend with ⟨hread, rfl⟩ | ⟨hread, hwrite, hne, rfl⟩ |
    ⟨hread, hwrite, rfl⟩
  · have hwrite := Command.not_isWrite_of_isRead hread
    refine ⟨hchannel, rfl, fun _ => ⟨rfl, rfl⟩, fun hnot => ?_, fun hw => ?_, fun _ => rfl, rfl,
      rfl, rfl, rfl, rfl, rfl, rfl, rfl, rfl⟩
    · rw [hread] at hnot
      cases hnot
    · rw [hwrite] at hw
      cases hw
  · refine ⟨hchannel, rfl, fun hr => ?_, fun _ => ⟨rfl, rfl⟩, fun _ => ⟨hne, rfl⟩, fun hnot => ?_,
      rfl, rfl, rfl, rfl, rfl, rfl, rfl, rfl, rfl⟩
    · rw [hread] at hr
      cases hr
    · rw [hwrite] at hnot
      cases hnot
  · refine ⟨hchannel, rfl, fun hr => ?_, fun _ => ⟨rfl, rfl⟩, fun hw => ?_, fun _ => rfl, rfl, rfl,
      rfl, rfl, rfl, rfl, rfl, rfl, rfl⟩
    · rw [hread] at hr
      cases hr
    · rw [hwrite] at hw
      cases hw

/-- The commands that have been issued, oldest first. -/
def issuedCommands (s : Controller config) : List (Nat × Command) := s.log.filterMap Event.command?

theorem Issued.issuedCommands (h : Issued s cmd s') :
    s'.issuedCommands = s.issuedCommands ++ [(s.clk, cmd)] := by
  rw [Controller.issuedCommands, h.log, List.filterMap_append]
  rfl

/-- How `issueCommand` can end the process. -/
theorem issueCommand_error {e : Exit} (h : s.issueCommand cmd = .error e) :
    e = .illegalUpdate ∨ (cmd.isRead = true ∧ s.readsOf cmd.hexAddr = []) ∨
      (cmd.isWrite = true ∧ s.writesOf cmd.hexAddr = []) := by
  rcases Library.bind_eq_error.mp h with h | ⟨s₁, _, h⟩
  · unfold completePending at h
    split at h
    · rename_i hread
      dsimp only at h
      split at h
      · rename_i hlen
        rw [Bool.and_eq_true, decide_eq_true_eq, List.length_eq_zero_iff] at hlen
        exact Or.inr (Or.inl ⟨hread, hlen.2⟩)
      · cases h
    · split at h
      · rename_i hwrite
        split at h
        · rename_i hlen
          exact Or.inr (Or.inr ⟨hwrite, List.length_eq_zero_iff.mp hlen⟩)
        · cases h
      · cases h
  · rcases Library.bind_eq_error.mp h with h | ⟨_, _, h⟩
    · exact Or.inl (ChannelState.updateTimingAndStates_error h)
    · cases h

/-! ## Accepting and returning -/

/-- The transactions that wait for a command queue. -/
def waiting (s : Controller config) : List Transaction :=
  s.unifiedQueue ++ s.readQueue ++ s.writeBuffer

theorem enqueue_eq (s : Controller config) (trans : Transaction) :
    s.enqueue trans =
      { s with
        unifiedQueue := (s.enqueue trans).unifiedQueue
        readQueue := (s.enqueue trans).readQueue
        writeBuffer := (s.enqueue trans).writeBuffer } := by
  unfold enqueue
  split
  · rfl
  · split <;> rfl

/-- A queued transaction waits behind all others of its queue. -/
theorem waiting_enqueue_perm (s : Controller config) (trans : Transaction) :
    (s.enqueue trans).waiting.Perm (trans :: s.waiting) := by
  unfold enqueue waiting
  split
  · simp only [List.append_assoc]
    exact List.perm_middle
  · split
    · rw [← List.append_assoc]
      exact List.perm_append_singleton _ _
    · have hmid : (s.readQueue ++ trans :: s.writeBuffer).Perm
          (trans :: (s.readQueue ++ s.writeBuffer)) := List.perm_middle
      simp only [List.append_assoc]
      exact (hmid.append_left s.unifiedQueue).trans List.perm_middle

/-- A transaction is queued, merged with or forwarded from a pending write, or
merged with a pending read. -/
theorem addTransaction_cases (s : Controller config) (trans : Transaction) :
    let it := { trans with addedCycle := s.clk }
    (trans.isWrite = true ∧ s.writesOf trans.addr = [] ∧ s.addTransaction trans =
      (((s.record (.accepted it false)).insertWrite it).enqueue it).completeNext it) ∨
    (s.writesOf trans.addr ≠ [] ∧ s.addTransaction trans =
      (s.record (.accepted it (!trans.isWrite))).completeNext it) ∨
    (trans.isWrite = false ∧ s.writesOf trans.addr = [] ∧ s.readsOf trans.addr = [] ∧
      s.addTransaction trans =
        ((s.record (.accepted it false)).insertRead it).enqueue it) ∨
    (trans.isWrite = false ∧ s.writesOf trans.addr = [] ∧ s.readsOf trans.addr ≠ [] ∧
      s.addTransaction trans = (s.record (.accepted it false)).insertRead it) := by
  intro it
  have hlen : (s.writesOf trans.addr).length = 0 ↔ s.writesOf trans.addr = [] :=
    List.length_eq_zero_iff
  have hreads : (((s.record (.accepted it false)).insertRead it).readsOf trans.addr).length = 1 ↔
      s.readsOf trans.addr = [] := by
    rw [readsOf, insertRead, List.filter_append, List.length_append]
    simp [it, readsOf, record]
  unfold addTransaction
  cases hw : trans.isWrite with
  | true =>
      by_cases hnil : s.writesOf trans.addr = []
      · refine Or.inl ⟨rfl, hnil, ?_⟩
        simp only [if_true]
        rw [if_pos (show ((s.record _).writesOf trans.addr).length = 0 from hlen.mpr hnil)]
        simp [it, hw]
      · refine Or.inr (Or.inl ⟨hnil, ?_⟩)
        simp only [if_true]
        rw [if_neg (show ¬ ((s.record _).writesOf trans.addr).length = 0 from
          fun h => hnil (hlen.mp h))]
        simp [it, hw]
  | false =>
      simp only [if_false, Bool.false_eq_true]
      have hit : (⟨trans.addr, false, s.clk, trans.completeCycle⟩ : Transaction) = it := by
        simp [it, hw]
      simp only [hit]
      by_cases hnil : s.writesOf trans.addr = []
      · rw [if_neg (by rw [hnil]; simp)]
        by_cases hrd : s.readsOf trans.addr = []
        · rw [if_pos (hreads.mpr hrd)]
          exact Or.inr (Or.inr (Or.inl ⟨trivial, hnil, hrd, rfl⟩))
        · rw [if_neg (fun h => hrd (hreads.mp h))]
          exact Or.inr (Or.inr (Or.inr ⟨trivial, hnil, hrd, rfl⟩))
      · rw [if_pos (List.length_pos_iff.mpr hnil)]
        exact Or.inr (Or.inl ⟨hnil, rfl⟩)

/-- Either nothing is returned, or the first transaction that is complete. -/
theorem returnDoneTrans_cases (s : Controller config) (clk : Nat) :
    s.returnDoneTrans clk = (none, s) ∨
    ∃ before it after, s.returnQueue = before ++ it :: after ∧
      s.returnDoneTrans clk = (some (it.addr, it.isWrite),
        { (s.increment (if it.isWrite then .numWritesDone else .numReadsDone)).record
            (.returned it.addr it.isWrite) with
          returnQueue := before ++ after }) := by
  unfold returnDoneTrans
  split
  · exact Or.inl rfl
  · rename_i it hfind
    have hmem := List.mem_of_find?_eq_some hfind
    have hdone := List.find?_some hfind
    obtain ⟨found, before, after, hbefore, hfound, hsplit, herase⟩ :=
      List.exists_of_eraseP (p := fun trans => decide (trans.completeCycle ≤ clk)) hmem hdone
    have hit : it = found := by
      rw [hsplit, List.find?_append, List.find?_eq_none.mpr hbefore] at hfind
      simpa [hfound] using hfind.symm
    refine Or.inr ⟨before, it, after, by rw [hit]; exact hsplit, ?_⟩
    simp only [increment, record, herase]

theorem returnDoneTrans_log (s : Controller config) (clk : Nat) :
    (s.returnDoneTrans clk).2.log = s.log ∨
      ∃ addr isWrite, (s.returnDoneTrans clk).2.log = s.log ++ [.returned addr isWrite] := by
  rcases s.returnDoneTrans_cases clk with he | ⟨_, it, _, _, he⟩
  · exact Or.inl (by rw [he])
  · refine Or.inr ⟨it.addr, it.isWrite, ?_⟩
    rw [he]
    rfl

/-- What operations on transactions leave alone: the clock, the channel, the command
queues and the PIM streams. -/
structure SameDevice (s s' : Controller config) : Prop where
  clk : s'.clk = s.clk
  channelState : s'.channelState = s.channelState
  cmdQueue : s'.cmdQueue = s.cmdQueue
  rdWCmds : s'.rdWCmds = s.rdWCmds
  rdInCmds : s'.rdInCmds = s.rdInCmds
  wrCmds : s'.wrCmds = s.wrCmds

theorem addTransaction_sameDevice (s : Controller config) (it : Transaction) :
    SameDevice s (s.addTransaction it) := by
  rcases s.addTransaction_cases it with ⟨_, _, he⟩ | ⟨_, he⟩ | ⟨_, _, _, he⟩ | ⟨_, _, _, he⟩ <;>
    rw [he]
  · rw [enqueue_eq]
    exact ⟨rfl, rfl, rfl, rfl, rfl, rfl⟩
  · exact ⟨rfl, rfl, rfl, rfl, rfl, rfl⟩
  · rw [enqueue_eq]
    exact ⟨rfl, rfl, rfl, rfl, rfl, rfl⟩
  · exact ⟨rfl, rfl, rfl, rfl, rfl, rfl⟩

theorem returnDoneTrans_sameDevice (s : Controller config) (clk : Nat) :
    SameDevice s (s.returnDoneTrans clk).2 := by
  rcases s.returnDoneTrans_cases clk with he | ⟨_, _, _, _, he⟩ <;> rw [he] <;>
    exact ⟨rfl, rfl, rfl, rfl, rfl, rfl⟩

/-! ## Scheduling -/

/-- The command queue of a transaction has room for it. -/
def Accepts (s : Controller config) (trans : Transaction) : Prop :=
  s.cmdQueue.willAcceptCommand (transToCommand config trans).addr = true

theorem firstAccepted_some {q : CommandQueue config} :
    ∀ {before l pre post : List Transaction} {it : Transaction},
      firstAccepted q before l = some (pre, it, post) →
      (∀ trans ∈ before, ¬ q.willAcceptCommand (transToCommand config trans).addr = true) →
      before ++ l = pre ++ it :: post ∧
        q.willAcceptCommand (transToCommand config it).addr = true ∧
        ∀ trans ∈ pre, ¬ q.willAcceptCommand (transToCommand config trans).addr = true
  | before, [], pre, post, it, h, hbefore => by cases h
  | before, head :: l, pre, post, it, h, hbefore => by
      rw [firstAccepted] at h
      split at h
      · rename_i hacc
        cases h
        exact ⟨rfl, hacc, hbefore⟩
      · rename_i hacc
        have hbefore' : ∀ t ∈ before ++ [head],
            ¬ q.willAcceptCommand (transToCommand config t).addr = true := by
          intro t ht
          rcases List.mem_append.mp ht with ht | ht
          · exact hbefore t ht
          · rw [List.mem_singleton.mp ht]
            exact hacc
        have hspec := firstAccepted_some h hbefore'
        rwa [List.append_assoc, List.singleton_append] at hspec

/-- The split queues hold what they are for. -/
structure SplitQueues (readQueue writeBuffer : List Transaction) : Prop where
  reads : ∀ trans ∈ readQueue, trans.isWrite = false
  writes : ∀ trans ∈ writeBuffer, trans.isWrite = true

/-- What `scheduleTransaction` does: it keeps all transactions waiting, or moves
the first one that its command queue accepts. -/
inductive Scheduled (s : Controller config) : Controller config → Prop where
  | held (draining : Int) :
      draining = s.writeDraining ∨ draining = s.writeBuffer.length ∨ draining = 0 →
      Scheduled s { s with writeDraining := draining }
  | unified {before after : List Transaction} {it : Transaction} :
      config.unifiedQueue = true → s.unifiedQueue = before ++ it :: after →
      s.Accepts it → (∀ trans ∈ before, ¬ s.Accepts trans) →
      Scheduled s
        { s with
          unifiedQueue := before ++ after
          cmdQueue := s.cmdQueue.addCommand (transToCommand config it) }
  | write {before after : List Transaction} {it : Transaction} (draining : Int) :
      config.unifiedQueue = false → s.writeBuffer = before ++ it :: after → s.Accepts it →
      s.readsOf it.addr = [] → draining = s.writeDraining ∨ draining = s.writeBuffer.length →
      0 < draining →
      Scheduled s
        { s with
          writeBuffer := before ++ after
          writeDraining := draining - 1
          cmdQueue := s.cmdQueue.addCommand (transToCommand config it) }
  | read {before after : List Transaction} {it : Transaction} (draining : Int) :
      config.unifiedQueue = false → s.readQueue = before ++ it :: after → s.Accepts it →
      draining = s.writeDraining ∨ draining = s.writeBuffer.length →
      Scheduled s
        { s with
          readQueue := before ++ after
          writeDraining := draining
          cmdQueue := s.cmdQueue.addCommand (transToCommand config it) }

theorem Scheduled.pendingRdQ (h : Scheduled s s') : s'.pendingRdQ = s.pendingRdQ := by
  cases h <;> rfl

theorem Scheduled.pendingWrQ (h : Scheduled s s') : s'.pendingWrQ = s.pendingWrQ := by
  cases h <;> rfl

theorem Scheduled.channelState (h : Scheduled s s') : s'.channelState = s.channelState := by
  cases h <;> rfl

theorem Scheduled.clk (h : Scheduled s s') : s'.clk = s.clk := by
  cases h <;> rfl

theorem Scheduled.log (h : Scheduled s s') : s'.log = s.log := by
  cases h <;> rfl

theorem Scheduled.returnQueue (h : Scheduled s s') : s'.returnQueue = s.returnQueue := by
  cases h <;> rfl

/-- Only the draining counter is touched at the start. -/
theorem startDraining_eq (s : Controller config) :
    ∃ draining : Int, (draining = s.writeDraining ∨ draining = s.writeBuffer.length) ∧
      s.startDraining = { s with writeDraining := draining } := by
  unfold startDraining
  split
  · split
    · exact ⟨_, Or.inr rfl, rfl⟩
    · exact ⟨_, Or.inl rfl, rfl⟩
  · exact ⟨_, Or.inl rfl, rfl⟩

theorem startDraining_cmdQueue (s : Controller config) : s.startDraining.cmdQueue = s.cmdQueue := by
  obtain ⟨draining, _, hstart⟩ := s.startDraining_eq
  rw [hstart]

theorem startDraining_readsOf (s : Controller config) (addr : Nat) :
    s.startDraining.readsOf addr = s.readsOf addr := by
  obtain ⟨draining, _, hstart⟩ := s.startDraining_eq
  rw [hstart]
  rfl

theorem setScheduledQueue_cmdQueue (s : Controller config) (queue : List Transaction) :
    (s.setScheduledQueue queue).cmdQueue = s.cmdQueue := by
  unfold setScheduledQueue
  split
  · rfl
  · split <;> rfl

theorem setScheduledQueue_writeDraining (s : Controller config) (queue : List Transaction) :
    (s.setScheduledQueue queue).writeDraining = s.writeDraining := by
  unfold setScheduledQueue
  split
  · rfl
  · split <;> rfl

/-- The choice of `scheduleTransaction` in a queue that holds `it`. -/
theorem scheduleTransaction_of_some {before after : List Transaction} {it : Transaction}
    (h : firstAccepted s.cmdQueue [] s.startDraining.scheduledQueue = some (before, it, after)) :
    s.scheduleTransaction =
      if !config.unifiedQueue && it.isWrite then
        if 0 < (s.readsOf it.addr).length then { s.startDraining with writeDraining := 0 }
        else
          { s.startDraining.setScheduledQueue (before ++ after) with
            writeDraining := s.startDraining.writeDraining - 1
            cmdQueue := s.cmdQueue.addCommand (transToCommand config it) }
      else
        { s.startDraining.setScheduledQueue (before ++ after) with
          cmdQueue := s.cmdQueue.addCommand (transToCommand config it) } := by
  unfold scheduleTransaction
  dsimp only
  rw [startDraining_cmdQueue, h]
  simp only [startDraining_readsOf, transToCommand_isWrite, setScheduledQueue_cmdQueue,
    setScheduledQueue_writeDraining, startDraining_cmdQueue]

theorem scheduleTransaction_of_none
    (h : firstAccepted s.cmdQueue [] s.startDraining.scheduledQueue = none) :
    s.scheduleTransaction = s.startDraining := by
  unfold scheduleTransaction
  dsimp only
  rw [startDraining_cmdQueue, h]

theorem scheduleTransaction_spec (hs : SplitQueues s.readQueue s.writeBuffer) :
    Scheduled s s.scheduleTransaction := by
  obtain ⟨draining, hdrain, hstart⟩ := s.startDraining_eq
  cases hfirst : firstAccepted s.cmdQueue [] s.startDraining.scheduledQueue with
  | none =>
      rw [scheduleTransaction_of_none hfirst, hstart]
      exact .held draining (hdrain.imp_right Or.inl)
  | some found =>
      obtain ⟨before, it, after⟩ := found
      rw [scheduleTransaction_of_some hfirst]
      obtain ⟨hsplit, hacc, hbefore⟩ := firstAccepted_some hfirst (by simp)
      rw [List.nil_append] at hsplit
      cases hu : config.unifiedQueue with
      | true =>
          have hsame : s.startDraining = s := by simp [startDraining, hu]
          rw [hsame] at hsplit ⊢
          simp only [scheduledQueue, setScheduledQueue, hu, if_true] at hsplit ⊢
          exact .unified hu hsplit hacc hbefore
      | false =>
          rw [hstart] at hsplit ⊢
          by_cases hpos : 0 < draining
          · have hbuf : s.writeBuffer = before ++ it :: after := by
              simpa [scheduledQueue, hu, hpos] using hsplit
            have hw : it.isWrite = true := hs.writes it (by simp [hbuf])
            simp only [hw, setScheduledQueue, hu, hpos, if_true, Bool.not_false, Bool.and_self,
              Bool.false_eq_true, if_false]
            split
            · exact .held 0 (Or.inr (Or.inr rfl))
            · rename_i hlen
              have hnil : s.readsOf it.addr = [] := by
                rwa [List.length_pos_iff, not_not] at hlen
              exact .write draining hu hbuf hacc hnil hdrain hpos
          · have hbuf : s.readQueue = before ++ it :: after := by
              simpa [scheduledQueue, hu, hpos] using hsplit
            have hw : it.isWrite = false := hs.reads it (by simp [hbuf])
            simp only [hw, setScheduledQueue, hu, hpos, Bool.not_false, Bool.and_false,
              Bool.false_eq_true, if_false]
            exact .read draining hu hbuf hacc hdrain

end Controller

end Dramsim
