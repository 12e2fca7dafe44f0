import Dramsim.Controller.Steps
import Dramsim.Library.System

/-!
# Runs of a controller

A controller is driven by transactions, clock ticks and queries for completed
transactions, and by the PIM commands pushed into its streams.  `Sound` holds
along every run, and is what the later invariants build on: the queues hold
commands of transactions, each in the queue of its bank, the clocks agree, and
only valid refreshes are asked for.

`run_invariant` and `ordinary_invariant` are the induction rules.  What every
small step preserves holds in every state of a run.
-/

namespace Dramsim

open Library (System)

namespace Config

/-- Every bank has a queue. -/
theorem queueOf_lt {config : Config} {addr : Address} (h : config.HasBank addr.bankIndex) :
    config.queueOf addr < config.numQueues := by
  obtain ⟨⟨hr0, hr⟩, ⟨hg0, hg⟩, hb0, hb⟩ := h
  simp only [Address.bankIndex_rank, Address.bankIndex_bankgroup, Address.bankIndex_bank] at *
  unfold queueOf getQueueIndex numQueues
  cases config.queueStructure with
  | perRank =>
      simp only
      omega
  | perBank =>
      obtain ⟨r, hr'⟩ := Int.eq_ofNat_of_zero_le hr0
      obtain ⟨g, hg'⟩ := Int.eq_ofNat_of_zero_le hg0
      obtain ⟨b, hb'⟩ := Int.eq_ofNat_of_zero_le hb0
      rw [hr'] at hr
      rw [hg'] at hg
      rw [hb'] at hb
      rw [hr', hg', hb']
      have hgb : g * config.banksPerGroup + b < config.banks := by
        have hstep : (g + 1) * config.banksPerGroup ≤ config.bankgroups * config.banksPerGroup :=
          Nat.mul_le_mul_right _ (by omega)
        rw [Nat.add_mul] at hstep
        unfold banks
        omega
      have hrank : r * config.banks + (g * config.banksPerGroup + b) <
          config.banks * config.ranks := by
        have hstep : (r + 1) * config.banks ≤ config.ranks * config.banks :=
          Nat.mul_le_mul_right _ (by omega)
        rw [Nat.add_mul, Nat.mul_comm config.ranks] at hstep
        omega
      have hcast : ((r : Int) * config.banks + g * config.banksPerGroup + b).toNat =
          r * config.banks + (g * config.banksPerGroup + b) := by
        have hsum : (r : Int) * config.banks + g * config.banksPerGroup + b =
            ((r * config.banks + (g * config.banksPerGroup + b) : Nat) : Int) := by
          push_cast
          omega
        rw [hsum, Int.toNat_natCast]
      simp only
      rw [hcast]
      exact hrank

end Config

/-! ## Runs -/

/-- Operations on a controller. -/
inductive Op where
  | add (trans : Transaction)
  | tick
  | done (clk : Nat)
  | pushRdW (cmd : Command)
  | pushRdIn (cmd : Command) (time : Int)
  | pushWr (cmd : Command)
  | setInPim (inPim : Bool)
  | setWrMultitenant (wrMultitenant : Bool)

/-- The operations without PIM. -/
def Op.IsOrdinary : Op → Prop
  | .add _ | .tick | .done _ => True
  | _ => False

/-- The commands that a PIM kernel pushes. -/
def Command.IsPim (cmd : Command) : Prop := cmd.cmdType.isPim = true ∨ cmd.cmdType = .precharge

/-- A controller as a transition system.  A transaction is only added when
`willAcceptTransaction` holds. -/
def controllerSystem (config : Config) : System (Controller config) Op where
  init := {}
  step s op s' :=
    match op with
    | .add it => s.willAcceptTransaction it.isWrite = true ∧ s' = s.addTransaction it
    | .tick => s.clockTick = .ok s'
    | .done clk => s' = (s.returnDoneTrans clk).2
    | .pushRdW cmd => cmd.IsPim ∧ s' = { s with rdWCmds := s.rdWCmds ++ [cmd] }
    | .pushRdIn cmd time => cmd.IsPim ∧
        s' = { s with rdInCmds := s.rdInCmds ++ [cmd], releaseTime := s.releaseTime ++ [time] }
    | .pushWr cmd => cmd.IsPim ∧ s' = { s with wrCmds := s.wrCmds ++ [cmd] }
    | .setInPim inPim => s' = { s with inPim := inPim }
    | .setWrMultitenant wrMultitenant => s' = { s with wrMultitenant := wrMultitenant }

/-- A controller without PIM commands. -/
def ordinarySystem (config : Config) : System (Controller config) Op :=
  (controllerSystem config).restrict fun _ op => op.IsOrdinary

namespace Controller

variable {config : Config} {s s' : Controller config} {cmd : Command} {ops : List Op}
  {cond : Controller config → Op → Prop} {Inv : Controller config → Prop}

instance : DecidablePred Op.IsOrdinary := fun op =>
  match op with
  | .add _ | .tick | .done _ => .isTrue trivial
  | .pushRdW _ | .pushRdIn _ _ | .pushWr _ | .setInPim _ | .setWrMultitenant _ => .isFalse id

instance : DecidablePred Command.IsPim := fun cmd =>
  inferInstanceAs (Decidable (cmd.cmdType.isPim = true ∨ cmd.cmdType = .precharge))

/-- The step that an operation asks for. -/
def perform (s : Controller config) : Op → Option (Controller config)
  | .add it => if s.willAcceptTransaction it.isWrite then some (s.addTransaction it) else none
  | .tick =>
      match s.clockTick with
      | .ok s' => some s'
      | .error _ => none
  | .done clk => some (s.returnDoneTrans clk).2
  | .pushRdW cmd => if cmd.IsPim then some { s with rdWCmds := s.rdWCmds ++ [cmd] } else none
  | .pushRdIn cmd time =>
      if cmd.IsPim then
        some { s with rdInCmds := s.rdInCmds ++ [cmd], releaseTime := s.releaseTime ++ [time] }
      else none
  | .pushWr cmd => if cmd.IsPim then some { s with wrCmds := s.wrCmds ++ [cmd] } else none
  | .setInPim inPim => some { s with inPim := inPim }
  | .setWrMultitenant wrMultitenant => some { s with wrMultitenant := wrMultitenant }

/-- Run a list of operations, as far as each is possible. -/
def replay (config : Config) (ops : List Op) : Option (Controller config) :=
  System.replay perform ops {}

theorem step_of_perform {op : Op} (h : s.perform op = some s') :
    (controllerSystem config).step s op s' := by
  cases op <;> unfold perform at h <;> dsimp only at h
  case add it =>
    split at h
    · cases h
      exact ⟨‹_›, rfl⟩
    · cases h
  case tick =>
    split at h
    · cases h
      assumption
    · cases h
  case done | setInPim | setWrMultitenant =>
    cases h
    exact rfl
  case pushRdW | pushRdIn | pushWr =>
    split at h
    · cases h
      exact ⟨‹_›, rfl⟩
    · cases h

/-- What `replay` computes is a run, of any restriction that its operations
meet. -/
theorem run_of_replay (cond : Op → Prop) (h : replay config ops = some s)
    (hops : ∀ op ∈ ops, cond op) :
    ((controllerSystem config).restrict fun _ op => cond op).Run ops s :=
  System.run_of_replay (S := (controllerSystem config).restrict fun _ op => cond op)
    (fun _ _ _ hcond hs => ⟨step_of_perform hs, hcond⟩) .start hops h

/-- Run a list of operations, as far as each is possible and meets a condition. -/
def replayWhere (cond : Controller config → Op → Bool) (ops : List Op) :
    Option (Controller config) :=
  System.replay (fun s op => if cond s op then s.perform op else none) ops {}

theorem run_of_replayWhere {cond : Controller config → Op → Bool}
    (h : replayWhere cond ops = some s) :
    ((controllerSystem config).restrict fun s op => cond s op = true).Run ops s := by
  refine System.run_of_replay
    (S := (controllerSystem config).restrict fun s op => cond s op = true)
    (fun s op s' (_ : True) hs => ?_) .start (fun _ _ => trivial) h
  split at hs
  · rename_i hcond
    exact ⟨step_of_perform hs, hcond⟩
  · cases hs

theorem ordinary_of_replay (h : replay config ops = some s) (hops : ∀ op ∈ ops, op.IsOrdinary) :
    (ordinarySystem config).Run ops s :=
  run_of_replay Op.IsOrdinary h hops

/-! ## Facts about the queues -/

/-- Facts about the queues of a controller that hold in every state. -/
structure Sound (s : Controller config) : Prop where
  requests : ∀ req ∈ s.channelState.refreshQ, RefreshRequest config req
  clock : s.cmdQueue.clk = s.clk
  split : SplitQueues s.readQueue s.writeBuffer
  pendingRd : ∀ trans ∈ s.pendingRdQ, trans.isWrite = false
  /-- A queued command is that of a transaction, and stands in the queue of its
  bank. -/
  entries : ∀ i, ∀ cmd ∈ s.cmdQueue.queues i,
    config.queueOf cmd.addr = i ∧ ∃ trans, cmd = transToCommand config trans
  pim : ∀ cmd ∈ s.pimCmds, cmd.isReadWrite = false

theorem Sound.init : Sound ({} : Controller config) where
  requests := fun _ hreq => absurd hreq List.not_mem_nil
  clock := rfl
  split := ⟨fun _ ht => absurd ht List.not_mem_nil, fun _ ht => absurd ht List.not_mem_nil⟩
  pendingRd := fun _ ht => absurd ht List.not_mem_nil
  entries := fun _ _ hcmd => absurd hcmd List.not_mem_nil
  pim := fun _ hcmd => absurd hcmd List.not_mem_nil

/-- Two commands of transactions with the same address and type are the same. -/
theorem entry_ext {cmd' : Command} (h : ∃ trans, cmd = transToCommand config trans)
    (h' : ∃ trans, cmd' = transToCommand config trans) (hhex : cmd.hexAddr = cmd'.hexAddr)
    (hty : cmd.cmdType = cmd'.cmdType) : cmd = cmd' := by
  obtain ⟨t, rfl⟩ := h
  obtain ⟨t', rfl⟩ := h'
  simp only [transToCommand, Command.mk.injEq] at hhex hty ⊢
  rw [hhex]
  exact ⟨hty, rfl, rfl⟩

/-- A column command that is offered stands in its queue, and no read of its
location stands before a write. -/
theorem Sound.offered (hs : s.Sound) (hcol : cmd.isReadWrite = true)
    (h : s.cmdQueue.Offers s.channelState cmd) :
    ∃ before after, s.cmdQueue.queues (config.queueOf cmd.addr) = before ++ cmd :: after ∧
      (∃ trans, cmd = transToCommand config trans) ∧
      s.channelState.getReadyCommand config cmd s.clk = .ok (some cmd) ∧
      (cmd.isWrite = true → CommandQueue.hasRWDependency before cmd = false) := by
  obtain ⟨i, hi, hfirst⟩ := h
  obtain ⟨before, entry, after, hyield⟩ := CommandQueue.getFirstReadyInQueue_spec hfirst
  obtain rfl := ChannelState.eq_of_isReadWrite hyield.answer hcol
  have hmem : entry ∈ s.cmdQueue.queues i := by
    rw [hyield.split]
    exact List.mem_append_right _ (List.mem_cons_self ..)
  obtain ⟨hqueue, htrans⟩ := hs.entries i entry hmem
  rw [hqueue]
  exact ⟨before, after, hyield.split, htrans, hs.clock ▸ hyield.answer, hyield.write⟩

/-- A removed command leaves its queue, and nothing else changes. -/
theorem Removed.spec (hs : s.Sound) (h : Removed s cmd s') :
    (∃ before after, s.cmdQueue.queues (config.queueOf cmd.addr) = before ++ cmd :: after ∧
      s'.cmdQueue.queues =
        Function.update s.cmdQueue.queues (config.queueOf cmd.addr) (before ++ after)) ∧
    s'.cmdQueue.clk = s.cmdQueue.clk ∧
    s' = { s with cmdQueue := s'.cmdQueue, log := s.log ++ [.erased cmd] } := by
  obtain ⟨q₀, q, hsame, her, rfl⟩ := h.erased
  refine ⟨?_, ?_, rfl⟩
  · obtain ⟨_, _, _, htrans, _⟩ := hs.offered h.column h.offered
    unfold CommandQueue.eraseRWCommand at her
    dsimp only at her
    split at her
    · rename_i hany
      obtain ⟨entry, hentry, hp⟩ := List.any_eq_true.mp hany
      obtain ⟨found, before, after, _, hfound, hsplit, herase⟩ :=
        List.exists_of_eraseP (p := fun entry : Command =>
          decide (cmd.hexAddr = entry.hexAddr) && decide (cmd.cmdType = entry.cmdType)) hentry hp
      have hq₀ : q₀.queues = s.cmdQueue.queues := hsame.queues
      rw [hq₀] at hsplit herase her
      have hmem : found ∈ s.cmdQueue.queues (config.queueOf cmd.addr) := by
        rw [hsplit]
        exact List.mem_append_right _ (List.mem_cons_self ..)
      simp only [Bool.and_eq_true, decide_eq_true_eq] at hfound
      have hcmd : cmd = found :=
        entry_ext htrans (hs.entries _ found hmem).2 hfound.1 hfound.2
      subst hcmd
      cases her
      exact ⟨before, after, hsplit, by rw [← herase]; rfl⟩
    · cases her
  · unfold CommandQueue.eraseRWCommand at her
    dsimp only at her
    split at her
    · cases her
      exact hsame.clk
    · cases her

theorem Removed.log (h : Removed s cmd s') : s'.log = s.log ++ [.erased cmd] := by
  obtain ⟨_, _, _, _, rfl⟩ := h.erased
  rfl

/-! ## Every step keeps the queues sound -/

theorem Sound.of_issued (hs : s.Sound) (h : Issued s cmd s') : s'.Sound where
  requests := fun req hreq =>
    hs.requests req (ChannelState.mem_refreshQ_of_update h.channel hreq)
  clock := by rw [h.cmdQueue, h.clk, hs.clock]
  split := ⟨h.readQueue ▸ hs.split.reads, h.writeBuffer ▸ hs.split.writes⟩
  pendingRd := by
    intro it hit
    cases hread : cmd.isRead with
    | true =>
        rw [(h.reads hread).1] at hit
        exact hs.pendingRd it (List.mem_filter.mp hit).1
    | false => exact hs.pendingRd it ((h.noReads hread).1 ▸ hit)
  entries := h.cmdQueue ▸ hs.entries
  pim := by
    rw [pimCmds, h.rdWCmds, h.rdInCmds, h.wrCmds]
    exact hs.pim

theorem Sound.of_removed (hs : s.Sound) (h : Removed s cmd s') : s'.Sound := by
  obtain ⟨⟨before, after, hsplit, hqueues⟩, hclk, hframe⟩ := h.spec hs
  rw [hframe]
  refine ⟨hs.requests, hclk.trans hs.clock, hs.split, hs.pendingRd, fun i c hc => ?_, hs.pim⟩
  rw [hqueues] at hc
  by_cases hi : i = config.queueOf cmd.addr
  · subst hi
    rw [Function.update_self] at hc
    refine hs.entries _ c ?_
    rw [hsplit]
    rcases List.mem_append.mp hc with hc | hc
    · exact List.mem_append_left _ hc
    · exact List.mem_append_right _ (List.mem_cons_of_mem _ hc)
  · rw [Function.update_of_ne hi] at hc
    exact hs.entries i c hc

theorem Sound.of_quiet (hs : s.Sound) (h : Quiet s s') : s'.Sound where
  requests := fun req hreq => (h.requests req hreq).elim (hs.requests req) id
  clock := by rw [h.queues.clk, h.clk, hs.clock]
  split := ⟨h.readQueue ▸ hs.split.reads, h.writeBuffer ▸ hs.split.writes⟩
  pendingRd := h.pendingRdQ ▸ hs.pendingRd
  entries := h.queues.queues ▸ hs.entries
  pim := fun cmd hcmd => hs.pim cmd (h.pim cmd hcmd)

theorem SplitQueues.enqueue (hs : SplitQueues s.readQueue s.writeBuffer) (it : Transaction) :
    SplitQueues (s.enqueue it).readQueue (s.enqueue it).writeBuffer := by
  unfold Controller.enqueue
  split
  · exact hs
  · split
    · rename_i hw
      refine ⟨hs.reads, fun t ht => ?_⟩
      rcases List.mem_append.mp ht with ht | ht
      · exact hs.writes t ht
      · rw [List.mem_singleton.mp ht]
        exact hw
    · rename_i hw
      refine ⟨fun t ht => ?_, hs.writes⟩
      rcases List.mem_append.mp ht with ht | ht
      · exact hs.reads t ht
      · rw [List.mem_singleton.mp ht]
        simpa using hw

theorem Sound.enqueue (hs : s.Sound) (it : Transaction) : (s.enqueue it).Sound := by
  have hsplit := hs.split.enqueue it
  rw [enqueue_eq] at hsplit ⊢
  exact ⟨hs.requests, hs.clock, hsplit, hs.pendingRd, hs.entries, hs.pim⟩

theorem Sound.insertRead (hs : s.Sound) (it : Transaction) (hit : it.isWrite = false) :
    (s.insertRead it).Sound := by
  refine ⟨hs.requests, hs.clock, hs.split, fun t ht => ?_, hs.entries,
    hs.pim⟩
  rcases List.mem_append.mp ht with ht | ht
  · exact hs.pendingRd t ht
  · rw [List.mem_singleton.mp ht]
    exact hit

theorem Sound.addTransaction (hs : s.Sound) (it : Transaction) : (s.addTransaction it).Sound := by
  -- the record of events and the return queue do not matter here
  have hsame : ∀ {s' : Controller config} (e : Event), s'.Sound → (s'.record e).Sound :=
    fun e h => ⟨h.requests, h.clock, h.split, h.pendingRd, h.entries, h.pim⟩
  have hnext : ∀ {s' : Controller config} (t : Transaction), s'.Sound → (s'.completeNext t).Sound :=
    fun t h => ⟨h.requests, h.clock, h.split, h.pendingRd, h.entries, h.pim⟩
  have hwrite : ∀ {s' : Controller config} (t : Transaction), s'.Sound → (s'.insertWrite t).Sound :=
    fun t h => ⟨h.requests, h.clock, h.split, h.pendingRd, h.entries, h.pim⟩
  rcases s.addTransaction_cases it with ⟨_, _, he⟩ | ⟨_, he⟩ | ⟨hw, _, _, he⟩ | ⟨hw, _, _, he⟩ <;>
    rw [he]
  · exact hnext _ ((hwrite _ (hsame _ hs)).enqueue _)
  · exact hnext _ (hsame _ hs)
  · apply Sound.enqueue
    exact (hsame _ hs).insertRead _ hw
  · exact (hsame _ hs).insertRead _ hw

theorem Sound.addCommand (hs : s.Sound) {it : Transaction}
    (h : s' = { s with
      unifiedQueue := s'.unifiedQueue, readQueue := s'.readQueue, writeBuffer := s'.writeBuffer
      writeDraining := s'.writeDraining
      cmdQueue := s.cmdQueue.addCommand (transToCommand config it) })
    (hsplit : SplitQueues s'.readQueue s'.writeBuffer) : s'.Sound := by
  have hqueue : ∀ i, ∀ cmd ∈ (s.cmdQueue.addCommand (transToCommand config it)).queues i,
      config.queueOf cmd.addr = i ∧ ∃ trans, cmd = transToCommand config trans := by
    intro i cmd hcmd
    rcases CommandQueue.mem_addCommand_queues hcmd with hcmd | ⟨rfl, rfl⟩
    · exact hs.entries i cmd hcmd
    · exact ⟨rfl, it, rfl⟩
  rw [h] at hsplit ⊢
  exact ⟨hs.requests, (CommandQueue.addCommand_clk _ _).trans hs.clock, hsplit, hs.pendingRd,
    hqueue, hs.pim⟩

theorem Sound.of_scheduled (hs : s.Sound) (h : Scheduled s s') : s'.Sound := by
  have hkeep : ∀ {p : Transaction → Prop} {l before after : List Transaction} {it : Transaction},
      l = before ++ it :: after → (∀ t ∈ l, p t) → ∀ t ∈ before ++ after, p t := by
    intro p l before after it hl hp t ht
    refine hp t ?_
    rw [hl]
    rcases List.mem_append.mp ht with ht | ht
    · exact List.mem_append_left _ ht
    · exact List.mem_append_right _ (List.mem_cons_of_mem _ ht)
  cases h with
  | held => exact ⟨hs.requests, hs.clock, hs.split, hs.pendingRd,
      hs.entries, hs.pim⟩
  | unified => exact hs.addCommand rfl hs.split
  | write _ _ hl => exact hs.addCommand rfl ⟨hs.split.reads, hkeep hl hs.split.writes⟩
  | read _ _ hl => exact hs.addCommand rfl ⟨hkeep hl hs.split.reads, hs.split.writes⟩

theorem Sound.returnDoneTrans (hs : s.Sound) (clk : Nat) : (s.returnDoneTrans clk).2.Sound := by
  rcases s.returnDoneTrans_cases clk with he | ⟨_, _, _, _, he⟩ <;> rw [he]
  · exact hs
  · exact ⟨hs.requests, hs.clock, hs.split, hs.pendingRd, hs.entries, hs.pim⟩

theorem Sound.step {o : Controller config} (hs : s.Sound) (h : Step o s s') : s'.Sound := by
  cases h with
  | quiet hquiet => exact hs.of_quiet hquiet
  | serve hrem hissue => exact (hs.of_removed hrem).of_issued (issueCommand_spec hissue)
  | discard hrem _ => exact hs.of_removed hrem
  | answer _ hissue => exact hs.of_issued (issueCommand_spec hissue)
  | pim _ hissue => exact hs.of_issued (issueCommand_spec hissue)
  | schedule => exact hs.of_scheduled (scheduleTransaction_spec hs.split)
  | advance =>
      exact ⟨hs.requests, by simp [CommandQueue.clockTick, hs.clock],
        hs.split, hs.pendingRd, hs.entries, hs.pim⟩

/-! ## Induction over runs -/

theorem isReadWrite_of_isPim (h : cmd.IsPim) : cmd.isReadWrite = false := by
  rcases h with h | h
  · cases hty : cmd.cmdType <;> rw [hty] at h <;>
      first | (rw [Command.isReadWrite, hty]; rfl) | cases h
  · rw [Command.isReadWrite, h]
    rfl

/-- A command is pushed into one of the streams, and nothing else changes. -/
theorem Sound.push (hs : s.Sound) (hcmd : cmd.IsPim)
    (h : s' = { s with
      rdWCmds := s'.rdWCmds, rdInCmds := s'.rdInCmds, wrCmds := s'.wrCmds
      releaseTime := s'.releaseTime }) (hpim : ∀ c ∈ s'.pimCmds, c ∈ s.pimCmds ∨ c = cmd) :
    s'.Sound := by
  have hall : ∀ c ∈ s'.pimCmds, c.isReadWrite = false := by
    intro c hc
    rcases hpim c hc with hc | rfl
    · exact hs.pim c hc
    · exact isReadWrite_of_isPim hcmd
  rw [h] at hall ⊢
  exact ⟨hs.requests, hs.clock, hs.split, hs.pendingRd, hs.entries, hall⟩

/-- Operations that change only the PIM streams and flags. -/
def PimOnly (s s' : Controller config) : Prop :=
  s' = { s with
    rdWCmds := s'.rdWCmds, rdInCmds := s'.rdInCmds, wrCmds := s'.wrCmds
    releaseTime := s'.releaseTime, inPim := s'.inPim, wrMultitenant := s'.wrMultitenant }

/-- What an operation preserves: the rule takes one fact for each way of driving a
controller, and of a tick only what its small steps preserve. -/
structure Preserves (cond : Controller config → Op → Prop) (Inv : Controller config → Prop) :
    Prop where
  add : ∀ s it, s.Sound → Inv s → cond s (.add it) → s.willAcceptTransaction it.isWrite = true →
    Inv (s.addTransaction it)
  done : ∀ s clk, s.Sound → Inv s → Inv (s.returnDoneTrans clk).2
  pim : ∀ s op s', cond s op → ¬ op.IsOrdinary → s.Sound → Inv s → PimOnly s s' → Inv s'
  step : ∀ o s s', cond o .tick → o.Sound → Inv o → s.Sound → Inv s → Step o s s' → Inv s'

theorem Preserves.tick (hp : Preserves cond Inv) {x : Except Exit (Controller config)}
    (hcond : cond s .tick) (hs : s.Sound) (hinv : Inv s) (hx : Proceeds s s x) (h : x = .ok s') :
    s'.Sound ∧ Inv s' :=
  hx.preserves h (fun s => s.Sound ∧ Inv s) ⟨hs, hinv⟩ fun s₁ s₂ h₁ hstep =>
    ⟨h₁.1.step hstep, hp.step s s₁ s₂ hcond hs hinv h₁.1 h₁.2 hstep⟩

theorem Preserves.operation (hp : Preserves cond Inv) {op : Op} (hs : s.Sound) (hinv : Inv s)
    (h : ((controllerSystem config).restrict cond).step s op s') : s'.Sound ∧ Inv s' := by
  obtain ⟨hop, hcond⟩ := h
  cases op with
  | add it =>
      obtain ⟨hacc, rfl⟩ := hop
      exact ⟨hs.addTransaction it, hp.add s it hs hinv hcond hacc⟩
  | tick => exact hp.tick hcond hs hinv (clockTick_proceeds hs.requests) hop
  | done clk =>
      cases hop
      exact ⟨hs.returnDoneTrans clk, hp.done s clk hs hinv⟩
  | pushRdW cmd =>
      obtain ⟨hcmd, rfl⟩ := hop
      refine ⟨hs.push hcmd rfl ?_, hp.pim s _ _ hcond id hs hinv rfl⟩
      intro c hc
      simp only [mem_pimCmds, List.mem_append, List.mem_singleton] at hc ⊢
      tauto
  | pushRdIn cmd time =>
      obtain ⟨hcmd, rfl⟩ := hop
      refine ⟨hs.push hcmd rfl ?_, hp.pim s _ _ hcond id hs hinv rfl⟩
      intro c hc
      simp only [mem_pimCmds, List.mem_append, List.mem_singleton] at hc ⊢
      tauto
  | pushWr cmd =>
      obtain ⟨hcmd, rfl⟩ := hop
      refine ⟨hs.push hcmd rfl ?_, hp.pim s _ _ hcond id hs hinv rfl⟩
      intro c hc
      simp only [mem_pimCmds, List.mem_append, List.mem_singleton] at hc ⊢
      tauto
  | setInPim inPim =>
      cases hop
      exact ⟨⟨hs.requests, hs.clock, hs.split, hs.pendingRd, hs.entries, hs.pim⟩,
        hp.pim s _ _ hcond id hs hinv rfl⟩
  | setWrMultitenant wrMultitenant =>
      cases hop
      exact ⟨⟨hs.requests, hs.clock, hs.split, hs.pendingRd, hs.entries, hs.pim⟩,
        hp.pim s _ _ hcond id hs hinv rfl⟩

/-- The induction rule for runs of a controller. -/
theorem run_invariant (h : ((controllerSystem config).restrict cond).Run ops s) (hinit : Inv {})
    (hp : Preserves cond Inv) : s.Sound ∧ Inv s :=
  h.invariant (fun s => s.Sound ∧ Inv s) ⟨Sound.init, hinit⟩
    (fun _ _ _ hinv hstep => hp.operation hinv.1 hinv.2 hstep)

/-! ## Runs without PIM -/

theorem SameDevice.pimCmds (h : SameDevice s s') : s'.pimCmds = s.pimCmds := by
  rw [Controller.pimCmds, h.rdWCmds, h.rdInCmds, h.wrCmds, Controller.pimCmds]

theorem Issued.pimCmds (h : Issued s cmd s') : s'.pimCmds = s.pimCmds := by
  rw [Controller.pimCmds, h.rdWCmds, h.rdInCmds, h.wrCmds, Controller.pimCmds]

theorem Removed.pimCmds (h : Removed s cmd s') : s'.pimCmds = s.pimCmds := by
  obtain ⟨q₀, q, _, _, rfl⟩ := h.erased
  rfl

theorem Scheduled.pimCmds (h : Scheduled s s') : s'.pimCmds = s.pimCmds := by
  cases h <;> rfl

/-- A tick pushes no PIM command. -/
theorem Step.pimCmds {o : Controller config} (hs : s.Sound) (h : Step o s s')
    (hcmd : cmd ∈ s'.pimCmds) : cmd ∈ s.pimCmds := by
  cases h with
  | quiet hquiet => exact hquiet.pim cmd hcmd
  | serve hrem hissue =>
      rw [(issueCommand_spec hissue).pimCmds, hrem.pimCmds] at hcmd
      exact hcmd
  | discard hrem _ => exact hrem.pimCmds ▸ hcmd
  | answer _ hissue => exact (issueCommand_spec hissue).pimCmds ▸ hcmd
  | pim _ hissue => exact (issueCommand_spec hissue).pimCmds ▸ hcmd
  | schedule => exact (scheduleTransaction_spec hs.split).pimCmds ▸ hcmd
  | advance => exact hcmd

theorem pimIdle_of_pimCmds (h : s.pimCmds = []) : s.pimIdle = true := by
  rw [pimCmds, List.append_eq_nil_iff, List.append_eq_nil_iff] at h
  rw [pimIdle, h.1.1, h.1.2, h.2]
  rfl

theorem Quiet.pimIdle (h : Quiet s s') (hs : s.pimCmds = []) : s'.pimIdle = true := by
  refine pimIdle_of_pimCmds (List.eq_nil_iff_forall_not_mem.mpr fun cmd hcmd => ?_)
  have hmem := h.pim cmd hcmd
  rw [hs] at hmem
  cases hmem

/-- What the operations without PIM preserve.  No PIM command is waiting then. -/
structure PreservesOrdinary (cond : Controller config → Op → Prop)
    (Inv : Controller config → Prop) : Prop where
  ordinary : ∀ s op, cond s op → op.IsOrdinary
  add : ∀ s it, s.Sound → Inv s → cond s (.add it) → s.willAcceptTransaction it.isWrite = true →
    Inv (s.addTransaction it)
  done : ∀ s clk, s.Sound → Inv s → Inv (s.returnDoneTrans clk).2
  step : ∀ o s s', cond o .tick → o.Sound → o.pimCmds = [] → s.Sound → s.pimCmds = [] → Inv s →
    Step o s s' → Inv s'

theorem PreservesOrdinary.preserves (hp : PreservesOrdinary cond Inv) :
    Preserves cond fun s => s.pimCmds = [] ∧ Inv s where
  add := fun s it hs hinv hcond hacc =>
    ⟨(s.addTransaction_sameDevice it).pimCmds.trans hinv.1, hp.add s it hs hinv.2 hcond hacc⟩
  done := fun s clk hs hinv =>
    ⟨(s.returnDoneTrans_sameDevice clk).pimCmds.trans hinv.1, hp.done s clk hs hinv.2⟩
  pim := fun s op s' hcond hnot _ _ _ => absurd (hp.ordinary s op hcond) hnot
  step := fun o s s' hcond ho hinvo hs hinv hstep => by
    refine ⟨List.eq_nil_iff_forall_not_mem.mpr fun cmd hcmd => ?_,
      hp.step o s s' hcond ho hinvo.1 hs hinv.1 hinv.2 hstep⟩
    have hold := hstep.pimCmds hs hcmd
    rw [hinv.1] at hold
    cases hold

/-- The induction rule for runs without PIM commands. -/
theorem ordinary_invariant (h : ((controllerSystem config).restrict cond).Run ops s)
    (hinit : Inv {}) (hp : PreservesOrdinary cond Inv) : s.Sound ∧ s.pimCmds = [] ∧ Inv s :=
  run_invariant h ⟨rfl, hinit⟩ hp.preserves

theorem sound_of_ordinary (h : (ordinarySystem config).Run ops s) : s.Sound ∧ s.pimCmds = [] := by
  have hp : PreservesOrdinary (fun (_ : Controller config) op => op.IsOrdinary) fun _ => True :=
    ⟨fun _ _ hop => hop, fun _ _ _ _ _ _ => trivial, fun _ _ _ _ => trivial,
      fun _ _ _ _ _ _ _ _ _ _ => trivial⟩
  obtain ⟨hs, hpim, _⟩ := ordinary_invariant h trivial hp
  exact ⟨hs, hpim⟩

end Controller

end Dramsim
