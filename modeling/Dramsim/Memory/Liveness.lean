import Dramsim.Controller.Drain
import Dramsim.Memory.ReleaseGate

/-!
# Every transaction is called back

A memory system that is sent no PIM words keeps ticking, and once nothing new comes in every
transaction is called back exactly once.  A controller that refreshes leave enough time for drains
(`Draining`); what it has completed is returned `answerTime` cycles later at the latest.  The rank
`Answering` of a controller counts the ticks until both have happened, and falls with every tick.
Which transactions a controller has been given, and that each is held or has been called back, is
kept by every operation of the system (`Plain`).
-/

namespace Dramsim

/-- An operation without PIM. -/
def SystemOp.IsOrdinary : SystemOp → Prop
  | .addPim _ => False
  | .add _ _ | .tick => True

instance : DecidablePred SystemOp.IsOrdinary := fun op =>
  match op with
  | .addPim _ => .isFalse id
  | .add _ _ | .tick => .isTrue trivial

/-- The longest time from the completion of a transaction in a controller to its callback. -/
def Config.answerTime (config : Config) : Nat := max 1 config.readDelay.toNat

namespace Controller

variable {config : Config} {s s' : Controller config} {n : Nat} {count : Bool → Nat → Nat}

/-! ## What a controller has been given -/

/-- A controller without PIM commands holds or has called back this many transactions of each kind
and address. -/
structure Given (count : Bool → Nat → Nat) (s : Controller config) : Prop where
  reached : ∃ ops, (ordinarySystem config).Run ops s
  received : ∀ isWrite addr,
    s.unreturned isWrite addr + s.returnedCount isWrite addr = count isWrite addr

theorem received_preserves (isWrite : Bool) (addr n : Nat) :
    Preserves (fun (_ : Controller config) op => op.IsPassive)
      fun s => s.unreturned isWrite addr + s.returnedCount isWrite addr = n where
  add := fun _ _ _ _ hadd _ => hadd.elim
  done := fun s clk _ h => by
    have hun := s.unreturned_returnDoneTrans clk isWrite addr
    have hret := s.returnedCount_returnDoneTrans clk isWrite addr
    omega
  pim := fun s _ s' _ _ _ h hpim => by
    rw [hpim]
    exact h
  step := fun _ s s' _ _ _ hs h hstep => by
    rw [unreturned_step hs hstep, returnedCount_step hs hstep]
    exact h

theorem Given.passive (h : s.Given count) (op : Op) (hop : op.IsPassive)
    (hstep : (ordinarySystem config).step s op s') : s'.Given count := by
  obtain ⟨ops, hrun⟩ := h.reached
  refine ⟨⟨_, hrun.step hstep⟩, fun isWrite addr => ?_⟩
  exact ((received_preserves isWrite addr _).operation (sound_of_ordinary hrun).1
    (h.received isWrite addr) ⟨hstep.1, hop⟩).2

theorem Given.add (h : s.Given count) (it : Transaction)
    (haccept : s.willAcceptTransaction it.isWrite = true) : (s.addTransaction it).Given
      fun isWrite addr => count isWrite addr + if it.carries addr isWrite then 1 else 0 := by
  obtain ⟨ops, hrun⟩ := h.reached
  have hstep : (ordinarySystem config).step s (.add it) (s.addTransaction it) :=
    ⟨⟨haccept, rfl⟩, trivial⟩
  refine ⟨⟨_, hrun.step hstep⟩, fun isWrite addr => ?_⟩
  rw [unreturned_addTransaction, returnedCount_addTransaction, ← h.received isWrite addr]
  omega

/-- What returning a transaction keeps, returning all that is complete does. -/
theorem returnDone_induction {P : Controller config → Prop} (clk : Nat)
    (hdone : ∀ s, P s → P (s.returnDoneTrans clk).2) :
    ∀ (k : Nat) {s : Controller config}, P s → P (JedecDRAMSystem.returnDone clk k s)
  | 0, _, h => h
  | k + 1, s, h => by
      have hfirst := hdone s h
      unfold JedecDRAMSystem.returnDone
      generalize s.returnDoneTrans clk = r at hfirst
      obtain ⟨_ | it, s₁⟩ := r
      · exact hfirst
      · exact returnDone_induction clk hdone k hfirst

/-! ## When completed transactions are returned -/

/-- What is complete can be returned soon. -/
def ReturnsSoon (s : Controller config) : Prop :=
  ∀ it ∈ s.returnQueue, it.completeCycle ≤ s.clk + config.answerTime

theorem ReturnsSoon.of_eq (h : s.ReturnsSoon) (hq : s'.returnQueue = s.returnQueue)
    (hclk : s.clk ≤ s'.clk) : s'.ReturnsSoon := by
  intro it hit
  have hle := h it (hq ▸ hit)
  omega

/-- Reads only become complete when the command of their address is issued. -/
def Completes (s s' : Controller config) : Prop :=
  (s'.pendingRdQ = s.pendingRdQ ∧ s'.returnQueue = s.returnQueue ∧ s.clk ≤ s'.clk) ∨
    ∃ addr, s'.pendingRdQ = s.pendingRdQ.filter (fun it => it.addr ≠ addr) ∧ s'.clk = s.clk ∧
      s'.returnQueue = s.returnQueue ++ (s.readsOf addr).map fun it : Transaction =>
        { it with completeCycle := addClk s.clk config.readDelay }

theorem completes_of_issued {cmd : Command} (h : Issued s cmd s') : s.Completes s' := by
  cases hread : cmd.isRead with
  | false => exact Or.inl ⟨(h.noReads hread).1, (h.noReads hread).2, h.clk.ge⟩
  | true => exact Or.inr ⟨cmd.hexAddr, (h.reads hread).1, h.clk, (h.reads hread).2⟩

theorem completes_of_step {o : Controller config} (hs : s.Sound) (h : Step o s s') :
    s.Completes s' := by
  cases h with
  | quiet hquiet => exact Or.inl ⟨hquiet.pendingRdQ, hquiet.returnQueue, hquiet.clk.ge⟩
  | serve hrem hissue =>
      have hissued := completes_of_issued (issueCommand_spec hissue)
      obtain ⟨_, _, _, _, rfl⟩ := hrem.erased
      exact hissued
  | discard hrem _ =>
      obtain ⟨_, _, _, _, rfl⟩ := hrem.erased
      exact Or.inl ⟨rfl, rfl, Nat.le_refl _⟩
  | answer _ hissue => exact completes_of_issued (issueCommand_spec hissue)
  | pim _ hissue => exact completes_of_issued (issueCommand_spec hissue)
  | schedule =>
      have h := scheduleTransaction_spec hs.split
      exact Or.inl ⟨h.pendingRdQ, h.returnQueue, h.clk.ge⟩
  | advance => exact Or.inl ⟨rfl, rfl, Nat.le_succ _⟩

theorem ReturnsSoon.completes (hdelay : 0 ≤ config.readDelay) (h : s.ReturnsSoon)
    (hs : s.Completes s') : s'.ReturnsSoon := by
  rcases hs with ⟨-, hq, hclk⟩ | ⟨addr, -, hclk, hq⟩
  · exact h.of_eq hq hclk
  · intro it hit
    rw [hq, List.mem_append] at hit
    rw [hclk]
    rcases hit with hit | hit
    · exact h it hit
    · obtain ⟨_, _, rfl⟩ := List.mem_map.mp hit
      refine addClk_le hdelay ?_
      rw [Config.answerTime]
      omega

theorem ReturnsSoon.addTransaction (h : s.ReturnsSoon) (it : Transaction) :
    (s.addTransaction it).ReturnsSoon := by
  have hnext : ∀ {s' : Controller config} {it' : Transaction}, s'.clk = s.clk →
      s'.returnQueue = s.returnQueue ++ [it'] → it'.completeCycle = s.clk + 1 → s'.ReturnsSoon := by
    intro s' it' hclk hq hcycle it hit
    rw [hclk]
    rcases List.mem_append.mp (hq ▸ hit) with hit | hit
    · exact h it hit
    · rw [List.mem_singleton.mp hit, hcycle, Config.answerTime]
      omega
  rcases s.addTransaction_cases it with ⟨_, _, he⟩ | ⟨_, he⟩ | ⟨_, _, _, he⟩ | ⟨_, _, _, he⟩ <;>
    rw [he]
  · rw [enqueue_eq]
    exact hnext rfl rfl rfl
  · exact hnext rfl rfl rfl
  · rw [enqueue_eq]
    exact h.of_eq rfl (Nat.le_refl _)
  · exact h.of_eq rfl (Nat.le_refl _)

theorem ReturnsSoon.preserves (hdelay : 0 ≤ config.readDelay)
    (cond : Controller config → Op → Prop) : Preserves cond ReturnsSoon where
  add := fun _ it _ h _ _ => h.addTransaction it
  done := fun s clk _ h => by
    rcases s.returnDoneTrans_cases clk with he | ⟨before, it, after, hsplit, he⟩ <;> rw [he]
    · exact h
    · intro it' hit'
      refine h it' ?_
      rw [hsplit, List.mem_append, List.mem_cons]
      exact (List.mem_append.mp hit').imp_right Or.inr
  pim := fun s _ s' _ _ _ h hpim => by
    rw [hpim]
    exact h
  step := fun _ s s' _ _ _ hs h hstep => h.completes hdelay (completes_of_step hs hstep)

/-- Without pending reads nothing becomes complete. -/
theorem returnQueue_of_clockTick (hs : s.Sound) (hnil : s.pendingRdQ = [])
    (h : s.clockTick = .ok s') : s'.returnQueue = s.returnQueue := by
  have hinv := (clockTick_proceeds hs.requests).preserves h
    (fun t => t.Sound ∧ t.pendingRdQ = [] ∧ t.returnQueue = s.returnQueue) ⟨hs, hnil, rfl⟩
    fun t t' ht hstep => by
      refine ⟨ht.1.step hstep, ?_⟩
      rcases completes_of_step ht.1 hstep with ⟨hpend, hq, -⟩ | ⟨addr, hpend, -, hq⟩
      · exact ⟨hpend.trans ht.2.1, hq.trans ht.2.2⟩
      · rw [hpend, hq, readsOf, ht.2.1]
        exact ⟨rfl, (List.append_nil _).trans ht.2.2⟩
  exact hinv.2.2

/-! ## Returning all that is complete -/

theorem returnDone_returnQueue (clk : Nat) :
    ∀ (n : Nat) (s : Controller config), s.returnQueue.length ≤ n →
      ∀ it ∈ (JedecDRAMSystem.returnDone clk n s).returnQueue,
        it ∈ s.returnQueue ∧ clk < it.completeCycle
  | 0, s, hn, it, hit => by
      rw [JedecDRAMSystem.returnDone, List.length_eq_zero_iff.mp (Nat.le_zero.mp hn)] at hit
      cases hit
  | n + 1, s, hn, it, hit => by
      rw [JedecDRAMSystem.returnDone, returnDoneTrans] at hit
      cases hfind : s.returnQueue.find? fun it => decide (it.completeCycle ≤ clk) with
      | none =>
          rw [hfind] at hit
          exact ⟨hit, by simpa using List.find?_eq_none.mp hfind it hit⟩
      | some first =>
          rw [hfind] at hit
          have hmem := List.mem_of_find?_eq_some hfind
          have hlength := List.length_eraseP_of_mem hmem (List.find?_some hfind)
          obtain ⟨hrest, hlate⟩ := returnDone_returnQueue clk n _ (by
            show (s.returnQueue.eraseP _).length ≤ n
            omega) it hit
          exact ⟨List.mem_of_mem_eraseP hrest, hlate⟩

/-- The ticks until a controller has returned everything: those until it is drained and what is
complete has been returned, and then those until the last of what is complete is returned. -/
def Answering (n : Nat) (s : Controller config) : Prop :=
  ∃ m, s.Draining m ∧ (m + config.answerTime < n ∨
    m = 0 ∧ ∀ it ∈ s.returnQueue, s.clk ≤ it.completeCycle ∧ it.completeCycle < s.clk + n)

variable (hc : config.KeepsUp) (hdelay : 0 ≤ config.readDelay)

include hc hdelay

theorem Answering.tick (h : s.Answering n) :
    ∃ s', (JedecDRAMSystem.returnDone s.clk s.returnQueue.length s).clockTick = .ok s' ∧
      s'.Answering (n - 1) := by
  obtain ⟨m, hdraining, hphase⟩ := h
  have hreturned : (JedecDRAMSystem.returnDone s.clk s.returnQueue.length s).Draining m :=
    returnDone_induction _ (fun s hs => by
      obtain ⟨s', ⟨hs', -⟩, hdraining⟩ := hs.done (s := s) _
      exact hs' ▸ hdraining) _ hdraining
  obtain ⟨s', ⟨htick, -⟩, hdraining'⟩ := hreturned.tick hc
  refine ⟨s', htick, m - 1, hdraining', ?_⟩
  by_cases hpos : 0 < m
  · exact Or.inl (by omega)
  · -- nothing is pending, so the tick leaves what is complete and not yet returned
    right
    obtain rfl : m = 0 := by omega
    refine ⟨rfl, fun it hit => ?_⟩
    have hclk : s'.clk = s.clk + 1 := by
      rw [(clockTick_timers htick).1, (JedecDRAMSystem.returnDone_frame _ _ s).clk]
    have hsound : Sound _ := (sound_of_ordinary hreturned.1.choose_spec).1
    rw [returnQueue_of_clockTick hsound (hreturned.pending_nil hc).1 htick] at hit
    obtain ⟨hmem, hlate⟩ := returnDone_returnQueue s.clk _ s (Nat.le_refl _) it hit
    have hsoon : it.completeCycle ≤ s.clk + config.answerTime := by
      obtain ⟨⟨ops, hrun⟩, -⟩ := hdraining
      exact (run_invariant hrun (fun _ hit => absurd hit List.not_mem_nil)
        (ReturnsSoon.preserves hdelay _)).2 it hmem
    rw [hclk]
    rcases hphase with hlt | ⟨-, hbounds⟩
    · omega
    · have := hbounds it hmem
      omega

omit hdelay in
theorem Answering.done (h : s.Answering 0) : s.pendingRdQ = [] ∧ s.returnQueue = [] := by
  obtain ⟨m, hdraining, hphase⟩ := h
  obtain ⟨rfl, hbounds⟩ := hphase.resolve_left (Nat.not_lt_zero _)
  refine ⟨(hdraining.pending_nil hc).1, List.eq_nil_iff_forall_not_mem.mpr fun it hit => ?_⟩
  have := hbounds it hit
  omega

end Controller

/-! ## The memory system -/

namespace JedecDRAMSystem

variable {config : Config} {s s' : JedecDRAMSystem config} {ops : List SystemOp} {n : Nat}

/-- A memory system that is sent no PIM words. -/
def plainSystem (config : Config) : Library.System (JedecDRAMSystem config) SystemOp :=
  (memorySystem config).restrict fun _ op => op.IsOrdinary

/-- No PIM word has come, all clocks show the same time, and each controller has been given the
transactions of its channel. -/
structure Plain (ops : List SystemOp) (s : JedecDRAMSystem config) : Prop where
  words : s.pimTransQueue = []
  dataflow : s.dataflow = {}
  clks : ∀ ctrl ∈ s.ctrls, ctrl.clk = s.clk
  serves : ∀ (channel : Nat) ctrl, s.ctrls[channel]? = some ctrl → ctrl.Given fun isWrite addr =>
    if config.getChannel addr = channel then ops.count (.add addr isWrite) else 0

theorem Plain.init : Plain [] ({} : JedecDRAMSystem config) where
  words := rfl
  dataflow := rfl
  clks := fun ctrl hctrl => by rw [List.eq_of_mem_replicate hctrl]
  serves := fun channel ctrl hctrl => by
    rw [List.eq_of_mem_replicate (List.mem_of_getElem? hctrl)]
    refine ⟨⟨[], .start⟩, fun isWrite addr => ?_⟩
    rw [List.count_nil, ite_self]
    cases isWrite <;> rfl

/-- Without PIM words a tick is that of the controllers. -/
theorem Plain.clockTick_eq (h : s.Plain ops) : s.clockTick =
    (s.returnAll.ctrls.mapM Controller.clockTick).bind fun ctrls =>
      .ok { s with ctrls := ctrls, clk := s.clk + 1 } := by
  have hwait : s.returnAll.waitRefresh = false := by
    rw [waitRefresh, show s.returnAll.dataflow = {} from h.dataflow]
    exact Bool.and_false _
  have hschedule : s.schedule = .ok s.returnAll := by
    show ((if s.returnAll.waitRefresh then _ else s.returnAll).popPim >>= _) = _
    rw [hwait, if_neg Bool.false_ne_true, popPim, show s.returnAll.pimTransQueue = [] from h.words]
    show (List.range (numCuts s.returnAll.dataflow)).foldlM _ _ = _
    rw [show s.returnAll.dataflow = {} from h.dataflow]
    rfl
  rw [clockTick, hschedule]
  rfl

theorem Plain.add {hexAddr : Nat} {isWrite : Bool} (h : s.Plain ops)
    (haccept : s.willAcceptTransaction hexAddr isWrite = true) :
    (s.addTransaction hexAddr isWrite).Plain (ops ++ [.add hexAddr isWrite]) := by
  have hadded : ∀ (channel : Nat) ctrl',
      (s.addTransaction hexAddr isWrite).ctrls[channel]? = some ctrl' →
      ∃ ctrl, s.ctrls[channel]? = some ctrl ∧ ctrl' = if config.getChannel hexAddr = channel
        then ctrl.addTransaction { addr := hexAddr, isWrite := isWrite } else ctrl := by
    intro channel ctrl' hctrl'
    rw [addTransaction, List.getElem?_modify] at hctrl'
    obtain ⟨ctrl, hctrl, heq⟩ := Option.map_eq_some_iff.mp hctrl'
    exact ⟨ctrl, hctrl, heq.symm⟩
  refine ⟨h.words, h.dataflow, fun ctrl' hctrl' => ?_, fun channel ctrl' hctrl' => ?_⟩
  · obtain ⟨channel, hchannel⟩ := List.mem_iff_getElem?.mp hctrl'
    obtain ⟨ctrl, hctrl, rfl⟩ := hadded channel ctrl' hchannel
    have hclk := h.clks ctrl (List.mem_of_getElem? hctrl)
    split
    · rw [(ctrl.addTransaction_frame _).clk]
      exact hclk
    · exact hclk
  · obtain ⟨ctrl, hctrl, rfl⟩ := hadded channel ctrl' hctrl'
    have hserves := h.serves channel ctrl hctrl
    have hcount : ∀ w addr, (ops ++ [SystemOp.add hexAddr isWrite]).count (.add addr w) =
        ops.count (.add addr w) + if hexAddr = addr ∧ isWrite = w then 1 else 0 := by
      intro w addr
      simp [List.count_cons]
    split
    · rename_i hch
      rw [willAcceptTransaction, hch, hctrl] at haccept
      have hmore := hserves.add { addr := hexAddr, isWrite := isWrite } haccept
      refine ⟨hmore.reached, fun w addr => (hmore.received w addr).trans ?_⟩
      simp only [hcount, Controller.carries_iff]
      grind
    · rename_i hch
      refine ⟨hserves.reached, fun w addr => (hserves.received w addr).trans ?_⟩
      simp only [hcount]
      grind

theorem Plain.tick (h : s.Plain ops) (hs : s.clockTick = .ok s') : s'.Plain (ops ++ [.tick]) := by
  rw [h.clockTick_eq] at hs
  obtain ⟨ctrls, hctrls, hs⟩ := Library.bind_eq_ok.mp hs
  cases hs
  have hticked : ∀ (channel : Nat) ctrl', ctrls[channel]? = some ctrl' → ∃ ctrl,
      s.ctrls[channel]? = some ctrl ∧
      (returnDone s.clk ctrl.returnQueue.length ctrl).clockTick = .ok ctrl' := by
    intro channel ctrl' hctrl'
    obtain ⟨hlen, hget⟩ := List.forall₂_iff_get.mp (Library.mapM_eq_ok.mp hctrls)
    obtain ⟨hlt, rfl⟩ := List.getElem?_eq_some_iff.mp hctrl'
    have hlt' : channel < s.ctrls.length := by simpa [← hlen, returnAll] using hlt
    refine ⟨_, List.getElem?_eq_getElem hlt', ?_⟩
    simpa [returnAll] using hget channel (hlen ▸ hlt) hlt
  refine ⟨h.words, h.dataflow, fun ctrl' hctrl' => ?_, fun channel ctrl' hctrl' => ?_⟩
  · obtain ⟨channel, hchannel⟩ := List.mem_iff_getElem?.mp hctrl'
    obtain ⟨ctrl, hctrl, htick⟩ := hticked channel ctrl' hchannel
    rw [(Controller.clockTick_timers htick).1, (returnDone_frame _ _ ctrl).clk,
      h.clks ctrl (List.mem_of_getElem? hctrl)]
  · obtain ⟨ctrl, hctrl, htick⟩ := hticked channel ctrl' hctrl'
    have hreturned := Controller.returnDone_induction s.clk
      (fun s hs => hs.passive (.done _) trivial ⟨rfl, trivial⟩) ctrl.returnQueue.length
      (h.serves channel ctrl hctrl)
    have hserves := hreturned.passive .tick trivial ⟨htick, trivial⟩
    simpa using hserves

/-- No PIM word has come, and every controller returns everything within `n` ticks. -/
structure AllAnswering (n : Nat) (s : JedecDRAMSystem config) : Prop where
  plain : ∃ ops, s.Plain ops
  ctrls : ∀ ctrl ∈ s.ctrls, ctrl.Answering n

variable (hc : config.KeepsUp) (hdelay : 0 ≤ config.readDelay)

include hc hdelay

theorem AllAnswering.tick (h : s.AllAnswering n) :
    ∃ s', (plainSystem config).step s .tick s' ∧ s'.AllAnswering (n - 1) := by
  obtain ⟨ops, hplain⟩ := h.plain
  have hticks : ∀ ctrl ∈ s.returnAll.ctrls,
      ∃ ctrl', ctrl.clockTick = .ok ctrl' ∧ ctrl'.Answering (n - 1) := by
    intro ctrl hctrl
    obtain ⟨ctrl₀, hctrl₀, rfl⟩ := List.mem_map.mp hctrl
    rw [← hplain.clks ctrl₀ hctrl₀]
    exact (h.ctrls ctrl₀ hctrl₀).tick hc hdelay
  obtain ⟨ctrls, hctrls, hanswering⟩ := Library.exists_mapM_ok hticks
  have htick : s.clockTick = .ok { s with ctrls := ctrls, clk := s.clk + 1 } := by
    rw [hplain.clockTick_eq, hctrls]
    rfl
  exact ⟨_, ⟨htick, trivial⟩, ⟨_, hplain.tick htick⟩, hanswering⟩

omit hc hdelay

end JedecDRAMSystem

end Dramsim
