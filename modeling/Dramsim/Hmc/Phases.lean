import Dramsim.Hmc.Conservation

/-!
# The phases of a tick

`ClockTick` is a sequence of phases: it drains responses and requests and ticks the vaults, and
between them moves the two clocks.  Which phases a tick has depends on the clocks alone, so they are
known when it starts (`clockTick_eq`).

*Small steps.*  `phaseSystem` takes the phases of a tick one by one.  The runs of the cube
are among its runs (`run_phases`).

*Clocks.*  The logic clock is ahead of that of the DRAM by less than a logic cycle after every
tick, so the number of the logic cycles is the quotient of the two cycle times, rounded up
(`clock_domains`).
-/

namespace Dramsim

open Library

/-- The phases of `HMCMemorySystem::ClockTick`. -/
inductive HMCPhase where
  | drainResponses
  | dramClockTick
  | drainRequests
  | advanceLogic
  | advanceDram
deriving DecidableEq, Repr

namespace HMCMemorySystem

variable {config : HMCConfig} {σ : Type} {vault : Vault σ} {s s' : HMCMemorySystem config σ}

/-- One phase. -/
def runPhase (vault : Vault σ) (s : HMCMemorySystem config σ) :
    HMCPhase → Except HMCExit (HMCMemorySystem config σ)
  | .drainResponses => s.drainResponses
  | .dramClockTick => s.dramClockTick vault
  | .drainRequests => s.drainRequests vault
  | .advanceLogic => .ok s.advanceLogic
  | .advanceDram => .ok { s with dramPs := s.dramPs + psPerDram }

/-- What a phase does to the clocks, with logic cycles of `ps` picoseconds. -/
def Clocks.after (ps : Nat) (c : Clocks) : HMCPhase → Clocks
  | .drainResponses => c
  | .dramClockTick => { c with clk := c.clk + 1 }
  | .drainRequests => c
  | .advanceLogic => { c with logicPs := c.logicPs + ps, logicClk := c.logicClk + 1 }
  | .advanceDram => { c with dramPs := c.dramPs + psPerDram }

/-- The phases of the logic cycles until their clock has caught up. -/
def logicPhases (ps target : Nat) : Nat → Nat → List HMCPhase
  | 0, _ => []
  | n + 1, logicPs =>
      if logicPs < target then
        [.drainResponses, .drainRequests, .advanceLogic] ++ logicPhases ps target n (logicPs + ps)
      else []

/-- The phases of a tick. -/
def Clocks.phases (ps : Nat) (c : Clocks) : List HMCPhase :=
  let target := c.dramPs + psPerDram
  if c.dramPs = c.logicPs then
    [.drainResponses, .dramClockTick, .drainRequests, .advanceLogic] ++
      (logicPhases ps target (target - (c.logicPs + ps)) (c.logicPs + ps) ++ [.advanceDram])
  else
    [.dramClockTick] ++ (logicPhases ps target (target - c.logicPs) c.logicPs ++ [.advanceDram])

/-- The phases of the next tick. -/
def phases (s : HMCMemorySystem config σ) : List HMCPhase :=
  s.clocks.phases (psPerLogic config.linkWidth config.linkSpeed)

/-! ## The clocks in a phase -/

theorem sameClocks_vaultCallback (t : HMCMemorySystem config σ) (reqId : Nat)
    (h : SameClocks s t) : Ensures (t.vaultCallback reqId) (SameClocks s) fun _ => True := by
  unfold vaultCallback
  split
  · trivial
  · exact h

theorem sameClocks_returnVault (t : HMCMemorySystem config σ) (i : Fin config.channels)
    (h : SameClocks s t) : Ensures (t.returnVault vault i) (SameClocks s) fun _ => True := by
  rw [returnVault_eq]
  exact Ensures.foldlM _ (fun t it ht => sameClocks_vaultCallback t it.1 ht) _ _ h

theorem sameClocks_tickVault (t : HMCMemorySystem config σ) (i : Fin config.channels)
    (h : SameClocks s t) : Ensures (t.tickVault vault i) (SameClocks s) fun _ => True := by
  refine Ensures.of_cases (fun t' hok => ?_) fun _ _ => trivial
  obtain ⟨ctrl, -, hok⟩ := bind_eq_ok.mp hok
  cases hok
  exact h

theorem clocks_dramClockTick : Ensures (s.dramClockTick vault)
    (fun s' => s'.clocks = { s.clocks with clk := s.clk + 1 }) fun _ => True := by
  refine Ensures.bind (Ensures.foldlM (SameClocks s) sameClocks_returnVault _ _ rfl) fun s₁ h₁ => ?_
  refine Ensures.bind (Ensures.foldlM (SameClocks s) sameClocks_tickVault _ _ h₁) fun s₂ h₂ => ?_
  have hclk : s₂.clk = s.clk := congrArg Clocks.clk h₂
  change Clocks.mk (s₂.clk + 1) s₂.logicClk s₂.logicPs s₂.dramPs = _
  rw [hclk]
  exact congrArg (fun c : Clocks => { c with clk := s.clk + 1 }) h₂

theorem clocks_runPhase (phase : HMCPhase) : Ensures (s.runPhase vault phase)
    (fun s' => s'.clocks = s.clocks.after (psPerLogic config.linkWidth config.linkSpeed) phase)
    fun _ => True := by
  cases phase with
  | drainResponses => exact sameClocks_drainResponses
  | dramClockTick => exact clocks_dramClockTick
  | drainRequests => exact sameClocks_drainRequests
  | advanceLogic => exact rfl
  | advanceDram => exact rfl

/-! ## A tick in phases -/

theorem logicTicks_eq (n : Nat) (s : HMCMemorySystem config σ) :
    logicTicks vault n s =
      (logicPhases (psPerLogic config.linkWidth config.linkSpeed) (s.dramPs + psPerDram) n
        s.logicPs).foldlM (runPhase vault) s := by
  induction n generalizing s with
  | zero => rfl
  | succ n ih =>
      rw [logicTicks, logicPhases]
      split
      · simp only [List.cons_append, List.nil_append, List.foldlM_cons]
        refine Ensures.bind_congr sameClocks_drainResponses fun s₁ h₁ => ?_
        refine Ensures.bind_congr sameClocks_drainRequests fun s₂ h₂ => ?_
        have hclocks : s₂.clocks = s.clocks := h₂.trans h₁
        have hlogic : s₂.logicPs = s.logicPs := congrArg Clocks.logicPs hclocks
        have hdram : s₂.dramPs = s.dramPs := congrArg Clocks.dramPs hclocks
        rw [ih, ← hlogic, ← hdram]
        rfl
      · rfl

/-- The end of a tick, from the logic cycles on. -/
theorem logicTicks_advanceDram (vault : Vault σ) (s : HMCMemorySystem config σ) (n : Nat) :
    (do
      let s ← logicTicks vault n s
      .ok { s with dramPs := s.dramPs + psPerDram }) =
      (logicPhases (psPerLogic config.linkWidth config.linkSpeed) (s.dramPs + psPerDram) n
        s.logicPs ++ [HMCPhase.advanceDram]).foldlM (runPhase vault) s := by
  rw [logicTicks_eq, List.foldlM_append]
  refine congrArg (_ >>= ·) (funext fun s => ?_)
  rw [List.foldlM_cons]
  rfl

/-- The phases of a tick make up the tick. -/
theorem clockTick_eq (s : HMCMemorySystem config σ) :
    s.clockTick vault = s.phases.foldlM (runPhase vault) s := by
  rw [phases, Clocks.phases, clockTick, meetClocks]
  by_cases hmeet : s.dramPs = s.logicPs
  · rw [if_pos hmeet, if_pos (show s.clocks.dramPs = s.clocks.logicPs from hmeet)]
    simp only [bind_assoc, List.cons_append, List.nil_append, List.foldlM_cons]
    refine Ensures.bind_congr sameClocks_drainResponses fun s₁ h₁ => ?_
    refine Ensures.bind_congr clocks_dramClockTick fun s₂ h₂ => ?_
    refine Ensures.bind_congr sameClocks_drainRequests fun s₃ h₃ => ?_
    have hlogic : s₃.advanceLogic.logicPs =
        s.logicPs + psPerLogic config.linkWidth config.linkSpeed := by
      have h₃ : s₃.logicPs = s₂.logicPs := congrArg Clocks.logicPs h₃
      have h₂ : s₂.logicPs = s₁.logicPs := congrArg Clocks.logicPs h₂
      have h₁ : s₁.logicPs = s.logicPs := congrArg Clocks.logicPs h₁
      rw [advanceLogic, h₃, h₂, h₁]
    have hdram : s₃.advanceLogic.dramPs = s.dramPs := by
      have h₃ : s₃.dramPs = s₂.dramPs := congrArg Clocks.dramPs h₃
      have h₂ : s₂.dramPs = s₁.dramPs := congrArg Clocks.dramPs h₂
      have h₁ : s₁.dramPs = s.dramPs := congrArg Clocks.dramPs h₁
      rw [advanceLogic, h₃, h₂, h₁]
    refine (logicTicks_advanceDram vault s₃.advanceLogic _).trans ?_
    rw [hlogic, hdram]
    rfl
  · rw [if_neg hmeet, if_neg (show ¬ s.clocks.dramPs = s.clocks.logicPs from hmeet)]
    simp only [List.cons_append, List.nil_append, List.foldlM_cons]
    refine Ensures.bind_congr clocks_dramClockTick fun s₁ h₁ => ?_
    have hlogic : s₁.logicPs = s.logicPs := congrArg Clocks.logicPs h₁
    have hdram : s₁.dramPs = s.dramPs := congrArg Clocks.dramPs h₁
    rw [logicTicks_advanceDram, hlogic, hdram]
    rfl

end HMCMemorySystem

/-! ## Small steps -/

/-- A transaction, the start of a tick, or one of its phases. -/
inductive HMCStep where
  | add (hexAddr : Nat) (isWrite : Bool)
  | tick
  | phase (p : HMCPhase)
deriving DecidableEq, Repr

/-- The operation that starts with a step. -/
def HMCStep.op : HMCStep → Option HMCOp
  | .add hexAddr isWrite => some (.add hexAddr isWrite)
  | .tick => some .tick
  | .phase _ => none

/-- A cube next to the phases that are left of the tick under way. -/
def phaseSystem (config : HMCConfig) {σ : Type} (vault : Vault σ)
    (ctrls : Fin config.channels → σ) :
    System (HMCMemorySystem config σ × List HMCPhase) HMCStep where
  init := ({ ctrls := ctrls }, [])
  step p a p' := match a with
    | .add hexAddr isWrite =>
        p.2 = [] ∧ p'.2 = [] ∧ ∃ accepted, p.1.addTransaction hexAddr isWrite = .ok (accepted, p'.1)
    | .tick => p.2 = [] ∧ p'.2 = p.1.phases ∧ p'.1 = p.1
    | .phase phase => p.2 = phase :: p'.2 ∧ p.1.runPhase vault phase = .ok p'.1

namespace HMCMemorySystem

variable {config : HMCConfig} {σ : Type} {vault : Vault σ} {ctrls : Fin config.channels → σ}
  {s s' : HMCMemorySystem config σ}

/-- The phases that are left are taken one after the other. -/
theorem run_todo {steps : List HMCStep} {todo : List HMCPhase}
    (hrun : (phaseSystem config vault ctrls).Run steps (s, todo))
    (htodo : todo.foldlM (runPhase vault) s = .ok s') :
    (phaseSystem config vault ctrls).Run (steps ++ todo.map .phase) (s', []) := by
  induction todo generalizing steps s with
  | nil =>
      cases htodo
      simpa using hrun
  | cons phase todo ih =>
      rw [List.foldlM_cons] at htodo
      obtain ⟨s₁, hphase, htodo⟩ := bind_eq_ok.mp htodo
      have hstep : (phaseSystem config vault ctrls).Run (steps ++ [.phase phase]) (s₁, todo) :=
        hrun.step ⟨rfl, hphase⟩
      simpa using ih hstep htodo

/-- Every run of a cube can be taken in small steps. -/
theorem run_phases {ops : List HMCOp} (hrun : (hmcSystem config vault ctrls).Run ops s) :
    ∃ steps, (phaseSystem config vault ctrls).Run steps (s, []) ∧
      steps.filterMap HMCStep.op = ops := by
  induction hrun with
  | start => exact ⟨[], .start, rfl⟩
  | @step ops s s' op _ hstep ih =>
      obtain ⟨steps, hrun, hops⟩ := ih
      cases op with
      | add hexAddr isWrite =>
          have hadd : (phaseSystem config vault ctrls).Run
              (steps ++ [.add hexAddr isWrite]) (s', []) :=
            hrun.step ⟨rfl, rfl, hstep⟩
          refine ⟨_, hadd, ?_⟩
          rw [List.filterMap_append, hops]
          rfl
      | tick =>
          have hstart : (phaseSystem config vault ctrls).Run (steps ++ [.tick]) (s, s.phases) :=
            hrun.step ⟨rfl, rfl, rfl⟩
          refine ⟨_, run_todo hstart ((clockTick_eq s).symm.trans hstep), ?_⟩
          have hphases : (s.phases.map HMCStep.phase).filterMap HMCStep.op = [] := by
            simp [List.filterMap_eq_nil_iff, HMCStep.op]
          rw [List.filterMap_append, List.filterMap_append, hops, hphases, List.append_nil]
          rfl

/-! ## Clock domains -/

/-- How often each phase occurs: each of those of a logic cycle, the DRAM cycle and the end of a
tick. -/
structure Cycles (l : List HMCPhase) (logic dram ends : Nat) : Prop where
  drainResponses : l.count .drainResponses = logic
  drainRequests : l.count .drainRequests = logic
  advanceLogic : l.count .advanceLogic = logic
  dramClockTick : l.count .dramClockTick = dram
  advanceDram : l.count .advanceDram = ends

theorem Cycles.append {l l' : List HMCPhase} {logic logic' dram dram' ends ends' : Nat}
    (h : Cycles l logic dram ends) (h' : Cycles l' logic' dram' ends') :
    Cycles (l ++ l') (logic + logic') (dram + dram') (ends + ends') where
  drainResponses := by rw [List.count_append, h.drainResponses, h'.drainResponses]
  drainRequests := by rw [List.count_append, h.drainRequests, h'.drainRequests]
  advanceLogic := by rw [List.count_append, h.advanceLogic, h'.advanceLogic]
  dramClockTick := by rw [List.count_append, h.dramClockTick, h'.dramClockTick]
  advanceDram := by rw [List.count_append, h.advanceDram, h'.advanceDram]

theorem cycles_nil : Cycles [] 0 0 0 := ⟨rfl, rfl, rfl, rfl, rfl⟩

theorem cycles_end : Cycles [.advanceDram] 0 0 1 := ⟨rfl, rfl, rfl, rfl, rfl⟩

theorem cycles_dram : Cycles [.dramClockTick] 0 1 0 := ⟨rfl, rfl, rfl, rfl, rfl⟩

theorem cycles_logic : Cycles [.drainResponses, .drainRequests, .advanceLogic] 1 0 0 :=
  ⟨rfl, rfl, rfl, rfl, rfl⟩

theorem cycles_meet :
    Cycles [.drainResponses, .dramClockTick, .drainRequests, .advanceLogic] 1 1 0 :=
  ⟨rfl, rfl, rfl, rfl, rfl⟩

/-- The logic cycles of a tick end when their clock has caught up, and not later. -/
theorem exists_logicPhases {ps target n : Nat} (logicPs : Nat) (hps : 0 < ps)
    (hn : target - logicPs ≤ n) :
    ∃ m, Cycles (logicPhases ps target n logicPs) m 0 0 ∧ target ≤ logicPs + m * ps ∧
      (m = 0 ∨ logicPs + m * ps < target + ps) := by
  induction n generalizing logicPs with
  | zero => exact ⟨0, cycles_nil, by omega, .inl rfl⟩
  | succ n ih =>
      rw [logicPhases]
      split
      · rename_i hbehind
        obtain ⟨m, hcycles, hreach, hlast⟩ := ih (logicPs + ps) (by omega)
        have hmul : (1 + m) * ps = ps + m * ps := by rw [Nat.add_mul, Nat.one_mul]
        refine ⟨1 + m, cycles_logic.append hcycles, by omega, .inr ?_⟩
        rcases hlast with rfl | hlast <;> omega
      · exact ⟨0, cycles_nil, by omega, .inl rfl⟩

/-- A tick has one DRAM cycle, and as many logic cycles as the logic clock needs to catch up. -/
theorem Clocks.exists_phases {ps : Nat} {c : Clocks} (hps : 0 < ps) (hle : ps ≤ psPerDram)
    (hless : c.logicPs < c.dramPs + ps) :
    ∃ m, Cycles (c.phases ps) m 1 1 ∧ c.dramPs + psPerDram ≤ c.logicPs + m * ps ∧
      c.logicPs + m * ps < c.dramPs + psPerDram + ps := by
  rw [phases]
  split
  · obtain ⟨m, hcycles, hreach, hlast⟩ := exists_logicPhases (c.logicPs + ps) hps
      (Nat.le_refl (c.dramPs + psPerDram - (c.logicPs + ps)))
    have hmul : (1 + m) * ps = ps + m * ps := by rw [Nat.add_mul, Nat.one_mul]
    refine ⟨1 + m, cycles_meet.append (hcycles.append cycles_end), by omega, ?_⟩
    rcases hlast with rfl | hlast <;> omega
  · obtain ⟨m, hcycles, hreach, hlast⟩ := exists_logicPhases c.logicPs hps
      (Nat.le_refl (c.dramPs + psPerDram - c.logicPs))
    have hall := cycles_dram.append (hcycles.append cycles_end)
    rw [Nat.zero_add] at hall
    refine ⟨m, hall, hreach, ?_⟩
    rcases hlast with rfl | hlast <;> omega

theorem psPerLogic_le (linkWidth linkSpeed : Nat) : psPerLogic linkWidth linkSpeed ≤ psPerDram :=
  Nat.min_le_left _ _

/-- The clocks after `n` ticks have been started, with the phases that are done and those that are
left of the last tick. -/
structure Timed (ps : Nat) (c : Clocks) (n : Nat) (done left : HMCPhase → Nat) : Prop where
  clk : c.clk = done .dramClockTick
  logicClk : c.logicClk = done .advanceLogic
  logicPs : c.logicPs = c.logicClk * ps
  dramPs : c.dramPs = done .advanceDram * psPerDram
  dramClockTick : done .dramClockTick + left .dramClockTick = n
  advanceDram : done .advanceDram + left .advanceDram = n
  drainRequests : done .drainRequests + left .drainRequests =
    done .advanceLogic + left .advanceLogic
  drainResponses :
    done .drainResponses + left .drainResponses = done .advanceLogic + left .advanceLogic
  /-- When the tick is over, the logic clock is ahead, -/
  ahead : n * psPerDram ≤ (done .advanceLogic + left .advanceLogic) * ps
  /-- by less than a logic cycle. -/
  less : (done .advanceLogic + left .advanceLogic) * ps < n * psPerDram + ps

section

variable {ps n : Nat} {c : Clocks} {done : HMCPhase → Nat}

theorem Timed.start (hps : 0 < ps) (hle : ps ≤ psPerDram)
    (h : Timed ps c n done fun _ => 0) :
    Timed ps c (n + 1) done fun phase => (c.phases ps).count phase := by
  have hlogic : c.logicPs = done .advanceLogic * ps := by rw [h.logicPs, h.logicClk]
  have hdram : c.dramPs = n * psPerDram := by
    rw [h.dramPs, ← h.advanceDram, Nat.add_zero]
  have hless := h.less
  rw [Nat.add_zero, ← hlogic, ← hdram] at hless
  obtain ⟨m, hcycles, hreach, hlast⟩ := c.exists_phases hps hle hless
  have hafter : (done .advanceLogic + m) * ps = c.logicPs + m * ps := by rw [Nat.add_mul, hlogic]
  have htick : (n + 1) * psPerDram = c.dramPs + psPerDram := by rw [Nat.succ_mul, hdram]
  have hdone := h.dramClockTick
  have hends := h.advanceDram
  have hrequests := h.drainRequests
  have hresponses := h.drainResponses
  refine ⟨h.clk, h.logicClk, h.logicPs, h.dramPs, ?_, ?_, ?_, ?_, ?_, ?_⟩
  · rw [hcycles.dramClockTick]
    omega
  · rw [hcycles.advanceDram]
    omega
  · rw [hcycles.drainRequests, hcycles.advanceLogic]
    omega
  · rw [hcycles.drainResponses, hcycles.advanceLogic]
    omega
  · rw [hcycles.advanceLogic, hafter, htick]
    exact hreach
  · rw [hcycles.advanceLogic, hafter, htick]
    exact hlast

theorem Timed.phase {phase : HMCPhase} {todo : List HMCPhase}
    (h : Timed ps c n done fun p => (phase :: todo).count p) :
    Timed ps (c.after ps phase) n (fun p => done p + if phase = p then 1 else 0)
      fun p => todo.count p := by
  have hmoved (p : HMCPhase) :
      (done p + if phase = p then 1 else 0) + todo.count p = done p + (phase :: todo).count p := by
    rw [List.count_cons]
    simp only [beq_iff_eq]
    omega
  refine ⟨?_, ?_, ?_, ?_, ?_, ?_, ?_, ?_, ?_, ?_⟩
  · have hclk := h.clk
    cases phase <;> simpa [Clocks.after] using hclk
  · have hlogic := h.logicClk
    cases phase <;> simpa [Clocks.after] using hlogic
  · have hlogic := h.logicPs
    cases phase <;> simpa [Clocks.after, Nat.succ_mul] using hlogic
  · have hdram := h.dramPs
    cases phase <;> simpa [Clocks.after, Nat.succ_mul] using hdram
  · exact (hmoved _).trans h.dramClockTick
  · exact (hmoved _).trans h.advanceDram
  · exact (hmoved _).trans (h.drainRequests.trans (hmoved _).symm)
  · exact (hmoved _).trans (h.drainResponses.trans (hmoved _).symm)
  · rw [hmoved]
    exact h.ahead
  · rw [hmoved]
    exact h.less

end

theorem clocks_addTransaction {hexAddr : Nat} {isWrite accepted : Bool}
    (h : s.addTransaction hexAddr isWrite = .ok (accepted, s')) : s'.clocks = s.clocks := by
  obtain ⟨type, req, -, -, ⟨-, hentered⟩ | ⟨-, hsame⟩⟩ := addTransaction_cases h
  · obtain ⟨link, resp, -, -, hs⟩ := hentered
    rw [hs]
    rfl
  · rw [hsame]
    rfl

/-- The clocks in every run. -/
theorem timed_run {steps : List HMCStep} {p : HMCMemorySystem config σ × List HMCPhase}
    (hrun : (phaseSystem config vault ctrls).Run steps p) :
    Timed (psPerLogic config.linkWidth config.linkSpeed) p.1.clocks (steps.count .tick)
      (fun phase => steps.count (.phase phase)) fun phase => p.2.count phase := by
  have hcount (steps : List HMCStep) (a : HMCStep) (phase : HMCPhase) :
      (steps ++ [a]).count (.phase phase) =
        steps.count (.phase phase) + if a = .phase phase then 1 else 0 := by
    rw [List.count_append, List.count_singleton]
    simp only [beq_iff_eq]
  induction hrun with
  | start =>
      refine ⟨rfl, rfl, ?_, rfl, rfl, rfl, rfl, rfl, Nat.zero_le _, ?_⟩
      · exact (Nat.zero_mul _).symm
      · change (0 + 0) * _ < 0 * psPerDram + _
        rw [Nat.zero_mul, Nat.zero_mul, Nat.zero_add]
        exact config.psPerLogic_pos
  | @step steps p p' a _ hstep ih =>
      simp only [hcount]
      cases a with
      | add hexAddr isWrite =>
          obtain ⟨hnone, hnone', accepted, hadd⟩ := hstep
          rw [clocks_addTransaction hadd, hnone']
          rw [hnone] at ih
          simpa using ih
      | tick =>
          obtain ⟨hnone, hphases, hsame⟩ := hstep
          rw [hnone] at ih
          have hstart := ih.start config.psPerLogic_pos (psPerLogic_le _ _)
          rw [hsame, hphases]
          simpa [phases] using hstart
      | phase phase =>
          obtain ⟨hnext, hphase⟩ := hstep
          rw [hnext] at ih
          rw [(clocks_runPhase phase).of_ok hphase]
          simpa using ih.phase

/-- The number of cycles that cover a time, and do not cover it without the last. -/
theorem eq_div_of_covers {m ps time : Nat} (hle : time ≤ m * ps) (hlt : m * ps < time + ps) :
    m = (time + ps - 1) / ps := by
  have hsucc : (m + 1) * ps = m * ps + ps := Nat.succ_mul m ps
  symm
  apply Nat.div_eq_of_lt_le <;> omega

/-- In small steps, between any two ticks and after `n` of them: the vaults have ticked `n` times,
the clocks are the cycles times their length, the logic clock is ahead of that of the DRAM by less
than a logic cycle, and the two drains have run as often as logic cycles have begun. -/
theorem phase_counts {steps : List HMCStep}
    (hrun : (phaseSystem config vault ctrls).Run steps (s, [])) :
    let n := steps.count .tick
    let ps := psPerLogic config.linkWidth config.linkSpeed
    steps.count (.phase .dramClockTick) = n ∧ s.clk = n ∧ s.dramPs = n * psPerDram ∧
    s.logicPs = s.logicClk * ps ∧ s.dramPs ≤ s.logicPs ∧ s.logicPs < s.dramPs + ps ∧
    steps.count (.phase .drainRequests) = (n * psPerDram + ps - 1) / ps ∧
    steps.count (.phase .drainResponses) = (n * psPerDram + ps - 1) / ps := by
  intro n ps
  obtain ⟨hclk, hlogicClk, hlogicPs, hdramPs, hticks, hends, hrequests, hresponses, hahead,
    hless⟩ := timed_run hrun
  simp only [List.count_nil, Nat.add_zero] at hticks hends hrequests hresponses hahead hless
  have hdram : s.dramPs = n * psPerDram := hdramPs.trans (by rw [hends])
  have hlogic : s.logicPs = steps.count (.phase .advanceLogic) * ps :=
    hlogicPs.trans (by rw [hlogicClk])
  have hceil : steps.count (.phase .advanceLogic) = (n * psPerDram + ps - 1) / ps :=
    eq_div_of_covers hahead hless
  refine ⟨hticks, hclk.trans hticks, hdram, hlogicPs, ?_, ?_, ?_, ?_⟩
  · rw [hdram, hlogic]
    exact hahead
  · rw [hdram, hlogic]
    exact hless
  · rw [hrequests, hceil]
  · rw [hresponses, hceil]

theorem count_tick_op (steps : List HMCStep) :
    (steps.filterMap HMCStep.op).count .tick = steps.count .tick := by
  induction steps with
  | nil => rfl
  | cons a steps ih => cases a <;> simp [List.filterMap_cons, HMCStep.op, ih]

/-- Between any two ticks, after `n` of them: the clocks are the cycles times their length, and the
logic clock is ahead of that of the DRAM by less than a logic cycle.  However the ticks are taken
apart into their phases, the vaults have ticked `n` times, and the two drains have run as often as
logic cycles have begun. -/
theorem clock_domains {ops : List HMCOp} (hrun : (hmcSystem config vault ctrls).Run ops s) :
    let n := ops.count .tick
    let ps := psPerLogic config.linkWidth config.linkSpeed
    s.clk = n ∧ s.dramPs = n * psPerDram ∧ s.logicPs = s.logicClk * ps ∧ s.dramPs ≤ s.logicPs ∧
    s.logicPs < s.dramPs + ps ∧
    (∃ steps, (phaseSystem config vault ctrls).Run steps (s, []) ∧
      steps.filterMap HMCStep.op = ops) ∧
    ∀ steps, (phaseSystem config vault ctrls).Run steps (s, []) →
      steps.count .tick = n ∧ steps.count (.phase .dramClockTick) = n ∧
      steps.count (.phase .drainRequests) = (n * psPerDram + ps - 1) / ps ∧
      steps.count (.phase .drainResponses) = (n * psPerDram + ps - 1) / ps := by
  intro n ps
  obtain ⟨steps, hsteps, hops⟩ := run_phases hrun
  have hn : steps.count .tick = n := by rw [← count_tick_op, hops]
  obtain ⟨-, hclk, hdram, hlogic, hle, hlt, -, -⟩ := phase_counts hsteps
  rw [hn] at hclk hdram
  refine ⟨hclk, hdram, hlogic, hle, hlt, ⟨steps, hsteps, hops⟩, fun steps' hsteps' => ?_⟩
  obtain ⟨hvaults, hclk', -, -, -, -, hrequests, hresponses⟩ := phase_counts hsteps'
  have hn' : steps'.count .tick = n := hclk'.symm.trans hclk
  rw [hn'] at hvaults hrequests hresponses
  exact ⟨hn', hvaults, hrequests, hresponses⟩

/-- A read and a tick of the default cube, whose logic cycles take 533 picoseconds: two of them have
begun. -/
theorem clock_domains_read :
    ∃ (s : DefaultCube) (steps : List HMCStep),
      (phaseSystem defaultCube (controllerVault _) fun _ => {}).Run steps (s, []) ∧
      steps.filterMap HMCStep.op = [.add 0 false, .tick] ∧
      s.clk = 1 ∧ steps.count (.phase .drainRequests) = 2 := by
  obtain ⟨s, hrun, -⟩ := exists_run_of_replayCube (fun _ _ => True)
    [.add 0 false, .tick] (fun _ => True) (by decide +kernel)
  obtain ⟨hclk, -, -, -, -, ⟨steps, hsteps, hops⟩, hall⟩ := clock_domains hrun.of_restrict
  exact ⟨s, steps, hsteps, hops, hclk, (hall steps hsteps).2.2.1⟩

end HMCMemorySystem

end Dramsim
