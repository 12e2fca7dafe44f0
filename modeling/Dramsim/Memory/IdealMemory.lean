import Dramsim.Library.Ordered
import Dramsim.Library.System
import Dramsim.Model.IdealDram
import Mathlib.Data.List.Basic
import Mathlib.Data.List.Induction
import Mathlib.Data.List.Perm.Basic

/-!
# The ideal memory

The loop of `IdealDRAMSystem::ClockTick` passes over the transaction behind each one it answers
(`length_serve_iff`).  So a tick in which one transaction is due answers it, and a tick in which
several are due leaves some of them for later ticks.  The callbacks come when they should, in the
order of acceptance, as long as no cycle has accepted more than one transaction
(`fixed_latency_iff`).
-/

namespace Dramsim

open Library

/-- The calls of the front end. -/
inductive IdealOp where
  | add (hexAddr : Nat) (isWrite : Bool)
  | tick
deriving DecidableEq, Repr

namespace IdealDRAMSystem

variable {latency : Nat} {s s' : IdealDRAMSystem}

/-- One call. -/
def perform (latency : Nat) (s : IdealDRAMSystem) : IdealOp → IdealDRAMSystem
  | .add hexAddr isWrite => (s.addTransaction hexAddr isWrite).2
  | .tick => s.clockTick latency

/-- The ideal memory with its calls. -/
def idealSystem (latency : Nat) : System IdealDRAMSystem IdealOp where
  init := {}
  step s op s' := s' = s.perform latency op

/-- The transaction that a call brings. -/
def accepts (s : IdealDRAMSystem) : IdealOp → List Transaction
  | .add hexAddr isWrite => [{ addr := hexAddr, isWrite := isWrite, addedCycle := s.clk }]
  | .tick => []

/-- The callback that a transaction should get. -/
def callbackOf (latency : Nat) (t : Transaction) : IdealCallback :=
  ⟨t.addedCycle + latency, t.addr, t.isWrite⟩

/-- The callbacks that should have been made before a cycle. -/
def expected (latency clk : Nat) (accepted : List Transaction) : List IdealCallback :=
  (accepted.filter fun t => t.addedCycle + latency < clk).map (callbackOf latency)

/-- Each cycle whose transactions are due before `clk` has accepted at most one. -/
def Single (latency clk : Nat) (accepted : List Transaction) : Prop :=
  ∀ c, c + latency < clk → (accepted.filter fun t => t.addedCycle = c).length ≤ 1

/-! ## One tick -/

section

variable {due : Transaction → Bool}

theorem serve_none {l : List Transaction} (h : ∀ t ∈ l, due t = false) : serve due l = ([], l) := by
  induction l with
  | nil => rfl
  | cons t rest ih =>
      have ht := h t (List.mem_cons_self ..)
      have hrest := ih fun t ht => h t (List.mem_cons_of_mem _ ht)
      simp [serve.eq_def due (t :: rest), ht, hrest]

theorem serve_one {t : Transaction} {l : List Transaction} (ht : due t = true)
    (h : ∀ t ∈ l, due t = false) : serve due (t :: l) = ([t], l) := by
  cases l with
  | nil => rw [serve, if_pos ht]
  | cons next rest =>
      have hrest := serve_none fun t ht => h t (List.mem_cons_of_mem next ht)
      simp only [serve, if_pos ht, hrest]

/-- A tick answers at most the transactions that are due. -/
theorem length_serve_le (due : Transaction → Bool) (l : List Transaction) :
    (serve due l).1.length ≤ l.countP due := by
  fun_induction serve due l with
  | case1 => simp
  | case2 t ht => simp [ht]
  | case3 t ht next rest ih =>
      rw [List.countP_cons_of_pos ht, List.length_cons]
      have hle : rest.countP due ≤ (next :: rest).countP due :=
        (List.sublist_cons_self next rest).countP_le
      omega
  | case4 t rest ht ih =>
      rw [List.countP_cons_of_neg ht]
      exact ih

section

variable {now later : List Transaction} (hnow : ∀ t ∈ now, due t = true)
  (hlater : ∀ t ∈ later, due t = false)

include hnow hlater

theorem serve_eq (hone : now.length ≤ 1) : serve due (now ++ later) = (now, later) := by
  cases now with
  | nil => simp [serve_none hlater]
  | cons t now =>
      have hnil : now = [] := by simpa using hone
      subst hnil
      exact serve_one (hnow t (List.mem_cons_self ..)) hlater

/-- A tick that finds some due transactions first, and then none, answers them all if and only if
there is at most one. -/
theorem length_serve_iff : (serve due (now ++ later)).1.length = now.length ↔ now.length ≤ 1 := by
  constructor
  · intro hlength
    cases now with
    | nil => simp
    | cons t now =>
        cases now with
        | nil => simp
        | cons next now =>
            -- the second of them is passed over, and each of the others counts once
            have hrest : (now ++ later).countP due = now.length := by
              rw [List.countP_append, List.countP_eq_length.mpr, List.countP_eq_zero.mpr]
              · rfl
              · simpa using hlater
              · intro t ht
                exact hnow t (List.mem_cons_of_mem _ (List.mem_cons_of_mem _ ht))
            have hle := length_serve_le due (now ++ later)
            have ht := hnow t (List.mem_cons_self ..)
            simp only [List.cons_append, serve, if_pos ht, List.length_cons] at hlength
            omega
  · intro hone
    rw [serve_eq hnow hlater hone]

end

end

/-! ## The cycles of a run -/

/-- What holds of the memory and the transactions it has accepted. -/
structure Serves (latency : Nat) (s : IdealDRAMSystem) (accepted : List Transaction) : Prop where
  /-- The transactions have been accepted one after the other, -/
  sorted : accepted.Pairwise fun t t' => t.addedCycle ≤ t'.addedCycle
  /-- up to now, -/
  added : ∀ t ∈ accepted, t.addedCycle ≤ s.clk
  /-- and the callbacks have been made before. -/
  made : ∀ callback ∈ s.callbacks, callback.clk < s.clk
  exact_iff : s.callbacks = expected latency s.clk accepted ↔ Single latency s.clk accepted
  queue : Single latency s.clk accepted →
    s.infiniteBufferQ = accepted.filter fun t => s.clk ≤ t.addedCycle + latency

theorem Serves.init (latency : Nat) : Serves latency {} [] where
  sorted := .nil
  added := by simp
  made := by simp
  exact_iff := by simp [expected, Single]
  queue := by simp

theorem Serves.add {accepted : List Transaction} (h : Serves latency s accepted) (hexAddr : Nat)
    (isWrite : Bool) :
    Serves latency (s.addTransaction hexAddr isWrite).2
      (accepted ++ [{ addr := hexAddr, isWrite := isWrite, addedCycle := s.clk }]) := by
  have hexpected (t : Transaction) (ht : t.addedCycle = s.clk) :
      expected latency s.clk (accepted ++ [t]) = expected latency s.clk accepted := by
    have hnot : ¬ t.addedCycle + latency < s.clk := by omega
    simp [expected, List.filter_append, hnot]
  have hsingle (t : Transaction) (ht : t.addedCycle = s.clk) :
      Single latency s.clk (accepted ++ [t]) ↔ Single latency s.clk accepted := by
    have hfilter (c : Nat) (hc : c + latency < s.clk) :
        (accepted ++ [t]).filter (fun t => t.addedCycle = c) =
          accepted.filter fun t => t.addedCycle = c := by
      have hne : t.addedCycle ≠ c := by omega
      simp [List.filter_append, hne]
    constructor
    · intro hall c hc
      rw [← hfilter c hc]
      exact hall c hc
    · intro hall c hc
      rw [hfilter c hc]
      exact hall c hc
  refine ⟨?_, ?_, h.made, ?_, ?_⟩
  · rw [List.pairwise_append]
    refine ⟨h.sorted, List.pairwise_singleton _ _, ?_⟩
    intro t ht t' ht'
    rw [List.mem_singleton.mp ht']
    exact h.added t ht
  · intro t ht
    rcases List.mem_append.mp ht with hold | hnew
    · exact h.added t hold
    · rw [List.mem_singleton.mp hnew]
      exact Nat.le_refl _
  · change s.callbacks = expected latency s.clk _ ↔ Single latency s.clk _
    rw [hexpected _ rfl, hsingle _ rfl]
    exact h.exact_iff
  · change Single latency s.clk _ → s.infiniteBufferQ ++ [_] = _
    intro hall
    rw [h.queue ((hsingle _ rfl).mp hall), List.filter_append]
    simp [addTransaction]
    rfl

/-- One more cycle has to be looked at when the clock ticks. -/
theorem single_succ {clk : Nat} {accepted : List Transaction} :
    Single latency (clk + 1) accepted ↔ Single latency clk accepted ∧
      (accepted.filter fun t => t.addedCycle + latency = clk).length ≤ 1 := by
  constructor
  · intro hall
    refine ⟨fun c hc => hall c (by omega), ?_⟩
    rcases Nat.lt_or_ge clk latency with hlt | hle
    · have hnone : accepted.filter (fun t => t.addedCycle + latency = clk) = [] := by
        rw [List.filter_eq_nil_iff]
        intro t _
        simp only [decide_eq_true_eq]
        omega
      simp [hnone]
    · have hcycle : accepted.filter (fun t => t.addedCycle + latency = clk) =
          accepted.filter fun t => t.addedCycle = clk - latency := by
        congr 1
        funext t
        exact decide_eq_decide.mpr (by omega)
      rw [hcycle]
      exact hall (clk - latency) (by omega)
  · rintro ⟨hall, hlast⟩ c hc
    rcases Nat.lt_or_ge (c + latency) clk with hlt | hge
    · exact hall c hlt
    · have hcycle : accepted.filter (fun t => t.addedCycle = c) =
          accepted.filter fun t => t.addedCycle + latency = clk := by
        congr 1
        funext t
        exact decide_eq_decide.mpr (by omega)
      rwa [hcycle]

/-- Two logs of earlier cycles with callbacks of this one. -/
theorem append_eq_append_of_clk {clk : Nat} {l l' new new' : List IdealCallback}
    (hl : ∀ callback ∈ l, callback.clk < clk) (hl' : ∀ callback ∈ l', callback.clk < clk)
    (hnew : ∀ callback ∈ new, callback.clk = clk) (hnew' : ∀ callback ∈ new', callback.clk = clk)
    (h : l ++ new = l' ++ new') : l = l' ∧ new = new' := by
  have hold {l new : List IdealCallback} (hl : ∀ callback ∈ l, callback.clk < clk)
      (hnew : ∀ callback ∈ new, callback.clk = clk) :
      (l ++ new).filter (fun callback => callback.clk < clk) = l := by
    rw [List.filter_append, List.filter_eq_self.mpr (by simpa using hl),
      List.filter_eq_nil_iff.mpr, List.append_nil]
    intro callback hmem
    simp [hnew callback hmem]
  have hsame : l = l' := by rw [← hold hl hnew, h, hold hl' hnew']
  subst hsame
  exact ⟨rfl, List.append_cancel_left h⟩

theorem due_now (clk : Nat) (accepted : List Transaction) :
    ∀ t ∈ accepted.filter fun t => t.addedCycle + latency = clk,
      decide (latency ≤ clk - t.addedCycle) = true := by
  intro t ht
  have heq := of_decide_eq_true (List.mem_filter.mp ht).2
  exact decide_eq_true (by omega)

section

variable {accepted : List Transaction} (h : Serves latency s accepted)

include h

theorem Serves.sorted_due :
    accepted.Pairwise fun t t' => t.addedCycle + latency ≤ t'.addedCycle + latency :=
  h.sorted.imp fun hle => Nat.add_le_add_right hle latency

/-- The queue has the transactions of this cycle first. -/
theorem Serves.queue_eq (hsingle : Single latency s.clk accepted) :
    s.infiniteBufferQ = (accepted.filter fun t => t.addedCycle + latency = s.clk) ++
      accepted.filter fun t => s.clk + 1 ≤ t.addedCycle + latency := by
  rw [h.queue hsingle, filter_le_eq s.clk h.sorted_due]

theorem Serves.due_later : ∀ t ∈ accepted.filter fun t => s.clk + 1 ≤ t.addedCycle + latency,
    decide (latency ≤ s.clk - t.addedCycle) = false := by
  intro t ht
  obtain ⟨hmem, hlt⟩ := List.mem_filter.mp ht
  have hlt := of_decide_eq_true hlt
  have hadded := h.added t hmem
  exact decide_eq_false (by omega)

theorem Serves.expected_succ :
    expected latency (s.clk + 1) accepted = expected latency s.clk accepted ++
      (accepted.filter fun t => t.addedCycle + latency = s.clk).map fun t =>
        ⟨s.clk, t.addr, t.isWrite⟩ := by
  rw [expected, filter_lt_succ s.clk h.sorted_due, List.map_append]
  congr 1
  apply List.map_congr_left
  intro t ht
  have heq := of_decide_eq_true (List.mem_filter.mp ht).2
  rw [callbackOf, heq]

/-- A tick that was served well so far is served well if and only if at most one transaction is
due in it. -/
theorem Serves.clockTick_iff (hsingle : Single latency s.clk accepted) :
    (s.clockTick latency).callbacks = expected latency (s.clk + 1) accepted ↔
      (accepted.filter fun t => t.addedCycle + latency = s.clk).length ≤ 1 := by
  have hlog := h.exact_iff.mpr hsingle
  rw [h.expected_succ, clockTick, h.queue_eq hsingle, hlog]
  dsimp only
  rw [List.append_cancel_left_eq]
  constructor
  · intro heq
    rw [← length_serve_iff (due_now s.clk accepted) h.due_later]
    simpa using congrArg List.length heq
  · intro hone
    rw [serve_eq (due_now s.clk accepted) h.due_later hone]

theorem Serves.tick : Serves latency (s.clockTick latency) accepted := by
  have hlog : ∀ callback ∈ expected latency s.clk accepted, callback.clk < s.clk := by
    intro callback hmem
    obtain ⟨t, ht, rfl⟩ := List.mem_map.mp hmem
    exact of_decide_eq_true (List.mem_filter.mp ht).2
  have hnew (l : List Transaction) :
      ∀ callback ∈ l.map fun t => (⟨s.clk, t.addr, t.isWrite⟩ : IdealCallback),
        callback.clk = s.clk := by
    intro callback hmem
    obtain ⟨t, -, rfl⟩ := List.mem_map.mp hmem
    rfl
  refine ⟨h.sorted, ?_, ?_, ?_, ?_⟩
  · intro t ht
    exact (h.added t ht).trans (Nat.le_succ _)
  · intro callback hmem
    rcases List.mem_append.mp hmem with hold | hmade
    · exact (h.made callback hold).trans (Nat.lt_succ_self _)
    · exact (hnew _ callback hmade).trans_lt (Nat.lt_succ_self _)
  · change (s.clockTick latency).callbacks = expected latency (s.clk + 1) accepted ↔
      Single latency (s.clk + 1) accepted
    rw [single_succ]
    constructor
    · intro heq
      -- what has been made before this tick is what should have been made
      have hbefore : s.callbacks = expected latency s.clk accepted := by
        rw [h.expected_succ] at heq
        exact (append_eq_append_of_clk h.made hlog (hnew _) (hnew _) heq).1
      have hsingle := h.exact_iff.mp hbefore
      exact ⟨hsingle, (h.clockTick_iff hsingle).mp heq⟩
    · rintro ⟨hsingle, hone⟩
      exact (h.clockTick_iff hsingle).mpr hone
  · change Single latency (s.clk + 1) accepted → (s.clockTick latency).infiniteBufferQ = _
    intro hsucc
    obtain ⟨hsingle, hone⟩ := single_succ.mp hsucc
    rw [clockTick, h.queue_eq hsingle, serve_eq (due_now s.clk accepted) h.due_later hone]

end

/-! ## Runs -/

theorem serves_run {ops : List IdealOp} {accepted : List Transaction}
    (hrun : ((idealSystem latency).observe accepts).Run ops (s, accepted)) :
    Serves latency s accepted := by
  refine hrun.invariant (fun p => Serves latency p.1 p.2) (.init latency) ?_
  rintro ⟨s, accepted⟩ op ⟨s', accepted'⟩ hs ⟨hstep, hseen⟩
  dsimp only at hs hstep hseen
  subst hstep hseen
  cases op with
  | add hexAddr isWrite => exact hs.add hexAddr isWrite
  | tick =>
      rw [accepts, List.append_nil]
      exact hs.tick

/-- The memory and what it has accepted after some calls. -/
def after (latency : Nat) (ops : List IdealOp) : IdealDRAMSystem × List Transaction :=
  ops.foldl (fun p op => (p.1.perform latency op, p.2 ++ p.1.accepts op)) ({}, [])

/-- Every sequence of calls is a run. -/
theorem run_after (latency : Nat) (ops : List IdealOp) :
    ((idealSystem latency).observe accepts).Run ops (after latency ops) := by
  induction ops using List.reverseRecOn with
  | nil => exact .start
  | append_singleton ops op ih =>
      rw [after, List.foldl_append]
      exact ih.step ⟨rfl, rfl⟩

/-- In every run with any latency the callbacks are those of the accepted transactions, each at its
cycle and of its kind, in the order of acceptance, if and only if no cycle whose transactions are
due has accepted more than one. -/
theorem fixed_latency_iff {ops : List IdealOp} {accepted : List Transaction}
    (hrun : ((idealSystem latency).observe accepts).Run ops (s, accepted)) :
    s.callbacks = (accepted.filter fun t => t.addedCycle + latency < s.clk).map
        (fun t => ⟨t.addedCycle + latency, t.addr, t.isWrite⟩) ↔
      ∀ c, c + latency < s.clk → (accepted.filter fun t => t.addedCycle = c).length ≤ 1 :=
  (serves_run hrun).exact_iff

/-- A read and a write in the next cycle come back one after the other. -/
theorem fixed_latency_two_cycles :
    let ops : List IdealOp := [.add 64 false, .tick, .add 128 true, .tick, .tick, .tick]
    (after 2 ops).1.callbacks = [⟨2, 64, false⟩, ⟨3, 128, true⟩] ∧
    ∀ c, c + 2 < (after 2 ops).1.clk →
      ((after 2 ops).2.filter fun t => t.addedCycle = c).length ≤ 1 := by
  intro ops
  have hlog : (after 2 ops).1.callbacks = [⟨2, 64, false⟩, ⟨3, 128, true⟩] := by decide
  exact ⟨hlog, (fixed_latency_iff (run_after 2 ops)).mp (hlog.trans (by decide))⟩

/-- Two reads in one cycle: the second one is answered a cycle late. -/
theorem fixed_latency_one_cycle :
    let ops : List IdealOp := [.add 64 false, .add 128 false, .tick, .tick, .tick, .tick]
    ((idealSystem 2).observe accepts).Run ops (after 2 ops) ∧
    (after 2 ops).2 = [{ addr := 64, isWrite := false }, { addr := 128, isWrite := false }] ∧
    (after 2 ops).1.callbacks = [⟨2, 64, false⟩, ⟨3, 128, false⟩] :=
  ⟨run_after 2 _, by decide, by decide⟩

end IdealDRAMSystem

end Dramsim
