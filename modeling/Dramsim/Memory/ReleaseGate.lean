import Dramsim.Controller.Frame
import Dramsim.Library.Queues
import Dramsim.Memory.Runs

/-!
# The release gate

An input command is pushed to `rd_in_cmds_` of its controller together with the clock in
`release_time`, and the controller issues it only when its own clock has reached this time.
Both clocks are the same and never go back, so the gate is open for every command that waits.

The time is kept as an `int`, which is the clock for the first `2 ^ 31` cycles
(`release_gate_open`).  After that it is negative, becomes a large number in the comparison
with the clock, and the command waits forever.
-/

namespace Dramsim

open Library

/-- The inputs that an event has dispatched to a channel, with the clock. -/
def SystemEvent.inputsTo (channel : Nat) : SystemEvent → List (Nat × Command)
  | .dispatched clk _ .inputs cmds =>
      (JedecDRAMSystem.forChannel channel cmds).map fun cmd => (clk, cmd)
  | _ => []

namespace JedecDRAMSystem

variable {config : Config} {s s' : JedecDRAMSystem config}

/-- The inputs that have been dispatched to a channel. -/
def dispatchedTo (s : JedecDRAMSystem config) (channel : Nat) : List (Nat × Command) :=
  s.log.flatMap (SystemEvent.inputsTo channel)

/-- The inputs that wait at a controller are some of those that have been dispatched to it, in this
order, each with the clock of its dispatch as an `int`. -/
def Waits (s : JedecDRAMSystem config) (channel : Nat) (ctrl : Controller config) : Prop :=
  ∃ entries, entries.Sublist (s.dispatchedTo channel) ∧
    Controller.Columns Prod.snd (fun e : Nat × Command => toInt e.1) entries ctrl

/-- All clocks show the time `now`, no dispatch lies in the future, and every controller has its
inputs. -/
structure Timed (now : Nat) (s : JedecDRAMSystem config) : Prop where
  clk : s.clk = now
  dispatches : ∀ channel, ∀ e ∈ s.dispatchedTo channel, e.1 ≤ now
  ctrls : ∀ ctrl ∈ s.ctrls, ctrl.clk = now
  waits : ∀ channel ctrl, s.ctrls[channel]? = some ctrl → s.Waits channel ctrl

/-- The inputs that a push dispatches to a channel. -/
def newInputs (clk channel : Nat) (stream : Stream) (cmds : List Command) : List (Nat × Command) :=
  if stream = .inputs then (forChannel channel cmds).map fun cmd => (clk, cmd) else []

theorem clk_of_mem_newInputs {clk channel : Nat} {stream : Stream} {cmds : List Command}
    {e : Nat × Command} (h : e ∈ newInputs clk channel stream cmds) : e.1 ≤ clk := by
  unfold newInputs at h
  split at h
  · obtain ⟨cmd, _, rfl⟩ := List.mem_map.mp h
    exact Nat.le_refl _
  · exact absurd h List.not_mem_nil

theorem dispatchedTo_push (s : JedecDRAMSystem config) (i : Nat) (stream : Stream)
    (cmds : List Command) (channel : Nat) : (s.push i stream cmds).dispatchedTo channel =
      s.dispatchedTo channel ++ newInputs s.clk channel stream cmds := by
  by_cases hnil : cmds = []
  · cases stream <;> simp [dispatchedTo, JedecDRAMSystem.push, newInputs, forChannel, hnil]
  · cases stream <;>
      simp [dispatchedTo, JedecDRAMSystem.push, newInputs, SystemEvent.inputsTo, hnil]

theorem returnDone_frame (clk : Nat) :
    ∀ (n : Nat) (ctrl : Controller config), Controller.Frame ctrl (returnDone clk n ctrl)
  | 0, ctrl => .refl ctrl
  | n + 1, ctrl => by
      have hfirst := ctrl.returnDoneTrans_frame clk
      rw [returnDone]
      split <;> rename_i hdone <;> rw [hdone] at hfirst
      · exact hfirst.trans (returnDone_frame clk n _)
      · exact hfirst

namespace Timed

variable {now : Nat}

/-- Steps that leave the inputs alone. -/
theorem congr (h : Timed now s) (hclk : s'.clk = s.clk)
    (hlog : ∀ channel, s'.dispatchedTo channel = s.dispatchedTo channel)
    (hctrls : ∀ (channel : Nat) ctrl', s'.ctrls[channel]? = some ctrl' →
      ∃ ctrl, s.ctrls[channel]? = some ctrl ∧ Controller.Frame ctrl ctrl') : Timed now s' := by
  refine ⟨hclk.trans h.clk, fun channel => ?_, fun ctrl' hctrl' => ?_,
    fun channel ctrl' hctrl' => ?_⟩
  · rw [hlog channel]
    exact h.dispatches channel
  · obtain ⟨channel, hchannel⟩ := List.mem_iff_getElem?.mp hctrl'
    obtain ⟨ctrl, hctrl, hframe⟩ := hctrls channel ctrl' hchannel
    rw [hframe.clk]
    exact h.ctrls ctrl (List.mem_of_getElem? hctrl)
  · obtain ⟨ctrl, hctrl, hframe⟩ := hctrls channel ctrl' hctrl'
    obtain ⟨entries, hsub, hcols⟩ := h.waits channel ctrl hctrl
    exact ⟨entries, hlog channel ▸ hsub, hcols.frame hframe⟩

/-- A change of each controller. -/
theorem map (h : Timed now s) {f : Controller config → Controller config}
    (hctrls : s'.ctrls = s.ctrls.map f) (hclk : s'.clk = s.clk) (hlog : s'.log = s.log)
    (hf : ∀ ctrl, Controller.Frame ctrl (f ctrl)) : Timed now s' := by
  refine h.congr hclk (fun _ => by rw [dispatchedTo, hlog, dispatchedTo])
    fun channel ctrl' hctrl' => ?_
  rw [hctrls, List.getElem?_map, Option.map_eq_some_iff] at hctrl'
  obtain ⟨ctrl, hctrl, rfl⟩ := hctrl'
  exact ⟨ctrl, hctrl, hf ctrl⟩

/-- Steps that leave the controllers alone. -/
theorem same (h : Timed now s) (hclk : s'.clk = s.clk) (hctrls : s'.ctrls = s.ctrls)
    (hlog : ∀ channel, s'.dispatchedTo channel = s.dispatchedTo channel) : Timed now s' := by
  refine h.congr hclk hlog fun channel ctrl hctrl => ?_
  exact ⟨ctrl, hctrls ▸ hctrl, .refl ctrl⟩

theorem settle (h : Timed now s) : Timed now s.settle := by
  have hreturn : Timed now s.returnAll :=
    h.map rfl rfl rfl fun ctrl => returnDone_frame s.clk ctrl.returnQueue.length ctrl
  unfold JedecDRAMSystem.settle
  split
  · exact hreturn.same rfl rfl fun _ => rfl
  · exact hreturn

theorem pops (h : Timed now s) (hs : s.Pops s') : Timed now s' := by
  cases hs with
  | none _ => exact h
  | waits _ _ => exact h.map rfl rfl rfl fun _ => ⟨⟨rfl, rfl⟩, rfl, rfl⟩
  | launches _ _ _ => exact h.map rfl rfl rfl fun _ => ⟨⟨rfl, rfl⟩, rfl, rfl⟩
  | flow _ _ =>
      unfold loadDataflow
      dsimp only
      split
      · exact h.map rfl rfl rfl fun _ => ⟨⟨rfl, rfl⟩, rfl, rfl⟩
      · exact h.same rfl rfl fun _ => rfl
  | work _ _ _ _ _ => exact h.same rfl rfl fun _ => rfl

theorem setCut (h : Timed now s) (i : Nat) (c : Cut) : Timed now (s.setCut i c) :=
  h.same rfl rfl fun _ => rfl

/-- Events that dispatch nothing. -/
theorem logged (h : Timed now s) (events : List SystemEvent) (hclk : s'.clk = s.clk)
    (hctrls : s'.ctrls = s.ctrls) (hlog : s'.log = s.log ++ events)
    (hevents : ∀ e ∈ events, ∀ channel, e.inputsTo channel = []) : Timed now s' := by
  refine h.same hclk hctrls fun channel => ?_
  have hnone : events.flatMap (SystemEvent.inputsTo channel) = [] :=
    List.flatMap_eq_nil_iff.mpr fun e he => hevents e he channel
  rw [dispatchedTo, hlog, List.flatMap_append, hnone, List.append_nil, dispatchedTo]

theorem finishTile (h : Timed now s) {i : Nat} {written : Dataflow.Written}
    (hs : s.finishTile i written = .ok s') : Timed now s' := by
  unfold JedecDRAMSystem.finishTile at hs
  dsimp only at hs
  split at hs
  · cases hs
    exact h
  · split at hs
    · cases hs
    · cases hs
      split
      · exact h.logged [.outputExhausted i, .tileWritten i] rfl rfl
          (List.append_assoc ..) (by simp [SystemEvent.inputsTo])
      · exact h.logged [.tileWritten i] rfl rfl rfl (by simp [SystemEvent.inputsTo])

theorem push (h : Timed now s) (i : Nat) (stream : Stream) (cmds : List Command) :
    Timed now (s.push i stream cmds) := by
  refine ⟨h.clk, fun channel e he => ?_, fun ctrl' hctrl' => ?_, fun channel ctrl' hctrl' => ?_⟩
  · rw [dispatchedTo_push] at he
    rcases List.mem_append.mp he with he | he
    · exact h.dispatches channel e he
    · exact h.clk ▸ clk_of_mem_newInputs he
  · rw [push_ctrls, List.mem_mapIdx] at hctrl'
    obtain ⟨channel, hlt, rfl⟩ := hctrl'
    rw [← h.ctrls _ (List.getElem_mem hlt)]
    cases stream <;> rfl
  · rw [push_ctrls, List.getElem?_mapIdx, Option.map_eq_some_iff] at hctrl'
    obtain ⟨ctrl, hctrl, rfl⟩ := hctrl'
    obtain ⟨entries, hsub, hcmds, htimes⟩ := h.waits channel ctrl hctrl
    refine ⟨entries ++ newInputs s.clk channel stream cmds, ?_, ?_⟩
    · rw [dispatchedTo_push]
      exact hsub.append_right _
    · cases stream <;> simp [receive, newInputs, Controller.Columns, hcmds, htimes,
        Function.comp_def]

theorem scheduleCut (h : Timed now s) {wait inRef : Bool} {i : Nat}
    (hs : s.scheduleCut wait inRef i = .ok s') : Timed now s' := by
  unfold JedecDRAMSystem.scheduleCut at hs
  split at hs
  · cases hs
  · split at hs
    · cases hs
      exact h
    · obtain ⟨⟨c, wCmds, inCmds, ended⟩, _, hs⟩ := bind_eq_ok.mp hs
      dsimp only at hs
      have hended : Timed now (if ended then s.record (.endOfComputation i) else s) := by
        split
        · exact h.logged [.endOfComputation i] rfl rfl rfl (by simp [SystemEvent.inputsTo])
        · exact h
      generalize (if ended then s.record (.endOfComputation i) else s) = s₀ at hs hended
      split at hs
      · obtain ⟨⟨c', outCmds, written⟩, _, hs⟩ := bind_eq_ok.mp hs
        obtain ⟨s₁, hs₁, hs⟩ := bind_eq_ok.mp hs
        cases hs
        exact ((((hended.setCut i c').finishTile hs₁).push i _ _).push i _ _).push i _ _
      · cases hs
        exact ((hended.setCut i _).push i _ _).push i _ _

theorem schedule (h : Timed now s) (hs : s.schedule = .ok s') : Timed now s' := by
  obtain ⟨s₁, hs₁, hcuts⟩ := bind_eq_ok.mp hs
  have hcut (t : JedecDRAMSystem config) (i : Nat) (ht : Timed now t) :
      Ensures (t.scheduleCut s.waiting s₁.isInRef i) (Timed now) fun _ => True :=
    Ensures.of_cases (fun _ hok => ht.scheduleCut hok) fun _ _ => trivial
  exact (Ensures.foldlM _ hcut _ _ (h.settle.pops (popPim_spec hs₁))).of_ok hcuts

/-- The controllers make their ticks. -/
theorem advance (h : Timed now s) {ctrls : List (Controller config)}
    (hctrls : s.ctrls.mapM Controller.clockTick = .ok ctrls) :
    Timed (now + 1) { s with ctrls := ctrls, clk := s.clk + 1 } := by
  have hticks := mapM_eq_ok.mp hctrls
  have hold {channel : Nat} {ctrl' : Controller config} (hctrl' : ctrls[channel]? = some ctrl') :
      ∃ ctrl, s.ctrls[channel]? = some ctrl ∧ ctrl.clockTick = .ok ctrl' := by
    obtain ⟨hlt, rfl⟩ := List.getElem?_eq_some_iff.mp hctrl'
    have hlt' : channel < s.ctrls.length := hticks.length_eq ▸ hlt
    exact ⟨_, List.getElem?_eq_getElem hlt', hticks.get hlt' hlt⟩
  refine ⟨congrArg (· + 1) h.clk, fun channel e he => ?_, fun ctrl' hctrl' => ?_,
    fun channel ctrl' hctrl' => ?_⟩
  · exact Nat.le_succ_of_le (h.dispatches channel e he)
  · obtain ⟨channel, hchannel⟩ := List.mem_iff_getElem?.mp hctrl'
    obtain ⟨ctrl, hctrl, htick⟩ := hold hchannel
    rw [(Controller.clockTick_timers htick).1, h.ctrls ctrl (List.mem_of_getElem? hctrl)]
  · obtain ⟨ctrl, hctrl, htick⟩ := hold hctrl'
    obtain ⟨entries, hsub, hcols⟩ := h.waits channel ctrl hctrl
    obtain ⟨rest, hrest, hcols'⟩ := Controller.clockTick_columns hcols htick
    exact ⟨rest, hrest.trans hsub, hcols'⟩

theorem addTransaction (h : Timed now s) (hexAddr : Nat) (isWrite : Bool) :
    Timed now (s.addTransaction hexAddr isWrite) := by
  refine h.congr rfl (fun _ => rfl) fun channel ctrl' hctrl' => ?_
  simp only [JedecDRAMSystem.addTransaction, List.getElem?_modify] at hctrl'
  obtain ⟨ctrl, hctrl, rfl⟩ := Option.map_eq_some_iff.mp hctrl'
  refine ⟨ctrl, hctrl, ?_⟩
  split
  · exact ctrl.addTransaction_frame _
  · exact .refl ctrl

theorem init : Timed 0 ({} : JedecDRAMSystem config) := by
  refine ⟨rfl, fun _ _ he => absurd he List.not_mem_nil, fun ctrl hctrl => ?_,
    fun _ ctrl hctrl => ?_⟩
  · rw [List.eq_of_mem_replicate hctrl]
  · have hctrl' := List.eq_of_mem_replicate (List.mem_of_getElem? hctrl)
    rw [hctrl']
    exact ⟨[], List.nil_sublist _, rfl, rfl⟩

end Timed

/-! ## Runs -/

/-- The gate of every controller is open for all inputs that wait there.  These are some of the
dispatched ones, and their release times are the clocks of their dispatches. -/
def GatesOpen (s : JedecDRAMSystem config) : Prop :=
  ∀ (channel : Nat) ctrl, s.ctrls[channel]? = some ctrl →
    ctrl.releaseTime.length = ctrl.rdInCmds.length ∧
    (∃ entries : List (Nat × Command), entries.Sublist (s.dispatchedTo channel) ∧
      ctrl.rdInCmds = entries.map Prod.snd ∧ ctrl.releaseTime = entries.map fun e => (e.1 : Int)) ∧
    ∀ time ∈ ctrl.releaseTime, toU64 time ≤ ctrl.clk

/-- Every dispatch has been made in the first `2 ^ 31` cycles. -/
def Early (s : JedecDRAMSystem config) : Prop :=
  ∀ channel, ∀ e ∈ s.dispatchedTo channel, e.1 < 2 ^ 31

theorem Timed.gatesOpen {now : Nat} (h : Timed now s) (hearly : Early s) : GatesOpen s := by
  intro channel ctrl hctrl
  obtain ⟨entries, hsub, hcmds, htimes⟩ := h.waits channel ctrl hctrl
  have hexact : ctrl.releaseTime = entries.map fun e => (e.1 : Int) := by
    rw [htimes]
    exact List.map_congr_left fun e he => toInt_of_lt (hearly channel e (hsub.subset he))
  refine ⟨by rw [htimes, hcmds, List.length_map, List.length_map], ⟨entries, hsub, hcmds, hexact⟩,
    ?_⟩
  rw [hexact, List.forall_mem_map]
  intro e he
  have hclk := h.ctrls ctrl (List.mem_of_getElem? hctrl)
  have hpast := h.dispatches channel e (hsub.subset he)
  have hsmall := hearly channel e (hsub.subset he)
  have hu64 := toU64_of_nonneg (i := e.1) (by omega) (by omega)
  omega

/-- The clock has not left the range of an `int`. -/
def TicksEarly (s : JedecDRAMSystem config) (op : SystemOp) : Prop := op = .tick → s.clk < 2 ^ 31

theorem timed_of_run {ops : List SystemOp}
    (hrun : ((memorySystem config).restrict TicksEarly).Run ops s) : Timed s.clk s ∧ Early s := by
  refine hrun.invariant (fun s => Timed s.clk s ∧ Early s) ⟨.init, ?_⟩ ?_
  · exact fun _ _ he => absurd he List.not_mem_nil
  · rintro s op s' ⟨h, hearly⟩ ⟨hstep, hticks⟩
    cases op with
    | addPim hexAddr =>
        obtain ⟨_, rfl⟩ := hstep
        exact ⟨h.same rfl rfl fun _ => rfl, hearly⟩
    | add hexAddr isWrite =>
        obtain ⟨_, rfl⟩ := hstep
        exact ⟨h.addTransaction hexAddr isWrite, hearly⟩
    | tick =>
        obtain ⟨s₁, hs₁, hstep⟩ := bind_eq_ok.mp hstep
        obtain ⟨ctrls, hctrls, hstep⟩ := bind_eq_ok.mp hstep
        cases hstep
        have h₁ := h.schedule hs₁
        refine ⟨?_, fun channel e he => (h₁.dispatches channel e he).trans_lt (hticks rfl)⟩
        exact h₁.clk ▸ h₁.advance hctrls

/-- In every run that ticks only in the first `2 ^ 31` cycles: the release times of a controller are
the clocks at which its waiting inputs have been dispatched, and the gate is open for all of them.
This holds between the ticks, and after the scheduler of a tick, when the controllers make the
test. -/
theorem release_gate_open {ops : List SystemOp}
    (hrun : ((memorySystem config).restrict TicksEarly).Run ops s) :
    GatesOpen s ∧ ∀ s₁, s.clk < 2 ^ 31 → s.schedule = .ok s₁ → GatesOpen s₁ := by
  obtain ⟨h, hearly⟩ := timed_of_run hrun
  refine ⟨h.gatesOpen hearly, fun s₁ hclk hs₁ => ?_⟩
  have h₁ := h.schedule hs₁
  exact h₁.gatesOpen fun channel e he => (h₁.dispatches channel e he).trans_lt hclk

/-- In the eighth cycle a kernel dispatches its first input. -/
theorem release_gate_open_kernel : ∃ s s₁ : JedecDRAMSystem .oneCycle, s.clk = 7 ∧
    s.schedule = .ok s₁ ∧ s₁.ctrls.map Controller.releaseTime = [[7]] ∧ GatesOpen s₁ := by
  have hsome : ((replayWhere .oneCycle (fun s _ => decide (s.clk < 2 ^ 31))
      (kernelWords (dataflowWord 0 0 0 0) 1 1 1 0 0 0 ++ List.replicate 7 .tick)).any fun s =>
      s.clk = 7 && s.schedule.toOption.any fun s₁ =>
        s₁.ctrls.map Controller.releaseTime = [[7]]) = true := by
    decide +kernel
  obtain ⟨s, hs, hend⟩ := Option.any_eq_true _ _ |>.mp hsome
  simp only [Bool.and_eq_true, decide_eq_true_eq] at hend
  obtain ⟨hclk, hnext⟩ := hend
  obtain ⟨s₁, hs₁, htimes⟩ := Option.any_eq_true _ _ |>.mp hnext
  have hok : s.schedule = .ok s₁ := toOption_eq_some.mp hs₁
  have hrun : ((memorySystem .oneCycle).restrict TicksEarly).Run _ s :=
    (run_of_replayWhere hs).weaken fun _ _ hearly _ => of_decide_eq_true hearly
  exact ⟨s, s₁, hclk, hok, of_decide_eq_true htimes, (release_gate_open hrun).2 s₁ (by omega) hok⟩

end JedecDRAMSystem

/-! ## A clock beyond the range -/

/-- A device that makes a refresh every `2 ^ 31 - 1` cycles. -/
def Config.slowRefresh : Config := { Config.oneCycle with tREFI := 2147483647, tRFC := 1 }

/-- A controller to which nothing has been sent for `n` cycles. -/
def Controller.idle (n : Nat) : Controller .slowRefresh :=
  { clk := n, cmdQueue := { clk := n }, refresh := { clk := n }
    channelState := { rankIdleCycles := fun i => if 0 ≤ i ∧ i < 1 then n else 0 } }

namespace Controller

theorem idle_tickRefresh {n : Nat} (h : n < 2147483647) :
    (idle n).tickRefresh = .ok { idle n with refresh := { clk := n + 1 } } := by
  have hinterval : toU64 Config.slowRefresh.refreshInterval = 2147483647 := rfl
  unfold tickRefresh idle Refresh.clockTick
  dsimp only
  rw [hinterval, if_neg (by decide), if_neg (by omega)]
  rfl

theorem idle_rankIdleCycles (n : Nat) (i : Int) :
    (if 0 ≤ i ∧ i < (Config.slowRefresh.ranks : Int) ∧ !(idle n).channelState.rankIsSref i then
      if (idle n).channelState.isAllBankIdleInRank .slowRefresh i then
        (idle n).channelState.rankIdleCycles i + 1
      else 0
    else (idle n).channelState.rankIdleCycles i) =
      (idle (n + 1)).channelState.rankIdleCycles i := by
  have hbanks : (idle n).channelState.isAllBankIdleInRank .slowRefresh i = true :=
    List.all_eq_true.mpr fun _ _ => rfl
  have hranks : (Config.slowRefresh.ranks : Int) = 1 := rfl
  rw [hbanks, hranks]
  by_cases hi : 0 ≤ i ∧ i < 1 <;> simp [idle, hi]

theorem idle_updateIdleCycles (n : Nat) :
    ({ idle n with refresh := { clk := n + 1 } } : Controller _).updateIdleCycles =
      { idle (n + 1) with clk := n, cmdQueue := { clk := n } } :=
  congrArg (fun cycles => ({ idle n with
      refresh := { clk := n + 1 }, channelState := { rankIdleCycles := cycles } } : Controller _))
    (funext (idle_rankIdleCycles n))

theorem idle_scheduleTransaction (n : Nat) :
    ({ idle (n + 1) with clk := n, cmdQueue := { clk := n } } : Controller _).scheduleTransaction =
      { idle (n + 1) with clk := n, cmdQueue := { clk := n } } := by
  rw [scheduleTransaction_of_none rfl]
  rfl

theorem idle_clockTick {n : Nat} (h : n < 2147483647) :
    (idle n).clockTick = .ok (idle (n + 1)) := by
  unfold clockTick beforeSchedule
  rw [idle_tickRefresh h]
  dsimp only [bind, Except.bind]
  rw [show ({ idle n with refresh := { clk := n + 1 } } : Controller _).issueCommands =
      .ok (false, { idle n with refresh := { clk := n + 1 } }) from rfl]
  dsimp only
  rw [idle_updateIdleCycles]
  dsimp only
  rw [if_neg (by decide)]
  dsimp only
  rw [idle_scheduleTransaction]
  rfl

end Controller

namespace JedecDRAMSystem

/-- A memory system to which nothing has been sent for `n` cycles. -/
def idle (n : Nat) : JedecDRAMSystem .slowRefresh := { clk := n, ctrls := [.idle n] }

theorem idle_clockTick {n : Nat} (h : n < 2147483647) :
    (idle n).clockTick = .ok (idle (n + 1)) := by
  have hwait : (idle n).waiting = false := by
    unfold waiting waitRefresh
    exact Bool.and_false _
  have hsettle : (idle n).settle = idle n := by
    unfold settle
    rw [hwait]
    rfl
  have hpop : (idle n).settle.popPim = .ok (idle n) := by
    rw [hsettle]
    rfl
  have hschedule : (idle n).schedule = .ok (idle n) := bind_eq_ok.mpr ⟨_, hpop, rfl⟩
  have hctrls : (idle n).ctrls.mapM Controller.clockTick = .ok (idle (n + 1)).ctrls :=
    mapM_eq_ok.mpr (.cons (Controller.idle_clockTick h) .nil)
  exact bind_eq_ok.mpr ⟨_, hschedule, bind_eq_ok.mpr ⟨_, hctrls, rfl⟩⟩

theorem idle_zero : (memorySystem .slowRefresh).init = idle 0 := by
  have hcycles : (fun i : Int => if 0 ≤ i ∧ i < 1 then ((0 : Nat) : Int) else 0) = fun _ => 0 :=
    funext fun _ => ite_self 0
  unfold idle Controller.idle
  rw [hcycles]
  rfl

theorem idle_run : ∀ n ≤ 2147483647,
    (memorySystem .slowRefresh).Run (List.replicate n .tick) (idle n)
  | 0, _ => idle_zero ▸ .start
  | n + 1, h => by
      rw [List.replicate_succ']
      exact (idle_run n (by omega)).step (idle_clockTick (by omega))

/-- A read that ends the idle time of the rank, and after the refresh of cycle `2 ^ 31 - 1` a
kernel. -/
def lateKernel : List SystemOp :=
  [.add 0 false] ++ List.replicate 10 .tick ++ kernelWords (dataflowWord 0 0 0 0) 1 1 1 0 0 0 ++
    List.replicate 8 .tick

/-- The input that this kernel dispatches in cycle `2 ^ 31 + 11` has a negative release time, for
which the gate is closed. -/
theorem release_gate_closed : ∃ ops, ∃ s : JedecDRAMSystem .slowRefresh, ∃ ctrl,
    (memorySystem .slowRefresh).Run ops s ∧ s.ctrls = [ctrl] ∧ ctrl.rdInCmds.length = 1 ∧
    (s.dispatchedTo 0).map Prod.fst = [2147483659] ∧ ctrl.releaseTime = [-2147483637] ∧
    ctrl.clk = 2147483660 ∧ ¬ ∀ time ∈ ctrl.releaseTime, toU64 time ≤ ctrl.clk := by
  have hsome : ((replayFrom (fun _ _ => true) lateKernel (idle 2147483642)).any fun s =>
      s.ctrls.map (fun ctrl => (ctrl.rdInCmds.length, ctrl.releaseTime, ctrl.clk)) =
        [(1, [-2147483637], 2147483660)] &&
      (s.dispatchedTo 0).map Prod.fst = [2147483659]) = true := by
    decide +kernel
  obtain ⟨s, hs, hend⟩ := Option.any_eq_true _ _ |>.mp hsome
  simp only [Bool.and_eq_true, decide_eq_true_eq] at hend
  obtain ⟨hctrls, hdispatched⟩ := hend
  obtain ⟨ctrl, hctrl, hshape⟩ := List.map_eq_singleton_iff.mp hctrls
  simp only [Prod.mk.injEq] at hshape
  have hrun : (memorySystem .slowRefresh).Run (List.replicate 2147483642 .tick ++ lateKernel) s :=
    System.run_of_replay (fun _ _ _ (_ : True) hstep => step_of_perform hstep)
      (idle_run 2147483642 (by omega)) (fun _ _ => trivial) (by simpa [replayFrom] using hs)
  refine ⟨_, s, ctrl, hrun, hctrl, hshape.1, hdispatched, hshape.2.1, hshape.2.2, ?_⟩
  rw [hshape.2.1, hshape.2.2]
  decide

end JedecDRAMSystem

end Dramsim
