import Dramsim.Library.System
import Dramsim.Model.Capacity
import Dramsim.Model.DramSystem

/-!
# Runs of the memory system

The memory system is driven by ordinary transactions, PIM words and clock ticks.
`clockTick_spec` takes a tick apart into its phases, `popPim_spec` says what a PIM word
does and `scheduleCut_spec` what the scheduler does with a cut.

The results about PIM kernels are about runs with one cut: every dataflow word asks for
`vcuts = hcuts = 1`.  `OneCut` is what such runs preserve.
-/

namespace Dramsim

open Library (System)

/-- `Config.hbm2Rank` with `BL = 2`, one queue and timings of one cycle. -/
def Config.oneCycle : Config :=
  { Config.hbm2Rank with
    BL := 2, shiftBits := 4, baPos := 7, bgPos := 9, raPos := 11, roPos := 11, burstCycle := 1
    CL := 1, CWL := 1, tRCDRD := 1, tRCDWR := 1, tRP := 1, tRAS := 1, tRRD_S := 1, tRRD_L := 1
    tWTR_S := 1, tWTR_L := 1, tRTP := 1, tFAW := 1, tWR := 1, tCCD_S := 1, tCCD_L := 1
    queueStructure := .perRank }

example : (hbm2File { Config.oneCycle with columns := 128 }).Builds .oneCycle := ⟨rfl, rfl⟩

/-! ## Runs -/

/-- Operations on a memory system. -/
inductive SystemOp where
  | addPim (hexAddr : Nat)
  | add (hexAddr : Nat) (isWrite : Bool)
  | tick
deriving DecidableEq, Repr

/-- The commands that an event has pushed into a stream. -/
def SystemEvent.pushed? (stream : Stream) : SystemEvent → Option (List Command)
  | .dispatched _ _ stream' cmds => if stream' = stream then some cmds else none
  | _ => none

/-- The commands that have been pushed into a stream, tick by tick. -/
def JedecDRAMSystem.pushed {config : Config} (s : JedecDRAMSystem config) (stream : Stream) :
    List (List Command) :=
  s.log.filterMap (SystemEvent.pushed? stream)

/-- The memory system as a transition system.  Words and transactions are only added
when they are accepted. -/
def memorySystem (config : Config) : System (JedecDRAMSystem config) SystemOp where
  init := {}
  step s op s' :=
    match op with
    | .addPim hexAddr => s.willAcceptPim = true ∧ s' = s.addPim hexAddr
    | .add hexAddr isWrite =>
        s.willAcceptTransaction hexAddr isWrite = true ∧ s' = s.addTransaction hexAddr isWrite
    | .tick => s.clockTick = .ok s'

namespace JedecDRAMSystem

variable {config : Config} {s s' : JedecDRAMSystem config}
  {cond : JedecDRAMSystem config → SystemOp → Bool} {ops : List SystemOp}

/-- The step that an operation asks for. -/
def perform (s : JedecDRAMSystem config) : SystemOp → Option (JedecDRAMSystem config)
  | .addPim hexAddr => if s.willAcceptPim then some (s.addPim hexAddr) else none
  | .add hexAddr isWrite =>
      if s.willAcceptTransaction hexAddr isWrite then some (s.addTransaction hexAddr isWrite)
      else none
  | .tick =>
      match s.clockTick with
      | .ok s' => some s'
      | .error _ => none

theorem step_of_perform {op : SystemOp} (h : s.perform op = some s') :
    (memorySystem config).step s op s' := by
  cases op <;> unfold perform at h <;> dsimp only at h
  case addPim | add =>
    split at h
    · cases h
      exact ⟨‹_›, rfl⟩
    · cases h
  case tick =>
    split at h
    · cases h
      assumption
    · cases h

/-- Run a list of operations from a state, as far as each is possible and meets a
condition. -/
def replayFrom (cond : JedecDRAMSystem config → SystemOp → Bool) (ops : List SystemOp)
    (s : JedecDRAMSystem config) : Option (JedecDRAMSystem config) :=
  System.replay (fun s op => if cond s op then s.perform op else none) ops s

/-- Run a list of operations from the initial state. -/
def replayWhere (config : Config) (cond : JedecDRAMSystem config → SystemOp → Bool)
    (ops : List SystemOp) : Option (JedecDRAMSystem config) :=
  replayFrom cond ops {}

theorem run_of_replayFrom {s₀ : JedecDRAMSystem config} (h : replayFrom cond ops s₀ = some s) :
    (((memorySystem config).startingAt s₀).restrict fun s op => cond s op = true).Run ops s := by
  refine System.run_of_replay
    (S := ((memorySystem config).startingAt s₀).restrict fun s op => cond s op = true)
    (fun s op s' (_ : True) hs => ?_) .start (fun _ _ => trivial) h
  split at hs
  · rename_i hcond
    exact ⟨step_of_perform hs, hcond⟩
  · cases hs

theorem run_of_replayWhere (h : replayWhere config cond ops = some s) :
    ((memorySystem config).restrict fun s op => cond s op = true).Run ops s :=
  run_of_replayFrom h

/-! ## The words of a kernel -/

/-- A word that loads a dataflow with one cut.  The factors and the size of an `M` tile
are given by their exponents. -/
def dataflowWord (df mcf ucf mTileSize : Nat) : Nat :=
  (mTileSize <<< 18) ||| (df <<< 17) ||| (ucf <<< 14) ||| (mcf <<< 11) ||| (3 <<< 5)

/-- A word that loads a dimension and a base row of the first cut. -/
def workloadWord (loadType dimValue baseRow : Nat) : Nat :=
  (baseRow <<< 39) ||| (dimValue <<< 7) ||| (loadType <<< 5)

/-- The words that configure a kernel with the base rows of its weights, outputs and
inputs, and launch it. -/
def kernelWords (flow M N K baseRowsW baseRowsOut baseRowsIn : Nat) : List SystemOp :=
  [.addPim flow, .addPim (workloadWord 0 M baseRowsW), .addPim (workloadWord 1 K baseRowsOut),
    .addPim (workloadWord 2 N baseRowsIn), .addPim 3]

/-! ## The phases of a tick -/

/-- The first phase of a tick: completed transactions are returned. -/
def returnAll (s : JedecDRAMSystem config) : JedecDRAMSystem config :=
  { s with
    ctrls := s.ctrls.map fun (ctrl : Controller config) =>
      returnDone s.clk ctrl.returnQueue.length ctrl }

/-- `wait_refresh` of a tick. -/
def waiting (s : JedecDRAMSystem config) : Bool := s.returnAll.waitRefresh

/-- The state when a PIM word is looked for: the flags are cleared when a refresh is
near. -/
def settle (s : JedecDRAMSystem config) : JedecDRAMSystem config :=
  if s.waiting then s.returnAll.clearFlags else s.returnAll

theorem clockTick_spec (h : s.clockTick = .ok s') :
    ∃ s₁ s₂ ctrls, s.settle.popPim = .ok s₁ ∧
      (List.range (numCuts s₁.dataflow)).foldlM (scheduleCut s.waiting s₁.isInRef) s₁ = .ok s₂ ∧
      s₂.ctrls.mapM Controller.clockTick = .ok ctrls ∧
      s' = { s₂ with ctrls := ctrls, clk := s₂.clk + 1 } := by
  obtain ⟨s₂, hs₂, h⟩ := Library.bind_eq_ok.mp h
  obtain ⟨ctrls, hctrls, h⟩ := Library.bind_eq_ok.mp h
  obtain ⟨s₁, hs₁, hcuts⟩ := Library.bind_eq_ok.mp hs₂
  exact ⟨s₁, s₂, ctrls, hs₁, hcuts, hctrls, (Except.ok.inj h).symm⟩

/-- What the first PIM word does. -/
inductive Pops (s : JedecDRAMSystem config) : JedecDRAMSystem config → Prop where
  /-- No word waits. -/
  | none : s.pimTransQueue = [] → Pops s s
  /-- A launch waits for the configuration of a cut. -/
  | waits {addr : Nat} {rest : List Nat} : s.pimTransQueue = addr :: rest → isLaunch addr = true →
      Pops s { s with ctrls := s.ctrls.map fun ctrl => { ctrl with inPim := true } }
  /-- A launch. -/
  | launches {addr : Nat} {rest : List Nat} : s.pimTransQueue = addr :: rest →
      isLaunch addr = true →
      (∀ i < (s.dataflow.vcuts * s.dataflow.hcuts).toNat, ∃ c, s.cuts[i]? = some c ∧
        (addr >>> 1).testBit i = true ∧ c.M ≠ 0 ∧ c.N ≠ 0 ∧ c.K ≠ 0) →
      Pops s { s with
        ctrls := s.ctrls.map fun ctrl => { ctrl with inPim := true }
        cuts := s.cuts.mapIdx fun i c =>
          if (addr >>> 1).testBit i then { c with inPim := true } else c
        pimTransQueue := rest }
  /-- A dataflow configuration. -/
  | flow {addr : Nat} {rest : List Nat} : s.pimTransQueue = addr :: rest →
      isDataflow addr = true → Pops s (s.loadDataflow addr rest)
  /-- A part of a workload. -/
  | work {addr : Nat} {rest : List Nat} {c c' : Cut} : s.pimTransQueue = addr :: rest →
      isLaunch addr = false → isDataflow addr = false → s.cuts[bits addr 1 4]? = some c →
      loadInto addr c = .ok c' →
      Pops s { s with cuts := s.cuts.set (bits addr 1 4) c', pimTransQueue := rest }

theorem popPim_spec (h : s.popPim = .ok s') : s.Pops s' := by
  unfold popPim at h
  split at h
  · cases h
    exact .none ‹_›
  · rename_i addr rest hq
    split at h
    · rename_i hlaunch
      unfold launch at h
      dsimp only at h
      split at h
      · cases h
      · split at h
        · rename_i hall
          cases h
          refine .launches hq hlaunch fun i hi => ?_
          have hi' := List.all_eq_true.mp hall i (List.mem_range.mpr hi)
          rw [Bool.and_eq_true, Option.any_eq_true] at hi'
          obtain ⟨hbit, c, hc, hdims⟩ := hi'
          simp only [Bool.and_eq_true, decide_eq_true_eq] at hdims
          exact ⟨c, hc, hbit, hdims.1.1, hdims.1.2, hdims.2⟩
        · cases h
          exact .waits hq hlaunch
    · rename_i hlaunch
      split at h
      · cases h
        exact .flow hq ‹_›
      · rename_i hflow
        unfold loadWorkload at h
        dsimp only at h
        split at h
        · cases h
        · rename_i c hc
          obtain ⟨c', hc', h⟩ := Library.bind_eq_ok.mp h
          cases h
          exact .work hq (Bool.eq_false_iff.mpr hlaunch) (Bool.eq_false_iff.mpr hflow) hc hc'

end JedecDRAMSystem

/-! ## Runs with one cut -/

/-- A dataflow that a word with `vcuts = hcuts = 1` configures. -/
structure Dataflow.SingleCut (d : Dataflow) : Prop where
  vcuts : d.vcuts = 1
  hcuts : d.hcuts = 1
  mcf : ∃ a : Nat, d.mcf = 2 ^ a
  ucf : ∃ b : Nat, d.ucf = 2 ^ b
  mc : d.mc = d.mcf * d.ucf
  df : d.df = 0 ∨ d.df = 1
  mTileSize : ∃ e : Nat, d.mTileSize = 2 ^ e

namespace Dataflow.SingleCut

variable {config : Config} {d : Dataflow} (hd : d.SingleCut)

include hd

theorem numCuts : JedecDRAMSystem.numCuts d = 1 := by
  simp [JedecDRAMSystem.numCuts, hd.vcuts, hd.hcuts]

theorem vcutNo (i : Nat) : d.vcutNo i = 0 := by
  simp [Dataflow.vcutNo, hd.vcuts]

theorem hcutNo : d.hcutNo 0 = 0 := by
  simp [Dataflow.hcutNo, hd.vcuts]

theorem cutHeight : d.cutHeight config = config.channels := by
  simp [Dataflow.cutHeight, hd.hcuts]

theorem loop_cutHeight : loop (d.cutHeight config) = List.range config.channels := by
  rw [loop, hd.cutHeight, Int.toNat_natCast]

theorem cutWidth : d.cutWidth config = config.banks := by
  simp [Dataflow.cutWidth, hd.vcuts]

theorem nTileSize : d.nTileSize = 128 := by
  simp [Dataflow.nTileSize, hd.vcuts]

theorem nTileSizeOut : d.nTileSizeOut = 128 := by
  rw [Dataflow.nTileSizeOut, hd.nTileSize, ite_self]

theorem outEnable (i : Nat) : d.outEnable config i := by
  right
  rw [hd.vcutNo]
  rfl

theorem mTileSize_pos : 0 < d.mTileSize := by
  obtain ⟨e, he⟩ := hd.mTileSize
  rw [he]
  exact Int.pow_pos (by decide)

theorem mcf_pos : 0 < d.mcf := by
  obtain ⟨a, ha⟩ := hd.mcf
  rw [ha]
  exact Int.pow_pos (by decide)

theorem mTileSizeOut_nonneg : 0 ≤ d.mTileSizeOut := by
  unfold Dataflow.mTileSizeOut
  split
  · exact Int.mul_nonneg (Int.tdiv_nonneg hd.mTileSize_pos.le (by decide)) hd.mcf_pos.le
  · exact hd.mTileSize_pos.le

theorem mc_pow : ∃ n : Nat, d.mc = 2 ^ n := by
  obtain ⟨a, ha⟩ := hd.mcf
  obtain ⟨b, hb⟩ := hd.ucf
  exact ⟨a + b, by rw [hd.mc, ha, hb, Int.pow_add]⟩

theorem mc_pos : 0 < d.mc := by
  obtain ⟨n, hn⟩ := hd.mc_pow
  rw [hn]
  exact Int.pow_pos (by decide)

end Dataflow.SingleCut

namespace JedecDRAMSystem

variable {config : Config}

/-- A dataflow word asks for one cut. -/
def asksOneCut (hexAddr : Nat) : Bool :=
  !isDataflow hexAddr ||
    ((decodeDataflow hexAddr).vcuts = 1 && (decodeDataflow hexAddr).hcuts = 1)

theorem singleCut_decodeDataflow {addr : Nat} (h : asksOneCut addr = true)
    (hflow : isDataflow addr = true) : (decodeDataflow addr).SingleCut := by
  simp only [asksOneCut, hflow, Bool.not_true, Bool.false_or, Bool.and_eq_true,
    decide_eq_true_eq] at h
  refine ⟨h.1, h.2, ⟨_, rfl⟩, ⟨_, rfl⟩, rfl, ?_, ⟨_, rfl⟩⟩
  have hbit : bits addr 17 1 < 2 := Nat.and_lt_two_pow (n := 1) _ (by decide)
  simp only [decodeDataflow]
  omega

end JedecDRAMSystem

/-- A dataflow word among the operations asks for one cut. -/
def SystemOp.oneCut : SystemOp → Bool
  | .addPim hexAddr => JedecDRAMSystem.asksOneCut hexAddr
  | _ => true

namespace JedecDRAMSystem

variable {config : Config} {wait : Bool} {s s' : JedecDRAMSystem config} {c : Cut}

/-- The dataflow and the cuts of a run with one cut. -/
inductive Loaded (d : Dataflow) : List Cut → Prop where
  /-- No dataflow word has come. -/
  | blank : d = {} → Loaded d []
  | cut (c : Cut) : d.SingleCut → Loaded d [c]

/-- All words ask for one cut. -/
structure OneCut (s : JedecDRAMSystem config) : Prop where
  words : ∀ addr ∈ s.pimTransQueue, asksOneCut addr = true
  loaded : Loaded s.dataflow s.cuts
  channels : s.ctrls.length = config.channels

namespace OneCut

theorem init : OneCut ({} : JedecDRAMSystem config) where
  words := by simp
  loaded := .blank rfl
  channels := by simp

variable {s s' : JedecDRAMSystem config} (h : OneCut s)

include h

theorem settle : OneCut s.settle := by
  have hreturn : OneCut s.returnAll := ⟨h.words, h.loaded, by simpa [returnAll] using h.channels⟩
  unfold JedecDRAMSystem.settle
  split
  · refine ⟨hreturn.words, ?_, hreturn.channels⟩
    have hl := hreturn.loaded
    simp only [clearFlags]
    generalize s.returnAll.cuts = cuts at hl
    cases hl with
    | blank hd => exact .blank hd
    | cut c hd => exact .cut _ hd
  · exact hreturn

theorem popPim (hs : s.popPim = .ok s') : OneCut s' := by
  have hl := h.loaded
  cases popPim_spec hs with
  | none _ => exact h
  | waits hq _ => exact ⟨h.words, hl, by simpa using h.channels⟩
  | launches hq _ _ =>
      refine ⟨fun addr hmem => h.words addr (by rw [hq]; exact List.mem_cons_of_mem _ hmem), ?_,
        by simpa using h.channels⟩
      dsimp only
      generalize s.cuts = cuts at hl
      cases hl with
      | blank hd => exact .blank hd
      | cut c hd => exact .cut _ hd
  | flow hq hflow =>
      rename_i addr rest
      have hd := singleCut_decodeDataflow (h.words addr (by simp [hq])) hflow
      refine ⟨fun a hmem => h.words a (by rw [hq]; exact List.mem_cons_of_mem _ hmem), ?_, ?_⟩
      · simp only [loadDataflow, hd.numCuts]
        exact .cut _ hd
      · simp [loadDataflow, hd.vcuts, hd.hcuts, h.channels]
  | work hq _ _ hc _ =>
      refine ⟨fun a hmem => h.words a (by rw [hq]; exact List.mem_cons_of_mem _ hmem), ?_,
        h.channels⟩
      dsimp only
      generalize s.cuts = cuts at hl hc
      cases hl with
      | blank hd => cases hc
      | cut c hd =>
          generalize bits _ 1 4 = i at hc ⊢
          cases i with
          | zero => exact .cut _ hd
          | succ i => cases hc

end OneCut

/-! ## The round of a cut -/

/-- The output stage of a round, for the cut before the round and after its input
stage. -/
inductive Outputs (s : JedecDRAMSystem config) (wait : Bool) (c c₁ : Cut) :
    Cut → List Command → Dataflow.Written → Prop where
  /-- No output is valid. -/
  | skips : ¬ (0 < c₁.outputValid ∧ c.iwStatus = .streamed) → Outputs s wait c c₁ c₁ [] .column
  | asks {c₂ : Cut} {cmds : List Command} {written : Dataflow.Written} :
      0 < c₁.outputValid → c.iwStatus = .streamed →
      s.writeOutputs 0 c₁ wait = .ok (c₂, cmds, written) → Outputs s wait c c₁ c₂ cmds written

/-- The cut after its last output of a tile. -/
def closeTile (c : Cut) : Dataflow.Written → Cut
  | .column => c
  | .tile => { c with outputValid := c.outputValid - 1 }
  | .all => { c with inPim := false, outputValid := c.outputValid - 1 }

/-- The events of the last output of a tile. -/
def tileEvents : Dataflow.Written → List SystemEvent
  | .column => []
  | .tile => [.tileWritten 0]
  | .all => [.outputExhausted 0, .tileWritten 0]

/-- The events of a round. -/
def roundEvents (clk : Nat) (wCmds inCmds outCmds : List Command) (ended : Bool)
    (written : Dataflow.Written) : List SystemEvent :=
  let sent (stream : Stream) (cmds : List Command) : List SystemEvent :=
    if cmds = [] then [] else [.dispatched clk 0 stream cmds]
  (if ended then [.endOfComputation 0] else []) ++ tileEvents written ++
    (sent .weights wCmds ++ sent .inputs inCmds ++ sent .outputs outCmds)

/-- The controllers after the pushes of a round. -/
def pushAll (s : JedecDRAMSystem config) (wCmds inCmds outCmds : List Command) :
    List (Controller config) :=
  (((s.push 0 .weights wCmds).push 0 .inputs inCmds).push 0 .outputs outCmds).ctrls

/-- The state after a round. -/
def afterRound (s : JedecDRAMSystem config) (c : Cut) (wCmds inCmds outCmds : List Command)
    (ended : Bool) (written : Dataflow.Written) : JedecDRAMSystem config :=
  { s with
    cuts := [closeTile c written]
    turnOff := s.turnOff || written = .all
    ctrls := s.pushAll wCmds inCmds outCmds
    log := s.log ++ roundEvents s.clk wCmds inCmds outCmds ended written }

/-- The round of the only cut. -/
inductive Round (s : JedecDRAMSystem config) (wait : Bool) (c : Cut) :
    JedecDRAMSystem config → Prop where
  /-- The cut is not in PIM mode, or a refresh is on its way. -/
  | rests : c.inPim = false ∨ s.isInRef = true → Round s wait c s
  | works {c₁ c₂ : Cut} {wCmds inCmds outCmds : List Command} {ended : Bool}
      {written : Dataflow.Written} :
      c.inPim = true → s.isInRef = false →
      s.inputStage 0 c wait = .ok (c₁, wCmds, inCmds, ended) →
      Outputs s wait c (countOutput c₁) c₂ outCmds written →
      Round s wait c (s.afterRound c₂ wCmds inCmds outCmds ended written)

theorem afterRound_eq_push (s : JedecDRAMSystem config) (c : Cut)
    (wCmds inCmds outCmds : List Command) (ended : Bool) (written : Dataflow.Written)
    (t : JedecDRAMSystem config)
    (ht : t = { s with
      cuts := [closeTile c written]
      turnOff := s.turnOff || written = .all
      log := s.log ++ roundEvents s.clk [] [] [] ended written }) :
    ((t.push 0 .weights wCmds).push 0 .inputs inCmds).push 0 .outputs outCmds =
      s.afterRound c wCmds inCmds outCmds ended written := by
  subst ht
  simp only [push, afterRound, pushAll, roundEvents]
  congr 1
  by_cases hw : wCmds = [] <;> by_cases hi : inCmds = [] <;> by_cases ho : outCmds = [] <;>
    simp [hw, hi, ho]

theorem finishTile_one {c' : Cut} {written : Dataflow.Written} (hc : s.cuts = [c'])
    (h : (s.setCut 0 c).finishTile 0 written = .ok s') :
    s' = { s with
      cuts := [closeTile c written]
      turnOff := s.turnOff || written = .all
      log := s.log ++ roundEvents s.clk [] [] [] false written } := by
  unfold finishTile at h
  simp only [setCut, hc, List.set_cons_zero, List.length_singleton] at h
  cases written with
  | column =>
      cases h
      simp [closeTile, roundEvents, tileEvents]
  | tile =>
      simp only [reduceCtorEq, if_false] at h
      split at h
      · cases h
      · cases h
        simp_all [closeTile, roundEvents, tileEvents, record]
  | all =>
      simp only [reduceCtorEq, if_false] at h
      split at h
      · cases h
      · cases h
        simp_all [closeTile, roundEvents, tileEvents, record]

theorem inputStage_streamed {ended : Bool} {c₁ : Cut} {wCmds inCmds : List Command}
    (hstatus : c.iwStatus = .streamed)
    (h : s.inputStage 0 c wait = .ok (c₁, wCmds, inCmds, ended)) :
    c₁ = awaitArray c ∧ wCmds = [] ∧ inCmds = [] ∧ ended = false := by
  unfold inputStage at h
  rw [hstatus] at h
  simpa [eq_comm] using h

theorem scheduleCut_round (hd : s.dataflow.SingleCut) (hc : s.cuts = [c])
    (h : scheduleCut wait s.isInRef s 0 = .ok s') : s.Round wait c s' := by
  unfold scheduleCut at h
  simp only [hc, List.getElem?_cons_zero] at h
  split at h
  · rename_i hrest
    cases h
    refine .rests ?_
    simpa using hrest
  · rename_i hwork
    simp only [Bool.or_eq_true, Bool.not_eq_true', not_or, Bool.not_eq_false, Bool.not_eq_true]
      at hwork
    obtain ⟨⟨c₁, wCmds, inCmds, ended⟩, hstage, h⟩ := Library.bind_eq_ok.mp h
    dsimp only at h
    by_cases hout : 0 < (countOutput c₁).outputValid ∧ c.iwStatus = .streamed
    · -- outputs are only written while the array is waited for, when nothing ends
      obtain ⟨rfl, rfl, rfl, rfl⟩ := inputStage_streamed hout.2 hstage
      rw [if_pos ⟨hout.1, hout.2, hd.outEnable 0⟩] at h
      obtain ⟨⟨c₂, outCmds, written⟩, hwrite, h⟩ := Library.bind_eq_ok.mp h
      obtain ⟨s₁, hs₁, h⟩ := Library.bind_eq_ok.mp h
      cases h
      rw [afterRound_eq_push s c₂ [] [] outCmds false written s₁ (finishTile_one hc hs₁)]
      exact .works hwork.1 hwork.2 hstage (.asks hout.1 hout.2 hwrite)
    · rw [if_neg fun hall => hout ⟨hall.1, hall.2.1⟩] at h
      cases h
      have hpush := afterRound_eq_push s (countOutput c₁) wCmds inCmds [] ended .column
        ((if ended then s.record (.endOfComputation 0) else s).setCut 0 (countOutput c₁)) (by
          cases ended <;> simp [setCut, record, hc, closeTile, roundEvents, tileEvents])
      have hround := Round.works hwork.1 hwork.2 hstage (.skips hout)
      rw [← hpush] at hround
      exact hround

/-! ## Pushes -/

/-- The commands of a stage reach a controller. -/
def receive (clk : Nat) (stream : Stream) (cmds : List Command) (ctrl : Controller config) :
    Controller config :=
  match stream with
  | .weights => { ctrl with rdWCmds := ctrl.rdWCmds ++ cmds }
  | .inputs =>
      { ctrl with
        rdInCmds := ctrl.rdInCmds ++ cmds
        releaseTime := ctrl.releaseTime ++ cmds.map fun _ => toInt clk }
  | .outputs => { ctrl with wrCmds := ctrl.wrCmds ++ cmds }

/-- The commands of a list for one channel. -/
def forChannel (channel : Nat) (cmds : List Command) : List Command :=
  cmds.filter fun cmd => cmd.addr.channel.toNat = channel

theorem push_ctrls (s : JedecDRAMSystem config) (i : Nat) (stream : Stream) (cmds : List Command) :
    (s.push i stream cmds).ctrls =
      s.ctrls.mapIdx fun channel ctrl => receive s.clk stream (forChannel channel cmds) ctrl := by
  simp only [push]
  generalize s.ctrls = ctrls
  induction cmds generalizing ctrls with
  | nil =>
      rw [List.foldl_nil]
      refine (List.mapIdx_eq_iff.mpr fun n => ?_).symm
      cases stream <;> simp [receive, forChannel]
  | cons cmd cmds ih =>
      rw [List.foldl_cons, ih]
      refine List.ext_getElem? fun n => ?_
      simp only [List.getElem?_mapIdx, List.getElem?_modify]
      cases hn : ctrls[n]? with
      | none => rfl
      | some ctrl =>
          by_cases hch : cmd.addr.channel.toNat = n
          · cases stream <;> simp [receive, forChannel, hch]
          · simp [forChannel, hch]

/-- The controllers after the pushes of a round. -/
theorem pushAll_eq (s : JedecDRAMSystem config) (wCmds inCmds outCmds : List Command) :
    s.pushAll wCmds inCmds outCmds = s.ctrls.mapIdx fun channel ctrl =>
      receive s.clk .outputs (forChannel channel outCmds)
        (receive s.clk .inputs (forChannel channel inCmds)
          (receive s.clk .weights (forChannel channel wCmds) ctrl)) := by
  rw [pushAll, push_ctrls, push_ctrls, push_ctrls, List.mapIdx_mapIdx, List.mapIdx_mapIdx]
  rfl

/-! ## Ticks of runs with one cut -/

/-- The scheduler of a tick, when there is at most one cut. -/
inductive Rounds (s : JedecDRAMSystem config) (wait : Bool) : JedecDRAMSystem config → Prop where
  | blank : s.dataflow = {} → s.cuts = [] → Rounds s wait s
  | cut {c : Cut} {s' : JedecDRAMSystem config} : s.dataflow.SingleCut → s.cuts = [c] →
      s.Round wait c s' → Rounds s wait s'

/-- The phases of a tick. -/
structure Tick (s s₁ s₂ s' : JedecDRAMSystem config) : Prop where
  pops : s.settle.Pops s₁
  rounds : s₁.Rounds s.waiting s₂
  ctrls : s₂.ctrls.mapM Controller.clockTick = .ok s'.ctrls
  eq : s' = { s₂ with ctrls := s'.ctrls, clk := s₂.clk + 1 }

namespace OneCut

variable {s s' : JedecDRAMSystem config}

theorem rounds (h : OneCut s)
    (hs : (List.range (numCuts s.dataflow)).foldlM (scheduleCut wait s.isInRef) s = .ok s') :
    s.Rounds wait s' := by
  have hl := h.loaded
  generalize hcuts : s.cuts = cuts at hl
  cases hl with
  | blank hd =>
      rw [hd] at hs
      cases hs
      exact .blank hd hcuts
  | cut c hd =>
      rw [hd.numCuts] at hs
      obtain ⟨s₁, hs₁, h⟩ := Library.bind_eq_ok.mp hs
      cases h
      exact .cut hd hcuts (scheduleCut_round hd hcuts hs₁)

theorem clockTick (h : OneCut s) (hs : s.clockTick = .ok s') :
    ∃ s₁ s₂, Tick s s₁ s₂ s' ∧ OneCut s₁ := by
  obtain ⟨s₁, s₂, ctrls, hpop, hcuts, hctrls, rfl⟩ := clockTick_spec hs
  have hone := h.settle.popPim hpop
  exact ⟨s₁, s₂, ⟨popPim_spec hpop, hone.rounds hcuts, hctrls, rfl⟩, hone⟩

theorem of_rounds (h : OneCut s) (hs : s.Rounds wait s') : OneCut s' := by
  cases hs with
  | blank _ _ => exact h
  | cut hd hc hround =>
      cases hround with
      | rests _ => exact h
      | works _ _ _ _ =>
          exact ⟨h.words, .cut _ hd, by simpa [afterRound, pushAll_eq] using h.channels⟩

theorem of_tick {s₁ s₂ : JedecDRAMSystem config} (h : OneCut s₁) (hs : Tick s s₁ s₂ s') :
    OneCut s' := by
  have h₂ := h.of_rounds hs.rounds
  have hlen := (Library.mapM_eq_ok.mp hs.ctrls).length_eq
  rw [hs.eq]
  exact ⟨h₂.words, h₂.loaded, hlen ▸ h₂.channels⟩

theorem step {op : SystemOp} (h : OneCut s) (hop : op.oneCut = true)
    (hs : (memorySystem config).step s op s') : OneCut s' := by
  cases op with
  | addPim hexAddr =>
      obtain ⟨_, rfl⟩ := hs
      refine ⟨fun addr hmem => ?_, h.loaded, h.channels⟩
      obtain hmem | rfl := List.mem_append.mp hmem |>.imp_right List.mem_singleton.mp
      · exact h.words addr hmem
      · exact hop
  | add hexAddr isWrite =>
      obtain ⟨_, rfl⟩ := hs
      exact ⟨h.words, h.loaded, by simpa [addTransaction] using h.channels⟩
  | tick =>
      obtain ⟨s₁, s₂, htick, h₁⟩ := h.clockTick hs
      exact h₁.of_tick htick

/-- Runs whose words ask for one cut. -/
theorem of_run {cond : JedecDRAMSystem config → SystemOp → Prop} {ops : List SystemOp}
    (hcond : ∀ s op, cond s op → op.oneCut = true)
    (hrun : ((memorySystem config).restrict cond).Run ops s) : OneCut s :=
  hrun.invariant OneCut init fun _ _ _ h hs => h.step (hcond _ _ hs.2) hs.1

end OneCut

end JedecDRAMSystem

end Dramsim
