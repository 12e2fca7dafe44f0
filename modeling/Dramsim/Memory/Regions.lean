import Dramsim.Memory.Dispatch
import Dramsim.Memory.Encoding
import Dramsim.Memory.Replay

/-!
# The regions of the operands

A kernel reads its two operands and writes its outputs.  For `df = 0` and at most four
columns the three streams use different banks: the numbers of the banks of the weights
are multiples of eight, and those of the inputs and of the outputs are one and three
above a multiple of four.  So they never touch the same address, whatever the base rows
are.

For `df = 1` all three streams use the first bank, and only the base rows keep them
apart.  The generator of traces gives the weights and the outputs the same one.
-/

namespace Dramsim

/-- The number of a bank in its rank. -/
def Address.slot (config : Config) (addr : Address) : Int :=
  addr.bankgroup * config.banksPerGroup + addr.bank

namespace Dataflow

variable {config : Config} {d : Dataflow} {c : Cut}

theorem slot_address (channel bk bankOffset baseRow colOffset : Int) :
    (address config channel bk bankOffset baseRow colOffset).slot config = bk + bankOffset := by
  have hsplit := Int.tmod_add_tdiv_mul bk config.banksPerGroup
  simp only [Address.slot, address]
  omega

/-- Where the banks of a stream lie among four successive ones. -/
def residue : Stream → Int
  | .weights => 0
  | .inputs => 1
  | .outputs => 3

/-- A dataflow that keeps its streams in different banks. -/
structure Apart (d : Dataflow) : Prop where
  single : d.SingleCut
  df : d.df = 0
  mc : d.mc ≤ 4

/-- The distance of the banks of two columns is a multiple of four. -/
theorem Apart.stride (h : d.Apart) (hbanks : config.banks = 16) :
    ∃ n, (d.cutWidth config).tdiv d.mc = 4 * n := by
  obtain ⟨m, hm⟩ := h.single.mc_pow
  have hle := h.mc
  rw [h.single.cutWidth, hbanks, hm] at *
  have hcases : m = 0 ∨ m = 1 ∨ m = 2 := by
    by_contra hbig
    have hpow : (2 : Int) ^ 3 ≤ 2 ^ m := by
      exact_mod_cast Nat.pow_le_pow_right (by decide : 0 < 2) (by omega : 3 ≤ m)
    omega
  rcases hcases with rfl | rfl | rfl
  · exact ⟨4, rfl⟩
  · exact ⟨2, rfl⟩
  · exact ⟨1, rfl⟩

theorem Apart.slot_target (h : d.Apart) (hbanks : config.banks = 16) {stream : Stream}
    {target : Command} (htarget : target ∈ d.targetsOf config c stream) :
    target.addr.slot config % 4 = residue stream := by
  obtain ⟨n, hn⟩ := h.stride hbanks
  have hv := h.single.vcutNo 0
  cases stream with
  | weights =>
      obtain ⟨j, -, hj⟩ := List.mem_flatMap.mp htarget
      obtain ⟨k, -, rfl⟩ := List.mem_map.mp hj
      simp only [command, weightAddress, slot_address, hv, weightBanksReduce, h.df, residue,
        if_true]
      omega
  | inputs =>
      obtain ⟨row, hrow, hmem⟩ := List.mem_flatten.mp htarget
      obtain ⟨j, -, rfl⟩ := List.mem_map.mp hrow
      obtain ⟨k, -, rfl⟩ := List.mem_map.mp hmem
      simp only [command, inputAddress, slot_address, hv, hn, h.df, residue, if_true]
      rw [show (0 : Int) * d.cutWidth config + k * (4 * n) + 1 + 0 = 1 + 4 * (k * n) by ring,
        Int.add_mul_emod_self_left]
      rfl
  | outputs =>
      obtain ⟨j, -, hj⟩ := List.mem_flatMap.mp htarget
      obtain ⟨k, -, rfl⟩ := List.mem_map.mp hj
      simp only [command, outputAddress, slot_address, hv, hn, h.df, residue, if_true]
      rw [if_pos (by decide),
        show (0 : Int) * d.cutWidth config + k * (4 * n) + 1 + 2 = 3 + 4 * (k * n) by ring,
        Int.add_mul_emod_self_left]
      rfl

end Dataflow

namespace JedecDRAMSystem

variable {config : Config} {s s' : JedecDRAMSystem config} {c c₁ : Cut} {wait : Bool}
  {cmds got : List Command}

/-! ## What is pushed is at the address of a target -/

theorem gather_addr {targets : List Command}
    (hpim : ∀ cmd ∈ targets, cmd.cmdType.isPimColumn = true) (h : s.gather [] targets = .ok got) :
    ∀ cmd ∈ got, ∃ target ∈ targets, cmd.addr = target.addr := by
  rcases gather_spec h with ⟨rfl, -⟩ | ⟨first, rest, ty, -, -, -, -, heq⟩
  · exact fun cmd hcmd => absurd hcmd List.not_mem_nil
  · intro cmd hcmd
    rw [heq] at hcmd
    obtain ⟨target, htarget, hans⟩ := List.mem_filterMap.mp hcmd
    obtain ⟨-, -, haddr, -⟩ := answer_spec (hpim target htarget) hans
    exact ⟨target, htarget, haddr⟩

theorem gatherInputs_addr {targets : List (List Command)} {got : List Command × Bool}
    (hpim : ∀ cmd ∈ targets.flatten, cmd.cmdType.isPimColumn = true)
    (h : s.gatherInputs targets = .ok got) :
    ∀ cmd ∈ got.1, ∃ target ∈ targets.flatten, cmd.addr = target.addr := by
  intro cmd hcmd
  rw [gatherInputs_spec h, (Library.Stretch.foldl_take Command.cmdType _).1] at hcmd
  obtain ⟨target, htarget, hans⟩ :=
    exists_target_of_asked (Library.Stretch.some_mem_of_mem_late hcmd)
  obtain ⟨-, -, haddr, -⟩ := answer_spec (hpim target htarget) hans
  exact ⟨target, htarget, haddr⟩

theorem mem_of_pushed (h : cmds = [] ∨ cmds = got) : ∀ cmd ∈ cmds, cmd ∈ got := by
  rcases h with rfl | rfl
  · exact fun cmd hcmd => absurd hcmd List.not_mem_nil
  · exact fun cmd hcmd => hcmd

theorem loadWeights_addr (h : s.loadWeights 0 c wait = .ok (c₁, cmds)) :
    ∀ cmd ∈ cmds, ∃ target ∈ s.dataflow.targetsOf config c .weights, cmd.addr = target.addr := by
  obtain ⟨-, got, hgot, heq⟩ := loadWeights_spec h
  have hcmds : cmds = (afterWeights config s.dataflow c wait got).2 := by rw [← heq]
  have hmem := mem_of_pushed (hcmds ▸ afterWeights_cmds s.dataflow c got)
  have haddr := gather_addr (fun cmd hcmd => isPimColumn_weightTargets hcmd) hgot
  exact fun cmd hcmd => haddr cmd (hmem cmd hcmd)

theorem streamInputs_addr {ended : Bool} (hone : numCuts s.dataflow = 1)
    (h : s.streamInputs 0 c wait = .ok (c₁, cmds, ended)) :
    ∀ cmd ∈ cmds, ∃ target ∈ s.dataflow.targetsOf config c .inputs, cmd.addr = target.addr := by
  obtain ⟨-, got, mixed, hgot, heq⟩ := streamInputs_spec hone h
  have hcmds : cmds = (afterInputs config s.dataflow (countVpu c) wait
      (dropReads s.dataflow mixed got)).2.1 := by rw [← heq]
  have hmem := mem_of_pushed (hcmds ▸ afterInputs_cmds s.dataflow (countVpu c) _)
  have haddr := gatherInputs_addr
    (fun cmd hcmd => isPimColumn_of_isInputRead (isInputRead_inputTargets hcmd)) hgot
  intro cmd hcmd
  have hdrop := hmem cmd hcmd
  unfold dropReads at hdrop
  split at hdrop
  · exact haddr cmd (List.mem_of_mem_filter hdrop)
  · exact haddr cmd hdrop

theorem writeOutputs_addr {written : Dataflow.Written}
    (h : s.writeOutputs 0 c wait = .ok (c₁, cmds, written)) :
    ∀ cmd ∈ cmds, ∃ target ∈ s.dataflow.targetsOf config c .outputs, cmd.addr = target.addr := by
  obtain ⟨-, got, hgot, heq⟩ := writeOutputs_spec h
  have hcmds : cmds = (afterOutputs s.dataflow c wait got).2.1 := by rw [← heq]
  have hmem := mem_of_pushed (hcmds ▸ afterOutputs_cmds s.dataflow c got)
  have haddr := gather_addr (fun cmd hcmd => isPimColumn_outputTargets hcmd) hgot
  exact fun cmd hcmd => haddr cmd (hmem cmd hcmd)

/-- The commands of a round are at addresses of the targets of their streams, for some
cut. -/
theorem Round.addr (hone : numCuts s.dataflow = 1) (h : s.Round wait c s') :
    ∃ fresh, s'.log = s.log ++ fresh ∧ ∀ stream,
      ∀ cmd ∈ (fresh.filterMap (SystemEvent.pushed? stream)).flatten,
        ∃ c', ∃ target ∈ s.dataflow.targetsOf config c' stream, cmd.addr = target.addr := by
  cases h with
  | rests _ => exact ⟨[], by simp, by simp⟩
  | @works c₁ c₂ wCmds inCmds outCmds ended written _ _ hstage hout =>
      refine ⟨_, rfl, fun stream cmd hcmd => ?_⟩
      rw [pushed_roundEvents] at hcmd
      have hsent : ∀ cmds : List Command, cmd ∈ (if cmds = [] then [] else [cmds]).flatten →
          cmd ∈ cmds := by
        intro cmds h
        split at h
        · simp at h
        · simpa using h
      unfold inputStage at hstage
      cases stream with
      | weights =>
          have hmem := hsent _ hcmd
          split at hstage
          · obtain ⟨⟨c', cmds⟩, hload, hstage⟩ := Library.bind_eq_ok.mp hstage
            cases hstage
            exact ⟨c, loadWeights_addr hload cmd hmem⟩
          · cases hstage
            cases hmem
          · obtain ⟨⟨c', cmds, e⟩, -, hstage⟩ := Library.bind_eq_ok.mp hstage
            cases hstage
            cases hmem
          · cases hstage
            cases hmem
      | inputs =>
          have hmem := hsent _ hcmd
          split at hstage
          · obtain ⟨⟨c', cmds⟩, -, hstage⟩ := Library.bind_eq_ok.mp hstage
            cases hstage
            cases hmem
          · cases hstage
            cases hmem
          · obtain ⟨⟨c', cmds, e⟩, hstream, hstage⟩ := Library.bind_eq_ok.mp hstage
            cases hstage
            exact ⟨c, streamInputs_addr hone hstream cmd hmem⟩
          · cases hstage
            cases hmem
      | outputs =>
          have hmem := hsent _ hcmd
          cases hout with
          | skips _ => cases hmem
          | asks _ _ hwrite => exact ⟨_, writeOutputs_addr hwrite cmd hmem⟩

/-! ## Runs with separate banks -/

/-- A dataflow word keeps the streams of a kernel in different banks. -/
def keepsApart (hexAddr : Nat) : Bool :=
  asksOneCut hexAddr && (!isDataflow hexAddr ||
    ((decodeDataflow hexAddr).df = 0 && (decodeDataflow hexAddr).mc ≤ 4))

end JedecDRAMSystem

/-- A dataflow word among the operations keeps the streams in different banks. -/
def SystemOp.keepsApart : SystemOp → Bool
  | .addPim hexAddr => JedecDRAMSystem.keepsApart hexAddr
  | _ => true

namespace JedecDRAMSystem

variable {config : Config} {s s' : JedecDRAMSystem config}

/-- The addresses that the column commands of a stream have touched. -/
def touched (s : JedecDRAMSystem config) (stream : Stream) : Set Address :=
  {addr | ∃ cmd ∈ (s.pushed stream).flatten, cmd.cmdType.isPimColumn = true ∧ cmd.addr = addr}

/-- Every command of a stream is for a bank of the stream. -/
structure Separated (s : JedecDRAMSystem config) : Prop where
  oneCut : OneCut s
  words : ∀ addr ∈ s.pimTransQueue, keepsApart addr = true
  dataflow : s.dataflow.SingleCut → s.dataflow.Apart
  pushed : ∀ stream, ∀ cmd ∈ (s.pushed stream).flatten,
    cmd.addr.slot config % 4 = Dataflow.residue stream

namespace Separated

theorem init : Separated ({} : JedecDRAMSystem config) :=
  ⟨.init, by simp, fun h => absurd h.vcuts (by simp), by simp [JedecDRAMSystem.pushed]⟩

theorem disjoint (h : Separated s) {stream stream' : Stream} (hne : stream ≠ stream') :
    s.touched stream ∩ s.touched stream' = ∅ := by
  ext addr
  simp only [Set.mem_inter_iff, Set.mem_empty_iff_false, iff_false, not_and]
  rintro ⟨cmd, hcmd, -, rfl⟩ ⟨cmd', hcmd', -, haddr⟩
  have hres := h.pushed stream cmd hcmd
  have hres' := h.pushed stream' cmd' hcmd'
  rw [haddr, hres] at hres'
  cases stream <;> cases stream' <;> first | exact hne rfl | cases hres'

theorem settle (h : Separated s) : Separated s.settle := by
  refine ⟨h.oneCut.settle, ?_, ?_, ?_⟩ <;> unfold JedecDRAMSystem.settle <;> split
  · exact h.words
  · exact h.words
  · exact h.dataflow
  · exact h.dataflow
  · exact h.pushed
  · exact h.pushed

theorem popPim (h : Separated s) (hs : s.popPim = .ok s') : Separated s' := by
  have hone := h.oneCut.popPim hs
  cases popPim_spec hs with
  | none _ => exact h
  | waits _ _ => exact ⟨hone, h.words, h.dataflow, h.pushed⟩
  | launches hq _ _ =>
      exact ⟨hone, fun a ha => h.words a (hq ▸ List.mem_cons_of_mem _ ha), h.dataflow, h.pushed⟩
  | @flow addr rest hq hflow =>
      refine ⟨hone, fun a ha => h.words a (hq ▸ List.mem_cons_of_mem _ ha), fun hd => ?_, h.pushed⟩
      have hword := h.words addr (hq ▸ List.mem_cons_self ..)
      simp only [keepsApart, hflow, Bool.not_true, Bool.false_or, Bool.and_eq_true,
        decide_eq_true_eq] at hword
      exact ⟨hd, hword.2.1, hword.2.2⟩
  | work hq _ _ _ _ =>
      exact ⟨hone, fun a ha => h.words a (hq ▸ List.mem_cons_of_mem _ ha), h.dataflow, h.pushed⟩

theorem rounds (h : Separated s) (hbanks : config.banks = 16) {wait : Bool}
    (hs : s.Rounds wait s') : Separated s' := by
  have hone := h.oneCut.of_rounds hs
  cases hs with
  | blank _ _ => exact h
  | cut hd hc hround =>
      obtain ⟨fresh, hlog, haddr⟩ := hround.addr hd.numCuts
      have hpush : ∀ stream, ∀ cmd ∈ (s'.pushed stream).flatten,
          cmd.addr.slot config % 4 = Dataflow.residue stream := by
        intro stream cmd hcmd
        rw [JedecDRAMSystem.pushed, hlog, List.filterMap_append, List.flatten_append,
          List.mem_append] at hcmd
        rcases hcmd with hcmd | hcmd
        · exact h.pushed stream cmd hcmd
        · obtain ⟨c', target, htarget, haddr⟩ := haddr stream cmd hcmd
          rw [haddr]
          exact (h.dataflow hd).slot_target hbanks htarget
      cases hround with
      | rests _ => exact h
      | works _ _ _ _ => exact ⟨hone, h.words, h.dataflow, hpush⟩

theorem step (h : Separated s) (hbanks : config.banks = 16) {op : SystemOp}
    (hop : op.keepsApart = true) (hs : (memorySystem config).step s op s') : Separated s' := by
  have hcut : op.oneCut = true := by
    cases op with
    | addPim hexAddr =>
        simp only [SystemOp.keepsApart, JedecDRAMSystem.keepsApart, Bool.and_eq_true] at hop
        exact hop.1
    | add _ _ => rfl
    | tick => rfl
  have hone := h.oneCut.step hcut hs
  cases op with
  | addPim hexAddr =>
      obtain ⟨_, rfl⟩ := hs
      refine ⟨hone, fun addr hmem => ?_, h.dataflow, h.pushed⟩
      obtain hmem | rfl := List.mem_append.mp hmem |>.imp_right List.mem_singleton.mp
      · exact h.words addr hmem
      · exact hop
  | add _ _ =>
      obtain ⟨_, rfl⟩ := hs
      exact ⟨hone, h.words, h.dataflow, h.pushed⟩
  | tick =>
      obtain ⟨s₁, s₂, ctrls, hpop, hcuts, -, rfl⟩ := clockTick_spec hs
      have h₁ := h.settle.popPim hpop
      have h₂ := h₁.rounds hbanks (h₁.oneCut.rounds hcuts)
      exact ⟨hone, h₂.words, h₂.dataflow, h₂.pushed⟩

theorem of_run (hbanks : config.banks = 16) {ops : List SystemOp}
    (hrun : ((memorySystem config).restrict fun _ op => op.keepsApart = true).Run ops s) :
    Separated s :=
  hrun.invariant Separated init fun _ _ _ h hs => h.step hbanks hs.2 hs.1

end Separated

end JedecDRAMSystem

/-- The PIM word of an operation. -/
def SystemOp.word? : SystemOp → Option Nat
  | .addPim hexAddr => some hexAddr
  | _ => none

namespace GenPimTrace

open JedecDRAMSystem

variable {config : Config} {w : Workload} {d : Dims}

/-- The words of a GEMM with at most four columns keep its streams in different banks. -/
theorem Wellformed.words_keepApart (h : Wellformed w d) (hdf : w.df = 0) (hmc : w.mcf * w.ucf ≤ 4) :
    ∀ addr ∈ genPimTrace w, keepsApart addr = true := by
  obtain ⟨a, ha, b, hb, e, hmcf, hucf, -, hwords⟩ := h.genPimTrace_eq
  rw [hwords]
  intro addr hmem
  simp only [Dims.enumerate, List.map_cons, List.map_nil, List.cons_append, List.nil_append,
    List.mem_cons, List.not_mem_nil, or_false] at hmem
  have hrem (j dim : Nat) : remainder w j dim = 0 := by simp [remainder, hdf]
  have hplain : isDataflow addr = false → keepsApart addr = true := by
    intro hflow
    simp [keepsApart, asksOneCut, hflow]
  rcases hmem with rfl | rfl | rfl | rfl | rfl
  · obtain ⟨addr, haddr, -, hv, hh, hm, hu, hd⟩ := fields_of_cutaddr e ha hb h.df
    have hcolumns : (2 : Int) ^ a * 2 ^ b ≤ 4 := by
      rw [hmcf, hucf] at hmc
      exact_mod_cast hmc
    rw [← haddr]
    simp [keepsApart, asksOneCut, decodeDataflow, hv, hh, hm, hu, hd, hdf, hcolumns]
  · refine hplain ?_
    rw [isDataflow_eq, decide_eq_false_iff_not, hrem]
    omega
  · refine hplain ?_
    rw [isDataflow_eq, decide_eq_false_iff_not, hrem]
    omega
  · refine hplain ?_
    rw [isDataflow_eq, decide_eq_false_iff_not, hrem]
    omega
  · exact hplain (by decide)

/-- Eight channels of `Config.oneCycle`. -/
def eightChannels : Config :=
  { Config.oneCycle with
    channels := 8, coPos := 3, baPos := 10, bgPos := 12, raPos := 14, roPos := 14 }

/-- The words of a trace, and then cycles. -/
def traceOps (words : List Nat) (cycles : Nat) : List SystemOp :=
  words.map .addPim ++ List.replicate cycles .tick

theorem traceOps_words (words : List Nat) (cycles : Nat) :
    (traceOps words cycles).filterMap SystemOp.word? = words := by
  simp [traceOps, List.filterMap_append, List.filterMap_map, Function.comp_def, SystemOp.word?]

/-- In every run of a GEMM with at most four columns on a device with sixteen banks, the
three streams touch different addresses. -/
theorem gemm_regions_disjoint (h : Wellformed w d) (hdf : w.df = 0) (hmc : w.mcf * w.ucf ≤ 4)
    (hbanks : config.banks = 16) {ops : List SystemOp} {s : JedecDRAMSystem config}
    (hwords : ops.filterMap SystemOp.word? <+: genPimTrace w)
    (hrun : (memorySystem config).Run ops s) {stream stream' : Stream} (hne : stream ≠ stream') :
    s.touched stream ∩ s.touched stream' = ∅ := by
  have hops : ∀ op ∈ ops, op.keepsApart = true := by
    intro op hop
    cases op with
    | addPim addr =>
        refine h.words_keepApart hdf hmc addr (hwords.subset ?_)
        exact List.mem_filterMap.mpr ⟨_, hop, rfl⟩
    | add _ _ => rfl
    | tick => rfl
  exact (Separated.of_run hbanks (hrun.restrict_labels hops)).disjoint hne

/-- The product of a column of two and a row of one, to the write of its outputs. -/
theorem gemm_regions_disjoint_two :
    ∃ s : JedecDRAMSystem eightChannels,
      (s.touched .weights).Nonempty ∧ (s.touched .outputs).Nonempty ∧
      s.touched .weights ∩ s.touched .outputs = ∅ := by
  have hwords : genPimTrace (single 1 1 0 ⟨2, 1, 1⟩) =
      [2097248, 128, 549755814048, 549755814080, 3] := by
    decide +kernel
  have hsome : ((replayStrict [⟨0, 0, 0⟩, ⟨0, 2, 0⟩, ⟨0, 0, 1⟩, ⟨0, 0, 3⟩] (fun _ _ => true)
      (traceOps [2097248, 128, 549755814048, 549755814080, 3] 28)
      ({} : JedecDRAMSystem eightChannels)).any fun s =>
        ((s.pushed .weights).flatten.any fun cmd => cmd.cmdType.isPimColumn) &&
        (s.pushed .outputs).flatten.any fun cmd => cmd.cmdType.isPimColumn) = true := by
    decide +kernel
  obtain ⟨s, hs, hboth⟩ := (Option.any_eq_true _ _).mp hsome
  rw [Bool.and_eq_true, List.any_eq_true, List.any_eq_true] at hboth
  obtain ⟨⟨w, hw, hwread⟩, o, ho, howrite⟩ := hboth
  rw [replayStrict_eq] at hs
  have hform : Wellformed (single 1 1 0 ⟨2, 1, 1⟩) ⟨2, 1, 1⟩ :=
    ⟨rfl, rfl, rfl, ⟨0, by decide, rfl⟩, ⟨0, by decide, rfl⟩, ⟨8, rfl⟩, .inl rfl⟩
  have hlist : (traceOps [2097248, 128, 549755814048, 549755814080, 3] 28).filterMap
      SystemOp.word? <+: genPimTrace (single 1 1 0 ⟨2, 1, 1⟩) := by
    rw [traceOps_words, hwords]
  exact ⟨s, ⟨_, w, hw, hwread, rfl⟩, ⟨_, o, ho, howrite, rfl⟩,
    gemm_regions_disjoint hform rfl (by decide) rfl hlist (run_of_replayFrom hs).of_restrict
      (by decide)⟩

/-- A GEMV of one element writes its output over its stationary operand. -/
theorem gemv_output_over_weights :
    (hbm2File { eightChannels with columns := 128 }).Builds eightChannels ∧
    ∃ s : JedecDRAMSystem eightChannels, ∃ ops,
      ops.filterMap SystemOp.word? = genPimTrace (single 1 1 1 ⟨1, 1, 1⟩) ∧
      (memorySystem eightChannels).Run ops s ∧
      (⟨0, 0, 0, 0, 1, 0⟩ : Address) ∈ s.touched .weights ∩ s.touched .outputs := by
  have hwords : genPimTrace (single 1 1 1 ⟨1, 1, 1⟩) =
      [2228320, 549755814016, 549755814048, 192, 3] := by
    decide +kernel
  have hsome : ((replayStrict [⟨0, 0, 0⟩] (fun _ _ => true)
      (traceOps [2228320, 549755814016, 549755814048, 192, 3] 28)
      ({} : JedecDRAMSystem eightChannels)).any fun s =>
        ((s.pushed .weights).flatten.any fun cmd =>
          cmd.cmdType.isPimColumn && cmd.addr = ⟨0, 0, 0, 0, 1, 0⟩) &&
        (s.pushed .outputs).flatten.any fun cmd =>
          cmd.cmdType.isPimColumn && cmd.addr = ⟨0, 0, 0, 0, 1, 0⟩) = true := by
    decide +kernel
  obtain ⟨s, hs, hboth⟩ := (Option.any_eq_true _ _).mp hsome
  simp only [Bool.and_eq_true, List.any_eq_true, decide_eq_true_eq] at hboth
  obtain ⟨⟨w, hw, hwread, hwaddr⟩, o, ho, howrite, hoaddr⟩ := hboth
  rw [replayStrict_eq] at hs
  exact ⟨⟨rfl, rfl⟩, s, _, (traceOps_words _ 28).trans hwords.symm,
    (run_of_replayFrom hs).of_restrict, ⟨w, hw, hwread, hwaddr⟩, o, ho, howrite, hoaddr⟩

end GenPimTrace

end Dramsim
