import Dramsim.Memory.Cuts
import Mathlib.Tactic.Ring
import Mathlib.Tactic.Positivity

/-!
# PIM words

What words can do to a memory system, for any number of cuts.

A word is taken from the head of its queue, at most one a tick.  The scheduler of the
tick keeps the dataflow and the workloads of the cuts (`Cut.work`), so they only change
when a word is taken (`Keeps`).  Three things follow.

* The vectors of a system have one entry for each cut of its dataflow, so only a word
  can index them outside: one for a cut that does not exist, or a launch before any
  dataflow word.
* A launch that is not taken at once waits forever, since the words that it waits for
  are behind it.
* A word is taken whether a kernel runs or not.  A dataflow word stops the kernel, and
  a workload word for its cut changes it.
-/

namespace Dramsim

open Library (System)

/-- The workload of a cut: its base rows and dimensions. -/
def Cut.work (c : Cut) : Nat × Nat × Nat × Int × Int × Int :=
  (c.baseRowsW, c.baseRowsIn, c.baseRowsOut, c.M, c.N, c.K)

namespace JedecDRAMSystem

variable {config : Config} {addr i : Nat} {s s' : JedecDRAMSystem config}
  {inCmds wCmds : List Command} {written : Dataflow.Written} {c' : Cut} {f : Cut → Cut}
  {is rest : List Nat} {op : SystemOp}
  {ended isInRef wait : Bool} {c c₁ : Cut} {cmds : List Command}

/-! ## What the scheduler keeps -/

section Stages

variable {s : JedecDRAMSystem config} {i : Nat} {c c₁ : Cut} {wait : Bool}

theorem nextWeight_work (d : Dataflow) : (d.nextWeight config c).work = c.work := by
  unfold Dataflow.nextWeight
  split <;> rfl

theorem nextInput_work (d : Dataflow) : (d.nextInput config c).1.work = c.work := by
  obtain ⟨_, _, _, _, _, _, hframe⟩ := nextInput_frame config d c
  rw [hframe]
  rfl

theorem nextOutput_work (d : Dataflow) : (d.nextOutput c).1.work = c.work := by
  unfold Dataflow.nextOutput
  dsimp only
  split_ifs <;> rfl

theorem loadWeights_work (h : s.loadWeights i c wait = .ok (c₁, cmds)) : c₁.work = c.work := by
  obtain ⟨-, got, -, hgot⟩ := loadWeights_spec h
  rw [show c₁ = (afterWeights config s.dataflow c wait got).1 by rw [← hgot]]
  unfold afterWeights
  split
  · rfl
  · dsimp only
    split_ifs <;> first | rfl | exact nextWeight_work _

theorem streamInputs_work (h : s.streamInputs i c wait = .ok (c₁, cmds, ended)) :
    c₁.work = c.work := by
  obtain ⟨-, got, mixed, -, ⟨-, hgot⟩ | hgot⟩ := streamInputs_cases h
  · rw [show c₁ = countVpu c from congrArg Prod.fst hgot]
    rfl
  · rw [show c₁ = (afterInputs _ _ _ _ _).1 from congrArg Prod.fst hgot]
    unfold afterInputs
    split
    · rfl
    · dsimp only
      split_ifs <;> first | rfl | exact nextInput_work _

theorem awaitArray_work : (awaitArray c).work = c.work := by
  rw [awaitArray_eq]
  rfl

theorem finishLoading_work : (s.finishLoading i c).work = c.work := by
  unfold finishLoading
  dsimp only
  split <;> rfl

theorem inputStage_work (h : s.inputStage i c wait = .ok (c₁, wCmds, inCmds, ended)) :
    c₁.work = c.work := by
  unfold inputStage at h
  split at h
  · obtain ⟨⟨c', cmds⟩, hload, h⟩ := Library.bind_eq_ok.mp h
    cases h
    exact loadWeights_work hload
  · cases h
    exact finishLoading_work
  · obtain ⟨⟨c', cmds, ended'⟩, hstream, h⟩ := Library.bind_eq_ok.mp h
    cases h
    exact streamInputs_work hstream
  · cases h
    exact awaitArray_work

theorem countOutput_work : (countOutput c).work = c.work := by
  rw [countOutput_eq]
  rfl

theorem writeOutputs_work (h : s.writeOutputs i c wait = .ok (c₁, cmds, written)) :
    c₁.work = c.work := by
  obtain ⟨-, got, -, hgot⟩ := writeOutputs_spec h
  rw [show c₁ = (afterOutputs s.dataflow c wait got).1 by rw [← hgot]]
  unfold afterOutputs
  split
  · rfl
  · dsimp only
    split_ifs <;> first | rfl | exact nextOutput_work _

end Stages

/-- Two states that differ neither in the words that wait, nor in the dataflow, nor in
the workloads. -/
structure Keeps (s s' : JedecDRAMSystem config) : Prop where
  queue : s'.pimTransQueue = s.pimTransQueue
  dataflow : s'.dataflow = s.dataflow
  works : s'.cuts.map Cut.work = s.cuts.map Cut.work

namespace Keeps

variable {s s' s'' : JedecDRAMSystem config}

theorem rfl' : Keeps s s := ⟨rfl, rfl, rfl⟩

theorem trans (h : Keeps s s') (h' : Keeps s' s'') : Keeps s s'' :=
  ⟨h'.queue.trans h.queue, h'.dataflow.trans h.dataflow, h'.works.trans h.works⟩

theorem length (h : Keeps s s') : s'.cuts.length = s.cuts.length := by
  simpa using congrArg List.length h.works

theorem settle : Keeps s s.settle := by
  unfold JedecDRAMSystem.settle
  split
  · exact ⟨rfl, rfl, by simp only [clearFlags, returnAll, List.map_map]; rfl⟩
  · exact ⟨rfl, rfl, rfl⟩

theorem push (i : Nat) (stream : Stream) (cmds : List Command) : Keeps s (s.push i stream cmds) :=
  ⟨rfl, rfl, rfl⟩

theorem setCut (hc : s.cuts[i]? = some c) (h : c'.work = c.work) : Keeps s (s.setCut i c') := by
  refine ⟨rfl, rfl, List.ext_getElem? fun n => ?_⟩
  simp only [JedecDRAMSystem.setCut, List.getElem?_map, List.getElem?_set]
  split
  · subst_vars
    rw [hc, if_pos (List.getElem?_eq_some_iff.mp hc).1]
    simp [h]
  · rfl

end Keeps

theorem map_work_modify (cuts : List Cut) (i : Nat) (hf : ∀ c, (f c).work = c.work) :
    (cuts.modify i f).map Cut.work = cuts.map Cut.work := by
  refine List.ext_getElem? fun n => ?_
  simp only [List.getElem?_map, List.getElem?_modify]
  cases cuts[n]? with
  | none => rfl
  | some c => split <;> simp [hf]

/-- The end of a tile changes one cut, or a pair of narrow ones. -/
theorem map_work_pair (both : Prop) [Decidable both] (cuts : List Cut) (i : Nat)
    (hf : ∀ c, (f c).work = c.work) :
    (if both then (cuts.modify i f).modify (i + 1) f else cuts.modify i f).map Cut.work =
      cuts.map Cut.work := by
  split
  · rw [map_work_modify _ _ hf, map_work_modify _ _ hf]
  · exact map_work_modify _ _ hf

/-! ## The round of any cut -/

/-- The state after the end of a computation is reported. -/
def reported (s : JedecDRAMSystem config) (i : Nat) (ended : Bool) : JedecDRAMSystem config :=
  if ended then s.record (.endOfComputation i) else s

theorem reported_cuts (s : JedecDRAMSystem config) (i : Nat) (ended : Bool) :
    (s.reported i ended).cuts[i]? = s.cuts[i]? := by
  cases ended <;> rfl

/-- The input stage of a cut that is scheduled, and the countdown of its output. -/
structure Streamed (s : JedecDRAMSystem config) (wait isInRef : Bool) (i : Nat) (c c₁ : Cut)
    (wCmds inCmds : List Command) (ended : Bool) : Prop where
  inPim : c.inPim = true
  calm : isInRef = false
  stage : ∃ c', s.inputStage i c wait = .ok (c', wCmds, inCmds, ended) ∧ c₁ = countOutput c'

theorem Streamed.work (h : s.Streamed wait isInRef i c c₁ wCmds inCmds ended) :
    c₁.work = c.work := by
  obtain ⟨c', hstage, rfl⟩ := h.stage
  exact countOutput_work.trans (inputStage_work hstage)

/-- The output stage of a cut is reached. -/
def Ready (config : Config) (d : Dataflow) (i : Nat) (c c₁ : Cut) : Prop :=
  0 < c₁.outputValid ∧ c.iwStatus = .streamed ∧ d.outEnable config i

/-- What the scheduler does with a cut. -/
inductive Scheduled (s : JedecDRAMSystem config) (wait isInRef : Bool) (i : Nat) :
    JedecDRAMSystem config → Prop where
  | rests {c : Cut} : s.cuts[i]? = some c → c.inPim = false ∨ isInRef = true →
      Scheduled s wait isInRef i s
  | feeds {c c₁ : Cut} {wCmds inCmds : List Command} {ended : Bool} : s.cuts[i]? = some c →
      s.Streamed wait isInRef i c c₁ wCmds inCmds ended → ¬ Ready config s.dataflow i c c₁ →
      Scheduled s wait isInRef i
        ((((s.reported i ended).setCut i c₁).push i .weights wCmds).push i .inputs inCmds)
  | writes {c c₁ c₂ : Cut} {wCmds inCmds outCmds : List Command} {ended : Bool}
      {written : Dataflow.Written} {t : JedecDRAMSystem config} : s.cuts[i]? = some c →
      s.Streamed wait isInRef i c c₁ wCmds inCmds ended → Ready config s.dataflow i c c₁ →
      (s.reported i ended).writeOutputs i c₁ wait = .ok (c₂, outCmds, written) →
      ((s.reported i ended).setCut i c₂).finishTile i written = .ok t →
      Scheduled s wait isInRef i
        (((t.push i .weights wCmds).push i .inputs inCmds).push i .outputs outCmds)

theorem scheduleCut_spec (h : scheduleCut wait isInRef s i = .ok s') :
    s.Scheduled wait isInRef i s' := by
  unfold scheduleCut at h
  split at h
  · cases h
  · rename_i c hc
    split at h
    · rename_i hrest
      cases h
      exact .rests hc (by simpa using hrest)
    · rename_i hwork
      simp only [Bool.or_eq_true, Bool.not_eq_true', not_or, Bool.not_eq_false, Bool.not_eq_true]
        at hwork
      obtain ⟨⟨c', wCmds, inCmds, ended⟩, hstage, h⟩ := Library.bind_eq_ok.mp h
      dsimp only at h
      have hfed : s.Streamed wait isInRef i c (countOutput c') wCmds inCmds ended :=
        ⟨hwork.1, hwork.2, c', hstage, rfl⟩
      have hready : (0 < (countOutput c').outputValid ∧ c.iwStatus = .streamed ∧
          (if ended then s.record (.endOfComputation i) else s).dataflow.outEnable config i) ↔
          Ready config s.dataflow i c (countOutput c') := by
        cases ended <;> rfl
      by_cases hout : Ready config s.dataflow i c (countOutput c')
      · rw [if_pos (hready.mpr hout)] at h
        obtain ⟨⟨c₂, outCmds, written⟩, hwrite, h⟩ := Library.bind_eq_ok.mp h
        obtain ⟨t, ht, h⟩ := Library.bind_eq_ok.mp h
        cases h
        exact .writes hc hfed hout hwrite ht
      · rw [if_neg fun hr => hout (hready.mp hr)] at h
        cases h
        exact .feeds hc hfed hout

namespace Keeps

variable {s s' : JedecDRAMSystem config}

theorem reported : Keeps s (s.reported i ended) := by
  cases ended <;> exact ⟨rfl, rfl, rfl⟩

theorem finishTile (h : s.finishTile i written = .ok s') : Keeps s s' := by
  unfold JedecDRAMSystem.finishTile at h
  dsimp only at h
  split at h
  · cases h
    exact rfl'
  · split at h
    · cases h
    · cases h
      split
      · refine ⟨rfl, rfl, ?_⟩
        dsimp only [record]
        rw [map_work_pair, map_work_pair] <;> exact fun _ => rfl
      · refine ⟨rfl, rfl, ?_⟩
        dsimp only [record]
        rw [map_work_pair]
        exact fun _ => rfl

theorem scheduleCut (h : scheduleCut wait isInRef s i = .ok s') : Keeps s s' := by
  cases scheduleCut_spec h with
  | rests _ _ => exact rfl'
  | @feeds _ _ _ _ ended hc hfeeds _ =>
      have hset := setCut ((reported_cuts s i ended).trans hc) hfeeds.work
      exact ((reported.trans hset).trans (push ..)).trans (push ..)
  | @writes _ _ _ _ _ _ ended _ _ hc hfeeds _ hwrite hfinish =>
      have hset := setCut ((reported_cuts s i ended).trans hc)
        ((writeOutputs_work hwrite).trans hfeeds.work)
      exact ((((reported.trans hset).trans (finishTile hfinish)).trans (push ..)).trans
        (push ..)).trans (push ..)

theorem foldlM (h : is.foldlM (JedecDRAMSystem.scheduleCut wait isInRef) s = .ok s') :
    Keeps s s' := by
  induction is generalizing s with
  | nil =>
      cases h
      exact rfl'
  | cons i is ih =>
      obtain ⟨t, ht, h⟩ := Library.bind_eq_ok.mp (by simpa only [List.foldlM_cons] using h)
      exact (scheduleCut ht).trans (ih h)

end Keeps

/-- In a tick only the word that is taken changes the queue, the dataflow and the
workloads. -/
theorem clockTick_keeps (h : s.clockTick = .ok s') :
    ∃ s₁, s.settle.popPim = .ok s₁ ∧ Keeps s₁ s' := by
  obtain ⟨s₁, s₂, ctrls, hpop, hcuts, -, rfl⟩ := clockTick_spec h
  exact ⟨s₁, hpop, (Keeps.foldlM hcuts).trans ⟨rfl, rfl, rfl⟩⟩

/-! ## The vectors of a system -/

/-- The vectors have one entry for each cut.  A cut that spans no channel never leaves
its first stage. -/
structure Shaped (s : JedecDRAMSystem config) : Prop where
  loaded : (s.dataflow = {} ∧ s.cuts = []) ∨
    (∃ addr, s.dataflow = decodeDataflow addr) ∧ s.cuts.length = numCuts s.dataflow
  flat : s.dataflow.cutHeight config = 0 → ∀ c ∈ s.cuts, c.iwStatus = .loading

theorem loadInto_iwStatus (h : loadInto addr c = .ok c') : c'.iwStatus = c.iwStatus := by
  unfold loadInto at h
  dsimp only at h
  split at h <;> cases h <;> rfl

/-- Without channels no weight is asked for. -/
theorem loadWeights_flat (hflat : s.dataflow.cutHeight config = 0)
    (h : s.loadWeights i c wait = .ok (c₁, cmds)) : c₁ = c := by
  obtain ⟨-, got, hgot, hafter⟩ := loadWeights_spec h
  have htargets : s.dataflow.weightTargets config i c = [] := by
    simp [Dataflow.weightTargets, Dataflow.loop, hflat]
  rw [htargets] at hgot
  cases hgot
  exact congrArg Prod.fst hafter

theorem scheduleCut_flat (hflat : s.dataflow.cutHeight config = 0)
    (hload : ∀ c ∈ s.cuts, c.iwStatus = .loading) (h : scheduleCut wait isInRef s i = .ok s') :
    ∀ c ∈ s'.cuts, c.iwStatus = .loading := by
  cases scheduleCut_spec h with
  | rests _ _ => exact hload
  | @feeds c _ _ _ _ hc hfed _ =>
      have hstatus := hload c (List.mem_of_getElem? hc)
      obtain ⟨c', hstage, rfl⟩ := hfed.stage
      simp only [inputStage, hstatus] at hstage
      obtain ⟨⟨c'', cmds⟩, hweights, hstage⟩ := Library.bind_eq_ok.mp hstage
      cases hstage
      obtain rfl := loadWeights_flat hflat hweights
      intro c' hc'
      obtain hmem | rfl := List.mem_or_eq_of_mem_set hc'
      · exact hload c' hmem
      · rw [countOutput_eq]
        exact hstatus
  | writes hc _ hready _ _ =>
      have hstatus := hload _ (List.mem_of_getElem? hc)
      rw [hready.2.1] at hstatus
      cases hstatus

namespace Shaped

variable {s s' : JedecDRAMSystem config}

theorem init : Shaped ({} : JedecDRAMSystem config) := ⟨.inl ⟨rfl, rfl⟩, by simp⟩

/-- A step that keeps the dataflow and the workloads keeps the shape. -/
theorem of_keeps (h : Shaped s) (hs : Keeps s s')
    (hflat : s.dataflow.cutHeight config = 0 → ∀ c ∈ s'.cuts, c.iwStatus = .loading) :
    Shaped s' := by
  refine ⟨?_, by rwa [hs.dataflow]⟩
  rw [hs.dataflow, hs.length]
  obtain ⟨hd, hc⟩ | hd := h.loaded
  · refine .inl ⟨hd, List.eq_nil_of_length_eq_zero ?_⟩
    rw [hs.length, hc]
    rfl
  · exact .inr hd

theorem settle (h : Shaped s) : Shaped s.settle := by
  refine h.of_keeps .settle fun hflat c hc => ?_
  unfold JedecDRAMSystem.settle at hc
  split at hc
  · obtain ⟨c', hc', rfl⟩ := List.mem_map.mp hc
    exact h.flat hflat c' hc'
  · exact h.flat hflat c hc

theorem popPim (h : Shaped s) (hs : s.popPim = .ok s') : Shaped s' := by
  cases popPim_spec hs with
  | none _ => exact h
  | waits _ _ => exact ⟨h.loaded, h.flat⟩
  | launches _ _ _ =>
      refine ⟨?_, fun hflat c hc => ?_⟩
      · simpa using h.loaded
      · obtain ⟨n, hn, rfl⟩ := List.mem_mapIdx.mp hc
        have hload := h.flat hflat _ (List.getElem_mem hn)
        split <;> exact hload
  | flow _ _ =>
      rename_i addr rest _ _
      refine ⟨.inr ⟨⟨addr, rfl⟩, by simp [loadDataflow]⟩, fun _ c hc => ?_⟩
      rw [List.eq_of_mem_replicate hc]
  | work _ _ _ hc hload =>
      refine ⟨?_, fun hflat c' hmem => ?_⟩
      · obtain ⟨_, hnil⟩ | hd := h.loaded
        · rw [hnil] at hc
          cases hc
        · exact .inr (by simpa using hd)
      · obtain hmem | rfl := List.mem_or_eq_of_mem_set hmem
        · exact h.flat hflat c' hmem
        · rw [loadInto_iwStatus hload]
          exact h.flat hflat _ (List.mem_of_getElem? hc)

theorem foldlM (h : Shaped s) (hs : is.foldlM (scheduleCut wait isInRef) s = .ok s') :
    Shaped s' := by
  induction is generalizing s with
  | nil =>
      cases hs
      exact h
  | cons i is ih =>
      obtain ⟨t, ht, hs⟩ := Library.bind_eq_ok.mp (by simpa only [List.foldlM_cons] using hs)
      have hflat := fun hflat => scheduleCut_flat hflat (h.flat hflat) ht
      exact ih (h.of_keeps (.scheduleCut ht) hflat) hs

theorem step (h : Shaped s) (hs : (memorySystem config).step s op s') : Shaped s' := by
  cases op with
  | addPim _ =>
      obtain ⟨_, rfl⟩ := hs
      exact ⟨h.loaded, h.flat⟩
  | add _ _ =>
      obtain ⟨_, rfl⟩ := hs
      exact ⟨h.loaded, h.flat⟩
  | tick =>
      obtain ⟨s₁, s₂, ctrls, hpop, hcuts, -, rfl⟩ := clockTick_spec hs
      have h₂ := (h.settle.popPim hpop).foldlM hcuts
      exact ⟨h₂.loaded, h₂.flat⟩

theorem of_run {ops : List SystemOp} (hrun : (memorySystem config).Run ops s) : Shaped s :=
  hrun.invariant Shaped init fun _ _ _ h hs => h.step hs

end Shaped

/-! ## Indexing -/

/-- The scheduler of a tick comes to cut `i`. -/
def ComesTo (s : JedecDRAMSystem config) (wait : Bool) (i : Nat) (t : JedecDRAMSystem config) :
    Prop :=
  (List.range i).foldlM (scheduleCut wait s.isInRef) s = .ok t

/-- A tick indexes a vector of the cuts outside of its length. -/
inductive IndexesOutside (s : JedecDRAMSystem config) : Prop where
  /-- By the decoder, with the cut of a word or one that a launch asks for. -/
  | word : s.settle.popPim = .error .outOfRange → IndexesOutside s
  /-- By the scheduler, with the cut that it comes to. -/
  | cut {s₁ t : JedecDRAMSystem config} {i : Nat} : s.settle.popPim = .ok s₁ →
      i < numCuts s₁.dataflow → s₁.ComesTo s.waiting i t → t.cuts.length ≤ i → IndexesOutside s
  /-- By the scheduler, with the second of two narrow cuts at the end of a tile. -/
  | pair {s₁ t : JedecDRAMSystem config} {i : Nat} {c c₁ c₂ : Cut}
      {wCmds inCmds outCmds : List Command} {ended : Bool} {written : Dataflow.Written} :
      s.settle.popPim = .ok s₁ → i < numCuts s₁.dataflow → s₁.ComesTo s.waiting i t →
      t.cuts[i]? = some c → t.Streamed s.waiting s₁.isInRef i c c₁ wCmds inCmds ended →
      Ready config t.dataflow i c c₁ →
      (t.reported i ended).writeOutputs i c₁ s.waiting = .ok (c₂, outCmds, written) →
      written ≠ .column → t.dataflow.cutHeight config < t.dataflow.vcuts →
      t.cuts.length ≤ i + 1 → IndexesOutside s

/-- The first word is for cuts of the dataflow: a launch that asks for a cut comes after
a dataflow word, and the number of a cut is below the number of cuts. -/
def wordFits (s : JedecDRAMSystem config) : Bool :=
  match s.pimTransQueue with
  | [] => true
  | addr :: _ =>
      if isLaunch addr then s.dataflow.vcuts ≠ -1 || !addr.testBit 1
      else isDataflow addr || bits addr 1 4 < numCuts s.dataflow

theorem vcuts_decodeDataflow (addr : Nat) : (decodeDataflow addr).vcuts ≠ -1 := by
  have hpos : (0 : Int) < 2 ^ bits addr 7 3 := Int.pow_pos (by decide)
  simp only [decodeDataflow]
  omega

theorem hcuts_decodeDataflow (addr : Nat) : (decodeDataflow addr).hcuts ≠ -1 := by
  have hpos : (0 : Int) < 2 ^ bits addr 10 1 := Int.pow_pos (by decide)
  simp only [decodeDataflow]
  omega

theorem numCuts_decodeDataflow (addr : Nat) :
    numCuts (decodeDataflow addr) = 2 ^ bits addr 7 3 * 2 ^ bits addr 10 1 := by
  rw [numCuts, if_pos ⟨vcuts_decodeDataflow addr, hcuts_decodeDataflow addr⟩]
  simp only [decodeDataflow]
  exact_mod_cast Int.toNat_natCast (2 ^ bits addr 7 3 * 2 ^ bits addr 10 1)

namespace Shaped

variable {s : JedecDRAMSystem config}

theorem length (h : Shaped s) : s.cuts.length = numCuts s.dataflow := by
  obtain ⟨hd, hc⟩ | ⟨-, hlen⟩ := h.loaded
  · rw [hd, hc]
    rfl
  · exact hlen

/-- Before the first dataflow word the product of the two default numbers of cuts is
one, and after it there is one entry for each cut. -/
theorem launched_lt (h : Shaped s) (hi : i < (s.dataflow.vcuts * s.dataflow.hcuts).toNat) :
    i < s.cuts.length ∨ i = 0 ∧ s.dataflow.vcuts = -1 := by
  obtain ⟨hd, -⟩ | ⟨⟨addr, hd⟩, hlen⟩ := h.loaded
  · rw [hd] at hi ⊢
    exact .inr ⟨by simpa using hi, rfl⟩
  · left
    rw [hlen, hd, numCuts, if_pos ⟨vcuts_decodeDataflow addr, hcuts_decodeDataflow addr⟩]
    rwa [hd] at hi

/-- The first of two narrow cuts has an even number, so there is a second one. -/
theorem pair_lt (h : Shaped s) (hi : i < s.cuts.length) (hc : s.cuts[i]? = some c)
    (hready : Ready config s.dataflow i c c₁)
    (hnarrow : s.dataflow.cutHeight config < s.dataflow.vcuts) : i + 1 < s.cuts.length := by
  obtain ⟨-, hnil⟩ | ⟨⟨addr, hd⟩, hlen⟩ := h.loaded
  · rw [hnil] at hi
    cases hi
  · have hstatus := h.flat
    obtain ⟨-, hstreamed, henable⟩ := hready
    rw [hlen, hd, numCuts_decodeDataflow] at hi ⊢
    have hheight : 0 ≤ s.dataflow.cutHeight config := by
      rw [hd]
      exact Int.tdiv_nonneg (Int.natCast_nonneg _) (Int.pow_nonneg (by decide))
    have hvcuts : s.dataflow.vcuts = 2 ^ bits addr 7 3 := by
      rw [hd]
      rfl
    have heven : ((i : Int).tmod s.dataflow.vcuts).tmod 2 = 0 := by
      refine henable.resolve_left ?_
      rw [Int.tdiv_eq_zero_of_lt hheight hnarrow]
      exact lt_irrefl 0
    cases hwidth : bits addr 7 3 with
    | zero =>
        -- a single narrow cut spans no channel and never gets to its outputs
        rw [hvcuts, hwidth] at hnarrow
        have hload := hstatus (by omega) c (List.mem_of_getElem? hc)
        rw [hstreamed] at hload
        cases hload
    | succ n =>
        rw [hvcuts, hwidth, Int.tmod_eq_emod_of_nonneg (Int.natCast_nonneg _),
          Int.tmod_eq_emod_of_nonneg (Int.emod_nonneg _ (by positivity)),
          Int.emod_emod_of_dvd _ ⟨2 ^ n, by rw [pow_succ]; ring⟩] at heven
        rw [hwidth] at hi
        rw [pow_succ, Nat.mul_comm (2 ^ n) 2, Nat.mul_assoc] at hi ⊢
        omega

theorem launch_outOfRange (h : Shaped s) (addr : Nat) (rest : List Nat) :
    s.launch addr rest = .error .outOfRange ↔ s.dataflow.vcuts = -1 ∧ addr.testBit 1 = true := by
  have hbit : (addr >>> 1).testBit 0 = addr.testBit 1 := Nat.testBit_shiftRight ..
  unfold launch
  dsimp only
  split
  · rename_i hany
    refine iff_of_true rfl ?_
    obtain ⟨i, hi, hout⟩ := List.any_eq_true.mp hany
    simp only [Bool.and_eq_true, decide_eq_true_eq] at hout
    obtain hlt | ⟨rfl, hd⟩ := h.launched_lt (List.mem_range.mp hi)
    · omega
    · exact ⟨hd, hbit.symm.trans hout.1⟩
  · rename_i hany
    refine iff_of_false (by split <;> simp) ?_
    rintro ⟨hv, haddr⟩
    obtain ⟨hd, hnil⟩ | ⟨⟨flow, hd⟩, -⟩ := h.loaded
    · refine hany (List.any_eq_true.mpr ⟨0, by simp [hd], ?_⟩)
      simp [hbit, haddr, hnil]
    · exact vcuts_decodeDataflow flow (hd ▸ hv)

theorem loadWorkload_outOfRange (h : Shaped s) (addr : Nat) (rest : List Nat) :
    s.loadWorkload addr rest = .error .outOfRange ↔ numCuts s.dataflow ≤ bits addr 1 4 := by
  rw [← h.length, ← List.getElem?_eq_none_iff]
  unfold loadWorkload
  dsimp only
  split
  · rename_i hnone
    exact iff_of_true rfl hnone
  · rename_i c hc
    refine iff_of_false (fun herr => ?_) (by simp [hc])
    obtain hload | ⟨c', -, h⟩ := Library.bind_eq_error.mp herr
    · unfold loadInto at hload
      dsimp only at hload
      split at hload <;> cases hload
    · cases h

theorem popPim_outOfRange (h : Shaped s) :
    s.popPim = .error .outOfRange ↔ s.wordFits = false := by
  unfold JedecDRAMSystem.popPim wordFits
  cases s.pimTransQueue with
  | nil => simp
  | cons addr rest =>
      dsimp only
      split
      · rw [h.launch_outOfRange]
        simp
      · split
        · rename_i hflow
          simp [hflow]
        · rename_i hflow
          rw [h.loadWorkload_outOfRange]
          simp [hflow]

end Shaped

theorem Keeps.wordFits (h : Keeps s s') : s'.wordFits = s.wordFits := by
  rw [JedecDRAMSystem.wordFits, JedecDRAMSystem.wordFits, h.queue, h.dataflow]

/-- In every reachable state, the next tick stays inside the vectors of the cuts exactly
when the first word is for cuts of the dataflow. -/
theorem indexes_inside_iff {ops : List SystemOp} {s : JedecDRAMSystem config}
    (hrun : (memorySystem config).Run ops s) : ¬ s.IndexesOutside ↔ s.wordFits = true := by
  have hshape := (Shaped.of_run hrun).settle
  have hword := hshape.popPim_outOfRange
  rw [Keeps.settle.wordFits] at hword
  constructor
  · intro hin
    by_contra hfits
    exact hin (.word (hword.mpr (Bool.eq_false_iff.mpr hfits)))
  · intro hfits hout
    cases hout with
    | word hpop =>
        rw [hword.mp hpop] at hfits
        cases hfits
    | cut hpop hi ht hlen =>
        have hkeeps := Keeps.foldlM ht
        have hlength := (hshape.popPim hpop).length
        rw [hkeeps.length, hlength] at hlen
        omega
    | pair hpop hi ht hc hfed hready hwrite hwritten hnarrow hlen =>
        have ht' := (hshape.popPim hpop).foldlM ht
        have hi' := (List.getElem?_eq_some_iff.mp hc).1
        have hlt := ht'.pair_lt hi' hc hready hnarrow
        omega

/-- A word that loads `M` before any dataflow word. -/
theorem workload_before_dataflow_indexes_outside :
    ∃ s : JedecDRAMSystem Config.hbm2Rank,
      (memorySystem Config.hbm2Rank).Run [.addPim (workloadWord 0 1 0)] s ∧ s.IndexesOutside :=
  ⟨_, .step .start ⟨rfl, rfl⟩, .word rfl⟩

/-- The workload word behind a dataflow word. -/
theorem dataflow_indexes_inside :
    ∃ s : JedecDRAMSystem Config.hbm2Rank,
      (∃ ops, (memorySystem Config.hbm2Rank).Run ops s) ∧
      s.pimTransQueue = [workloadWord 0 1 0] ∧ ¬ s.IndexesOutside := by
  have hsome : ((replayWhere .hbm2Rank (fun _ _ => true)
      [.addPim (dataflowWord 0 0 0 8), .addPim (workloadWord 0 1 0), .tick]).any fun s =>
      s.pimTransQueue = [workloadWord 0 1 0] && s.wordFits) = true := by
    decide +kernel
  obtain ⟨s, hs, h⟩ := Option.any_eq_true _ _ |>.mp hsome
  rw [Bool.and_eq_true, decide_eq_true_eq] at h
  have hrun := (run_of_replayWhere hs).of_restrict
  exact ⟨s, ⟨_, hrun⟩, h.1, (indexes_inside_iff hrun).mpr h.2⟩

/-! ## A launch that waits -/

/-- The first word is taken in the next tick. -/
def TakesWord (s : JedecDRAMSystem config) : Prop :=
  ∃ addr rest s₁, s.pimTransQueue = addr :: rest ∧ s.settle.popPim = .ok s₁ ∧
    s₁.pimTransQueue = rest

/-- A launch asks for every cut, and every cut has its dimensions. -/
def Launchable (s : JedecDRAMSystem config) (addr : Nat) : Prop :=
  ∀ i < (s.dataflow.vcuts * s.dataflow.hcuts).toNat, (addr >>> 1).testBit i = true ∧
    (s.cuts[i]?).any fun c => c.M ≠ 0 && c.N ≠ 0 && c.K ≠ 0

instance (s : JedecDRAMSystem config) (addr : Nat) : Decidable (s.Launchable addr) :=
  inferInstanceAs (Decidable (∀ i < _, _))

theorem Keeps.launchable (h : Keeps s s') : s'.Launchable addr ↔ s.Launchable addr := by
  have hcut (i : Nat) : ((s'.cuts[i]?).any fun c => c.M ≠ 0 && c.N ≠ 0 && c.K ≠ 0) =
      (s.cuts[i]?).any fun c => c.M ≠ 0 && c.N ≠ 0 && c.K ≠ 0 := by
    have hwork := congrArg (·[i]?) h.works
    simp only [List.getElem?_map] at hwork
    cases hc : s.cuts[i]? <;> cases hc' : s'.cuts[i]? <;> rw [hc, hc'] at hwork <;>
      simp [Cut.work] at hwork ⊢
    simp [hwork]
  unfold Launchable
  simp only [hcut, h.dataflow]

/-- A launch is taken exactly when all is configured. -/
theorem launch_takes_iff (hq : s.pimTransQueue = addr :: rest) (haddr : isLaunch addr = true) :
    (∃ s₁, s.popPim = .ok s₁ ∧ s₁.pimTransQueue = rest) ↔ s.Launchable addr := by
  constructor
  · rintro ⟨s₁, hpop, hrest⟩
    cases popPim_spec hpop with
    | none hnil =>
        rw [hq] at hnil
        cases hnil
    | waits _ _ => exact absurd (hq.symm.trans hrest) (by simp)
    | launches hq' _ hall =>
        rw [hq] at hq'
        cases hq'
        intro i hi
        obtain ⟨c, hc, hbit, hM, hN, hK⟩ := hall i hi
        exact ⟨hbit, by simp [hc, hM, hN, hK]⟩
    | flow hq' hflow =>
        rw [hq] at hq'
        cases hq'
        simp [isDataflow, haddr] at hflow
    | work hq' hlaunch _ _ _ =>
        rw [hq] at hq'
        cases hq'
        rw [haddr] at hlaunch
        cases hlaunch
  · intro hall
    have hin : ¬ ((List.range (s.dataflow.vcuts * s.dataflow.hcuts).toNat).any fun i =>
        (addr >>> 1).testBit i && decide (s.cuts.length ≤ i)) = true := by
      simp only [List.any_eq_true, List.mem_range, Bool.and_eq_true, decide_eq_true_eq]
      rintro ⟨i, hi, -, hlen⟩
      have hsome := (hall i hi).2
      rw [List.getElem?_eq_none hlen] at hsome
      cases hsome
    have hready : ((List.range (s.dataflow.vcuts * s.dataflow.hcuts).toNat).all fun i =>
        (addr >>> 1).testBit i && (s.cuts[i]?).any fun c => c.M ≠ 0 && c.N ≠ 0 && c.K ≠ 0) =
          true := by
      refine List.all_eq_true.mpr fun i hi => ?_
      rw [Bool.and_eq_true]
      exact hall i (List.mem_range.mp hi)
    rw [popPim, hq]
    dsimp only
    rw [if_pos haddr, launch]
    dsimp only
    rw [if_neg hin, if_pos hready]
    exact ⟨_, rfl, rfl⟩

/-- A launch that is not configured stays at the head of its queue. -/
theorem waits_step (haddr : isLaunch addr = true) (hwait : ¬ s.Launchable addr)
    (hq : s.pimTransQueue = addr :: rest) (hs : (memorySystem config).step s op s') :
    ¬ s'.Launchable addr ∧ ∃ rest', s'.pimTransQueue = addr :: rest' := by
  cases op with
  | addPim hexAddr =>
      obtain ⟨-, rfl⟩ := hs
      exact ⟨hwait, rest ++ [hexAddr], by simp [addPim, hq]⟩
  | add _ _ =>
      obtain ⟨-, rfl⟩ := hs
      exact ⟨hwait, rest, hq⟩
  | tick =>
      obtain ⟨s₁, hpop, hkeeps⟩ := clockTick_keeps hs
      have hsettle : Keeps s s.settle := .settle
      have hq' := hsettle.queue.trans hq
      have hwait' := mt hsettle.launchable.mp hwait
      have hkeeps₁ : Keeps s.settle s₁ := by
        cases popPim_spec hpop with
        | none hnil =>
            rw [hq'] at hnil
            cases hnil
        | waits _ _ => exact ⟨rfl, rfl, rfl⟩
        | launches hq'' _ _ =>
            rw [hq'] at hq''
            cases hq''
            exact absurd ((launch_takes_iff hq' haddr).mp ⟨_, hpop, rfl⟩) hwait'
        | flow hq'' hflow =>
            rw [hq'] at hq''
            cases hq''
            simp [isDataflow, haddr] at hflow
        | work hq'' hlaunch _ _ _ =>
            rw [hq'] at hq''
            cases hq''
            rw [haddr] at hlaunch
            cases hlaunch
      have hall := hkeeps₁.trans hkeeps
      exact ⟨mt hall.launchable.mp hwait', rest, hall.queue.trans hq'⟩

end JedecDRAMSystem

/-- PIM words and ticks. -/
def SystemOp.isPim : SystemOp → Bool
  | .add _ _ => false
  | _ => true

namespace JedecDRAMSystem

variable {config : Config} {addr i : Nat} {c c' : Cut} {rest : List Nat}
  {t s s₁ : JedecDRAMSystem config}

/-- The words that a launch waits for are behind it. -/
theorem not_takesWord_of_waits {s' : JedecDRAMSystem config} {more : List SystemOp}
    (haddr : isLaunch addr = true) (hwait : ¬ s.Launchable addr)
    (hq : s.pimTransQueue = addr :: rest)
    (hmore : ((memorySystem config).startingAt s).Run more s') : ¬ s'.TakesWord := by
  have hstays : ¬ s'.Launchable addr ∧ ∃ rest', s'.pimTransQueue = addr :: rest' := by
    refine hmore.invariant (fun t => ¬ t.Launchable addr ∧ ∃ rest', t.pimTransQueue = addr :: rest')
      ⟨hwait, rest, hq⟩ ?_
    rintro t op t' ⟨hwait, rest, hq⟩ hs
    exact waits_step haddr hwait hq hs
  obtain ⟨hwait', rest', hq'⟩ := hstays
  rintro ⟨addr', rest'', s₁, hq'', hpop, hrest⟩
  have hsettle : Keeps s' s'.settle := .settle
  rw [hq'] at hq''
  cases hq''
  exact hwait' (hsettle.launchable.mp
    ((launch_takes_iff (hsettle.queue.trans hq') haddr).mp ⟨s₁, hpop, hrest⟩))

/-- A launch at the head of the queue is taken, in the next tick or after further words and
ticks, exactly when all that it launches is configured. -/
theorem launch_consumed_iff {s : JedecDRAMSystem config} {addr : Nat} {rest : List Nat}
    (hq : s.pimTransQueue = addr :: rest) (haddr : isLaunch addr = true) :
    (∃ more s', (((memorySystem config).startingAt s).restrict fun _ op => op.isPim = true).Run
        more s' ∧ s'.TakesWord) ↔ s.Launchable addr := by
  constructor
  · rintro ⟨more, s', hmore, htakes⟩
    by_contra hwait
    exact not_takesWord_of_waits haddr hwait hq hmore.of_restrict htakes
  · intro hall
    have hsettle : Keeps s s.settle := .settle
    obtain ⟨s₁, hpop, hrest⟩ :=
      (launch_takes_iff (hsettle.queue.trans hq) haddr).mpr (hsettle.launchable.mpr hall)
    exact ⟨[], s, .start, addr, rest, s₁, hq, hpop, hrest⟩

/-- The words of a kernel in order: the launch is taken. -/
theorem launch_consumed_in_order :
    ∃ s : JedecDRAMSystem Config.hbm2Rank,
      (∃ ops, (memorySystem Config.hbm2Rank).Run ops s) ∧ s.pimTransQueue = [3] ∧
      ∃ more s', (((memorySystem Config.hbm2Rank).startingAt s).restrict fun _ op =>
        op.isPim = true).Run more s' ∧ s'.TakesWord := by
  have hsome : ((replayWhere .hbm2Rank (fun _ _ => true)
      (kernelWords (dataflowWord 0 0 0 8) 1 1 1 0 0 0 ++ List.replicate 4 .tick)).any fun s =>
      s.pimTransQueue = [3] && s.Launchable 3) = true := by
    decide +kernel
  obtain ⟨s, hs, h⟩ := Option.any_eq_true _ _ |>.mp hsome
  rw [Bool.and_eq_true, decide_eq_true_eq, decide_eq_true_eq] at h
  exact ⟨s, ⟨_, (run_of_replayWhere hs).of_restrict⟩, h.1,
    (launch_consumed_iff h.1 (by decide)).mpr h.2⟩

/-- A launch between the dataflow word and the workload of a kernel is never taken. -/
theorem early_launch_waits_forever :
    ∃ s : JedecDRAMSystem Config.hbm2Rank,
      (∃ ops, (memorySystem Config.hbm2Rank).Run ops s) ∧ s.pimTransQueue = [3] ∧
      ¬ ∃ more s', (((memorySystem Config.hbm2Rank).startingAt s).restrict fun _ op =>
        op.isPim = true).Run more s' ∧ s'.TakesWord := by
  have hsome : ((replayWhere .hbm2Rank (fun _ _ => true)
      [.addPim (dataflowWord 0 0 0 8), .addPim 3, .tick]).any fun s =>
      s.pimTransQueue = [3] && !decide (s.Launchable 3)) = true := by
    decide +kernel
  obtain ⟨s, hs, h⟩ := Option.any_eq_true _ _ |>.mp hsome
  rw [Bool.and_eq_true, decide_eq_true_eq, Bool.not_eq_true', decide_eq_false_iff_not] at h
  refine ⟨s, ⟨_, (run_of_replayWhere hs).of_restrict⟩, h.1, ?_⟩
  rintro ⟨more, s', hmore, htakes⟩
  exact not_takesWord_of_waits (by decide) h.2 h.1 hmore.of_restrict htakes

/-! ## Words that come while a kernel runs -/

/-- A workload word holds what its cut has already. -/
def reloads (addr : Nat) (c : Cut) : Bool :=
  let dimValue := toInt (bits addr 7 32)
  let baseRow := bits addr 39 22
  match bits addr 5 2 with
  | 0 => c.baseRowsW = baseRow && c.M = dimValue
  | 1 => c.baseRowsOut = baseRow && c.K = dimValue
  | _ => c.baseRowsIn = baseRow && c.N = dimValue

/-- The first word leaves cut `i` alone: it is a launch, a workload word for another cut,
or one that holds what the cut has. -/
def spares (s : JedecDRAMSystem config) (i : Nat) (c : Cut) : Bool :=
  match s.pimTransQueue with
  | [] => true
  | addr :: _ => isLaunch addr || !isDataflow addr && (bits addr 1 4 ≠ i || reloads addr c)

/-- The word of a tick changes neither the dataflow nor cut `i`, so that they only change
by the scheduler. -/
def Isolated (s : JedecDRAMSystem config) (i : Nat) : Prop :=
  ∀ s₁, s.settle.popPim = .ok s₁ →
    s₁.dataflow = s.settle.dataflow ∧ s₁.cuts[i]? = s.settle.cuts[i]?

/-- A bit field is a remainder of a quotient. -/
theorem bits_eq (addr pos width : Nat) : bits addr pos width = addr / 2 ^ pos % 2 ^ width := by
  rw [bits, Nat.and_two_pow_sub_one_eq_mod, Nat.shiftRight_eq_div_pow]

/-- The load type of a workload word is one of three. -/
theorem loadType_lt (hlaunch : isLaunch addr = false) (hflow : isDataflow addr = false) :
    bits addr 5 2 < 3 := by
  rw [isDataflow, hlaunch, Bool.not_false, Bool.true_and, Nat.testBit_eq_decide_div_mod_eq,
    Nat.testBit_eq_decide_div_mod_eq] at hflow
  simp only [Bool.and_eq_false_iff, decide_eq_false_iff_not] at hflow
  rw [bits_eq]
  omega

/-- A workload word is loaded, and changes the cut unless the cut has what it holds. -/
theorem exists_loadInto (c : Cut) (hload : bits addr 5 2 < 3) :
    ∃ c', loadInto addr c = .ok c' ∧ (c' = c ↔ reloads addr c = true) := by
  unfold loadInto reloads
  dsimp only
  generalize toInt (bits addr 7 32) = dimValue
  generalize bits addr 39 22 = baseRow
  have htype : bits addr 5 2 = 0 ∨ bits addr 5 2 = 1 ∨ bits addr 5 2 = 2 := by omega
  obtain ⟨w, inp, out, M, N, K⟩ := c
  rcases htype with h | h | h <;> rw [h] <;> refine ⟨_, rfl, ?_⟩ <;>
    simp only [Cut.mk.injEq, and_true, true_and, Bool.and_eq_true, decide_eq_true_eq] <;>
    exact and_congr eq_comm eq_comm

theorem reloads_congr (h : c'.work = c.work) : reloads addr c' = reloads addr c := by
  simp only [Cut.work, Prod.mk.injEq] at h
  unfold reloads
  simp [h]

/-- The cut of a kernel is still one in PIM mode when a word is looked for. -/
theorem exists_settle_cut (hc : s.cuts[i]? = some c) :
    ∃ c', s.settle.cuts[i]? = some c' ∧ c'.inPim = c.inPim ∧ c'.work = c.work := by
  unfold settle
  split
  · exact ⟨{ c with inActPlaced := false, wActPlaced := false, outActPlaced := false },
      by simp [clearFlags, returnAll, hc], rfl, rfl⟩
  · exact ⟨c, hc, rfl, rfl⟩

/-- A launch leaves a cut alone that is in PIM mode. -/
theorem popPim_launch_running (hq : t.pimTransQueue = addr :: rest) (hlaunch : isLaunch addr = true)
    (hc : t.cuts[i]? = some c) (hpim : c.inPim = true) (hpop : t.popPim = .ok s₁) :
    s₁.dataflow = t.dataflow ∧ s₁.cuts[i]? = some c := by
  cases popPim_spec hpop with
  | none _ => exact ⟨rfl, hc⟩
  | waits _ _ => exact ⟨rfl, hc⟩
  | launches _ _ _ =>
      refine ⟨rfl, ?_⟩
      simp only [List.getElem?_mapIdx, hc, Option.map_some, Option.some.injEq]
      split
      · rw [← hpim]
      · rfl
  | flow hq' hflow =>
      rw [hq] at hq'
      cases hq'
      simp [isDataflow, hlaunch] at hflow
  | work hq' hno _ _ _ =>
      rw [hq] at hq'
      cases hq'
      rw [hlaunch] at hno
      cases hno

/-- A workload word writes to its own cut. -/
theorem loadWorkload_own (rest : List Nat) (hc : t.cuts[bits addr 1 4]? = some c)
    (hload : loadInto addr c = .ok c') :
    t.loadWorkload addr rest =
      .ok { t with cuts := t.cuts.set (bits addr 1 4) c', pimTransQueue := rest } := by
  rw [loadWorkload]
  simp only [hc, hload]
  rfl

/-- It leaves the other cuts alone. -/
theorem loadWorkload_other (hcut : bits addr 1 4 ≠ i) (h : t.loadWorkload addr rest = .ok s₁) :
    s₁.dataflow = t.dataflow ∧ s₁.cuts[i]? = t.cuts[i]? := by
  unfold loadWorkload at h
  dsimp only at h
  split at h
  · cases h
  · obtain ⟨c', -, h⟩ := Library.bind_eq_ok.mp h
    cases h
    exact ⟨rfl, List.getElem?_set_ne hcut⟩

/-- While the kernel of a cut runs, a tick leaves it to the scheduler exactly when the first
word spares it. -/
theorem kernel_isolated_iff {s : JedecDRAMSystem config} {i : Nat} {c : Cut}
    (hc : s.cuts[i]? = some c) (hrun : c.inPim = true) :
    s.Isolated i ↔ s.spares i c = true := by
  obtain ⟨c', hc', hpim, hwork⟩ := exists_settle_cut hc
  have hqueue : s.settle.pimTransQueue = s.pimTransQueue := Keeps.settle.queue
  rw [hrun] at hpim
  unfold Isolated spares
  rw [← hqueue, hc']
  generalize s.settle = t at hc'
  cases hq : t.pimTransQueue with
  | nil =>
      refine iff_of_true (fun s₁ hpop => ?_) rfl
      simp only [popPim, hq] at hpop
      cases hpop
      exact ⟨rfl, hc'⟩
  | cons addr rest =>
      dsimp only
      cases hlaunch : isLaunch addr with
      | true =>
          exact iff_of_true (fun s₁ hpop => popPim_launch_running hq hlaunch hc' hpim hpop) rfl
      | false =>
          cases hflow : isDataflow addr with
          | true =>
              refine iff_of_false (fun hiso => ?_) (by simp)
              have hpop : t.popPim = .ok (t.loadDataflow addr rest) := by
                simp [popPim, hq, hlaunch, hflow]
              -- the entries of the new vectors are not in PIM mode
              have hcut := (hiso _ hpop).2
              have hmem := List.eq_of_mem_replicate (List.mem_of_getElem? hcut)
              rw [hmem] at hpim
              cases hpim
          | false =>
              have hload := loadType_lt hlaunch hflow
              have hpop : t.popPim = t.loadWorkload addr rest := by
                simp [popPim, hq, hlaunch, hflow]
              rw [hpop]
              by_cases hcut : bits addr 1 4 = i
              · obtain ⟨c₁, hc₁, hsame⟩ := exists_loadInto c' hload
                have hs₁ := loadWorkload_own rest (hcut.symm ▸ hc') hc₁
                have hset : (t.cuts.set i c₁)[i]? = some c₁ :=
                  List.getElem?_set_self (List.getElem?_eq_some_iff.mp hc').1
                rw [hs₁]
                simp [hset, hsame, hcut, reloads_congr hwork]
              · refine iff_of_true (fun s₁ hs₁ => ?_) (by simp [hcut])
                rw [← hc']
                exact loadWorkload_other hcut hs₁

/-- The word that waits while a kernel runs holds the `M` that the cut has. -/
theorem kernel_isolated_reload :
    ∃ (s : JedecDRAMSystem Config.hbm2Rank) (c : Cut),
      (∃ ops, (memorySystem Config.hbm2Rank).Run ops s) ∧ s.cuts[0]? = some c ∧ c.inPim = true ∧
      s.pimTransQueue = [workloadWord 0 1 0] ∧ s.Isolated 0 := by
  have hsome : ((replayWhere .hbm2Rank (fun _ _ => true)
      (kernelWords (dataflowWord 0 0 0 8) 1 1 1 0 0 0 ++ List.replicate 6 .tick ++
        [.addPim (workloadWord 0 1 0)])).any fun s =>
      s.pimTransQueue = [workloadWord 0 1 0] &&
        (s.cuts[0]?).any fun c => c.inPim && s.spares 0 c) = true := by
    decide +kernel
  obtain ⟨s, hs, h⟩ := Option.any_eq_true _ _ |>.mp hsome
  rw [Bool.and_eq_true, decide_eq_true_eq] at h
  obtain ⟨c, hc, hspares⟩ := Option.any_eq_true _ _ |>.mp h.2
  rw [Bool.and_eq_true] at hspares
  exact ⟨s, c, ⟨_, (run_of_replayWhere hs).of_restrict⟩, hc, hspares.1, h.1,
    (kernel_isolated_iff hc hspares.1).mpr hspares.2⟩

/-- The dataflow word of a second kernel stops the first one. -/
theorem second_kernel_stops_first :
    ∃ (s : JedecDRAMSystem Config.hbm2Rank) (c : Cut),
      (∃ ops, (memorySystem Config.hbm2Rank).Run ops s) ∧ s.cuts[0]? = some c ∧ c.inPim = true ∧
      ¬ s.Isolated 0 := by
  have hsome : ((replayWhere .hbm2Rank (fun _ _ => true)
      (kernelWords (dataflowWord 0 0 0 8) 1 1 1 0 0 0 ++ List.replicate 6 .tick ++
        kernelWords (dataflowWord 0 0 0 8) 2 2 2 0 0 0)).any fun s =>
      ((s.cuts[0]?).any fun c => c.inPim) && (s.settle.popPim.toOption.any fun s₁ =>
        s₁.cuts[0]? ≠ s.settle.cuts[0]?)) = true := by
    decide +kernel
  obtain ⟨s, hs, h⟩ := Option.any_eq_true _ _ |>.mp hsome
  rw [Bool.and_eq_true] at h
  obtain ⟨c, hc, hpim⟩ := Option.any_eq_true _ _ |>.mp h.1
  obtain ⟨s₁, hs₁, hne⟩ := Option.any_eq_true _ _ |>.mp h.2
  refine ⟨s, c, ⟨_, (run_of_replayWhere hs).of_restrict⟩, hc, hpim, fun hiso => ?_⟩
  exact of_decide_eq_true hne (hiso s₁ (Library.toOption_eq_some.mp hs₁)).2

end JedecDRAMSystem

end Dramsim
