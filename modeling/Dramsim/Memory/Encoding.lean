import Dramsim.Memory.Words
import Dramsim.Model.GenPimTrace
import Mathlib.Tactic.FieldSimp
import Mathlib.Tactic.Linarith

/-!
# From the generator of traces to the decoder

`gen_pim_trace2.py` writes the words that the decoder of the memory system reads.  A word
that loads a dimension is the sum of a load type, a value and a base row, each with its
power of two.  The value is a quotient when a dimension is divided among the columns of
the array.  What the quotient leaves behind the point falls into the seven bits below the
value (`spill`), which hold the load type, the number of the cut and the kind of the word.

A workload of one cut arrives as it was written exactly when nothing is spilled and, for
`df = 0`, half of `M` is not zero.
-/

namespace Dramsim

namespace GenPimTrace

/-! ## Values and words -/

/-- A workload of one cut, with sizes of which the script can take logarithms. -/
structure Wellformed (w : Workload) (d : Dims) : Prop where
  cutV : w.cutV = 1
  cutH : w.cutH = 1
  dims : w.dims = [d]
  mcf : ∃ a ≤ 7, w.mcf = 2 ^ a
  ucf : ∃ b ≤ 7, w.ucf = 2 ^ b
  tileM : ∃ e, w.tileM = 2 ^ e
  df : w.df = 0 ∨ w.df = 1

/-- A workload of one cut whose fields fit into the words. -/
structure Encodable (w : Workload) (d : Dims) : Prop extends Wellformed w d where
  tileM_le : w.tileM ≤ 2 ^ 15
  M : 1 ≤ d.M
  K : 1 ≤ d.K
  N : 1 ≤ d.N
  values : ∀ j dim, (j, dim) ∈ d.enumerate → dimValue w j dim < 2 ^ 31
  baseRows : ∀ j, baseRow w d j < 2 ^ 22

theorem int_natCast (n : Nat) : int n = n := by
  rw [int, if_neg (not_lt.mpr (by positivity))]
  exact Int.floor_natCast n

theorem int_natCast_div (n m : Nat) : int ((n : ℚ) / m) = (n / m : Nat) := by
  rw [int, if_neg (not_lt.mpr (by positivity))]
  have hfloor := Rat.floor_intCast_div_natCast (n : ℤ) m
  rw [Int.cast_natCast] at hfloor
  rw [hfloor, Int.natCast_div]

/-- The whole part of a dimension that is divided by a factor, at least one. -/
def share (dim factor : Nat) : Nat := max 1 (dim / factor)

/-- What the quotient of a dimension by a factor leaves below its seven bits. -/
def spill (dim factor : Nat) : Nat := if factor ≤ dim then dim % factor * (128 / factor) else 0

theorem spill_eq_zero_iff {dim a : Nat} (ha : a ≤ 7) :
    spill dim (2 ^ a) = 0 ↔ 2 ^ a ∣ dim ∨ dim < 2 ^ a := by
  have hpos : 0 < 128 / 2 ^ a :=
    Nat.div_pos (Nat.pow_le_pow_right (by decide) ha : 2 ^ a ≤ 2 ^ 7) (by positivity)
  unfold spill
  split
  · rw [Nat.mul_eq_zero, Nat.dvd_iff_mod_eq_zero]
    omega
  · omega

theorem spill_lt {dim a : Nat} (ha : a ≤ 7) : spill dim (2 ^ a) < 128 := by
  have hsplit : 2 ^ a * (128 / 2 ^ a) = 128 :=
    Nat.mul_div_cancel' (Nat.pow_dvd_pow 2 ha : 2 ^ a ∣ 2 ^ 7)
  unfold spill
  split
  · calc dim % 2 ^ a * (128 / 2 ^ a) < 2 ^ a * (128 / 2 ^ a) :=
          Nat.mul_lt_mul_of_pos_right (Nat.mod_lt _ (by positivity))
            (Nat.pos_of_ne_zero fun h => by simp [h] at hsplit)
      _ = 128 := hsplit
  · decide

/-- A quotient with seven bits behind the point. -/
theorem max_div_mul {dim a : Nat} (ha : a ≤ 7) :
    max 1 ((dim : ℚ) / (2 ^ a : Nat)) * 2 ^ 7 =
      ((share dim (2 ^ a) * 128 + spill dim (2 ^ a) : Nat) : ℚ) := by
  have hsplit : 2 ^ a * (128 / 2 ^ a) = 128 :=
    Nat.mul_div_cancel' (Nat.pow_dvd_pow 2 ha : 2 ^ a ∣ 2 ^ 7)
  have hf : (0 : ℚ) < (2 ^ a : Nat) := by positivity
  by_cases hle : 2 ^ a ≤ dim
  · have hone : (1 : ℚ) ≤ dim / (2 ^ a : Nat) := by
      rw [le_div_iff₀ hf, one_mul]
      exact_mod_cast hle
    have hshare : share dim (2 ^ a) = dim / 2 ^ a :=
      max_eq_right (Nat.div_pos hle (by positivity))
    have hnat : dim * (128 / 2 ^ a) = dim / 2 ^ a * 128 + dim % 2 ^ a * (128 / 2 ^ a) := by
      conv_lhs => rw [← Nat.div_add_mod dim (2 ^ a)]
      rw [Nat.add_mul, Nat.mul_right_comm, hsplit, Nat.mul_comm 128]
    rw [max_eq_right hone, hshare, spill, if_pos hle, ← hnat, div_mul_eq_mul_div, div_eq_iff hf.ne']
    have hcast : ((128 / 2 ^ a : Nat) : ℚ) * (2 ^ a : Nat) = 128 := by
      exact_mod_cast (Nat.mul_comm _ _).trans hsplit
    push_cast at hcast ⊢
    rw [mul_assoc, hcast]
    norm_num
  · have hone : (dim : ℚ) / (2 ^ a : Nat) ≤ 1 := by
      rw [div_le_one hf]
      exact_mod_cast (not_le.mp hle).le
    have hshare : share dim (2 ^ a) = 1 := by
      rw [share, Nat.div_eq_of_lt (not_le.mp hle)]
      rfl
    rw [max_eq_left hone, hshare, spill, if_neg hle]
    norm_num

/-- The value of a dimension that arrives in full. -/
def value (w : Workload) (j dim : Nat) : Nat :=
  if w.df = 1 then
    if j = 0 then share dim w.mcf else if j = 1 then share dim w.ucf else dim * w.ucf
  else if j = 0 then dim / 2 else dim

/-- What a word has below its value, apart from the load type. -/
def remainder (w : Workload) (j dim : Nat) : Nat :=
  if w.df = 1 then
    if j = 0 then spill dim w.mcf else if j = 1 then spill dim w.ucf else 0
  else 0

/-- The base row of a dimension. -/
def row (w : Workload) (d : Dims) (j : Nat) : Nat :=
  if w.df = 0 ∧ j ≠ 0 then d.K * d.N / 1024 + 1
  else if w.df = 1 ∧ j ≠ 2 then d.M * d.K / 1024 + 1
  else 0

theorem baseRow_eq (w : Workload) (d : Dims) (j : Nat) : baseRow w d j = row w d j := by
  unfold baseRow row
  split_ifs
  · rw [show ((1024 : ℚ)) = (1024 : Nat) by norm_num, int_natCast_div]
    push_cast
    rfl
  · rw [show ((1024 : ℚ)) = (1024 : Nat) by norm_num, int_natCast_div]
    push_cast
    rfl
  · rfl

namespace Wellformed

variable {w : Workload} {d : Dims} (h : Wellformed w d)

include h

theorem dimValue_mul (j dim : Nat) :
    dimValue w j dim * 2 ^ 7 = ((value w j dim * 128 + remainder w j dim : Nat) : ℚ) := by
  obtain ⟨a, ha, hmcf⟩ := h.mcf
  obtain ⟨b, hb, hucf⟩ := h.ucf
  unfold dimValue value remainder
  rcases h.df with hdf | hdf
  · simp only [hdf, true_and, zero_ne_one, if_false]
    split
    · rw [show ((dim : ℚ) / 2) = dim / (2 : Nat) by norm_num, int_natCast_div, Int.cast_natCast]
      generalize dim / 2 = half
      push_cast
      ring
    · push_cast
      ring
  · simp only [hdf, one_ne_zero, false_and, if_false, if_true]
    split
    · rw [hmcf, max_div_mul ha]
    · split
      · rw [hucf, max_div_mul hb]
      · push_cast
        ring

theorem remainder_lt (j dim : Nat) : remainder w j dim < 128 := by
  obtain ⟨a, ha, hmcf⟩ := h.mcf
  obtain ⟨b, hb, hucf⟩ := h.ucf
  unfold remainder
  split_ifs
  · exact hmcf ▸ spill_lt ha
  · exact hucf ▸ spill_lt hb
  · decide
  · decide

/-- The word of a dimension, field by field. -/
theorem loadaddr_eq (j dim : Nat) :
    (int (loadaddr w 0 d j dim)).toNat =
      j * 32 + remainder w j dim + value w j dim * 128 + row w d j * 2 ^ 39 := by
  have hcast : loadaddr w 0 d j dim =
      ((j * 32 + remainder w j dim + value w j dim * 128 + row w d j * 2 ^ 39 : Nat) : ℚ) := by
    rw [loadaddr, h.dimValue_mul, baseRow_eq]
    push_cast
    ring
  rw [hcast, int_natCast]
  rfl

/-- The words of the trace. -/
theorem genPimTrace_eq :
    ∃ a ≤ 7, ∃ b ≤ 7, ∃ e, w.mcf = 2 ^ a ∧ w.ucf = 2 ^ b ∧ w.tileM = 2 ^ e ∧
      genPimTrace w =
        (96 + a * 2 ^ 11 + b * 2 ^ 14 + w.df * 2 ^ 17 + e * 2 ^ 18) ::
          d.enumerate.map (fun p => p.1 * 32 + remainder w p.1 p.2 + value w p.1 p.2 * 128 +
            row w d p.1 * 2 ^ 39) ++ [3] := by
  obtain ⟨a, ha, hmcf⟩ := h.mcf
  obtain ⟨b, hb, hucf⟩ := h.ucf
  obtain ⟨e, htile⟩ := h.tileM
  refine ⟨a, ha, b, hb, e, hmcf, hucf, htile, ?_⟩
  have hcut :
      cutaddr w = ((96 + a * 2 ^ 11 + b * 2 ^ 14 + w.df * 2 ^ 17 + e * 2 ^ 18 : Nat) : ℚ) := by
    rw [cutaddr, h.cutV, h.cutH, hmcf, hucf, htile]
    simp only [log, Nat.log_pow (by decide : 1 < 2), Nat.log_one_right]
    push_cast
    ring
  have hcomp : compaddr w = ((3 : Nat) : ℚ) := by
    rw [compaddr, h.cutV, h.cutH]
    norm_num
  unfold genPimTrace
  simp only [h.dims, List.zipIdx_singleton, List.flatMap_singleton, List.map_append, List.map_cons,
    List.map_map, List.map_nil, hcut, hcomp, int_natCast, Int.toNat_natCast]
  congr 2
  exact List.map_congr_left fun p _ => h.loadaddr_eq p.1 p.2

end Wellformed

namespace Encodable

variable {w : Workload} {d : Dims} (h : Encodable w d)

include h

theorem value_lt {j dim : Nat} (hj : (j, dim) ∈ d.enumerate) : value w j dim < 2 ^ 31 := by
  have hlt := h.values j dim hj
  have hmul := h.dimValue_mul j dim
  have hcast : ((value w j dim * 128 + remainder w j dim : Nat) : ℚ) < (2 ^ 38 : Nat) := by
    rw [← hmul]
    push_cast
    linarith
  have hnat := Nat.cast_lt.mp hcast
  omega

theorem row_lt (j : Nat) : row w d j < 2 ^ 22 := by
  have hlt := h.baseRows j
  rw [baseRow_eq] at hlt
  exact_mod_cast hlt

end Encodable

end GenPimTrace

/-- The dimension with number `j`, as load types count them. -/
def Cut.dim (c : Cut) (j : Nat) : Int := if j = 0 then c.M else if j = 1 then c.K else c.N

/-- The base row with number `j`. -/
def Cut.baseRow (c : Cut) (j : Nat) : Nat :=
  if j = 0 then c.baseRowsW else if j = 1 then c.baseRowsOut else c.baseRowsIn

namespace JedecDRAMSystem

variable {config : Config} {s s' : JedecDRAMSystem config} {addr j : Nat} {c c' : Cut}

/-! ## The decoder -/

/-- Words are given to the decoder one after another. -/
def feed (s : JedecDRAMSystem config) (words : List Nat) : Except Exit (JedecDRAMSystem config) :=
  words.foldlM (fun s addr => (s.addPim addr).popPim) s

theorem feed_cons {words : List Nat} :
    s.feed (addr :: words) = .ok s' ↔
      ∃ t, (s.addPim addr).popPim = .ok t ∧ t.feed words = .ok s' := by
  rw [feed, List.foldlM_cons, Library.bind_eq_ok]
  rfl

/-- A word that loads the dimension with number `j` of the first cut. -/
structure Loads (j addr : Nat) : Prop where
  launch : isLaunch addr = false
  cutNo : bits addr 1 4 = 0
  loadType : bits addr 5 2 = j

theorem isLaunch_eq (addr : Nat) : isLaunch addr = decide (addr % 2 = 1) := by
  rw [isLaunch, Nat.testBit_eq_decide_div_mod_eq]
  simp

theorem isDataflow_eq (addr : Nat) :
    isDataflow addr = decide (addr % 2 = 0 ∧ addr / 32 % 4 = 3) := by
  rw [isDataflow, isLaunch_eq, Nat.testBit_eq_decide_div_mod_eq, Nat.testBit_eq_decide_div_mod_eq,
    Bool.eq_iff_iff]
  simp only [Bool.and_eq_true, Bool.not_eq_true', decide_eq_true_eq, decide_eq_false_iff_not]
  omega

/-- The seven lowest bits of a word that loads a dimension. -/
theorem loads_iff (hj : j < 4) : Loads j addr ↔ addr % 128 = j * 32 := by
  constructor
  · rintro ⟨hlaunch, hcut, htype⟩
    rw [isLaunch_eq, decide_eq_false_iff_not] at hlaunch
    rw [bits_eq] at hcut htype
    omega
  · intro hlow
    refine ⟨?_, ?_, ?_⟩
    · rw [isLaunch_eq, decide_eq_false_iff_not]
      omega
    · rw [bits_eq]
      omega
    · rw [bits_eq]
      omega

theorem Loads.not_isDataflow (h : Loads j addr) (hj : j < 3) : isDataflow addr = false := by
  have hlow := (loads_iff (by omega)).mp h
  rw [isDataflow_eq, decide_eq_false_iff_not]
  omega

theorem loadInto_dim (h : loadInto addr c = .ok c') (hj : j < 3) :
    c'.dim j = if bits addr 5 2 = j then toInt (bits addr 7 32) else c.dim j := by
  unfold loadInto at h
  dsimp only at h
  have hcases : j = 0 ∨ j = 1 ∨ j = 2 := by omega
  split at h <;> cases h <;> rcases hcases with rfl | rfl | rfl <;> simp_all [Cut.dim]

/-- A dimension of the first cut comes from a word that loads it, or was there before. -/
theorem popPim_dim (h : s.popPim = .ok s') (hj : j < 3) (hc' : s'.cuts[0]? = some c')
    (hne : c'.dim j ≠ 0) :
    (∃ c, s.cuts[0]? = some c ∧ c.dim j = c'.dim j) ∨
      ∃ addr ∈ s.pimTransQueue, Loads j addr ∧ c'.dim j = toInt (bits addr 7 32) := by
  cases popPim_spec h with
  | none _ => exact .inl ⟨c', hc', rfl⟩
  | waits _ _ => exact .inl ⟨c', hc', rfl⟩
  | launches _ _ _ =>
      simp only [List.getElem?_mapIdx, Option.map_eq_some_iff] at hc'
      obtain ⟨c, hc, rfl⟩ := hc'
      refine .inl ⟨c, hc, ?_⟩
      split <;> rfl
  | flow _ _ =>
      rw [List.eq_of_mem_replicate (List.mem_of_getElem? hc')] at hne
      simp [Cut.dim] at hne
  | @work addr _ c c₁ hq hlaunch _ hc hload =>
      by_cases hcut : bits addr 1 4 = 0
      · have hlt := (List.getElem?_eq_some_iff.mp hc).1
        rw [hcut] at hc hlt
        simp only [hcut, List.getElem?_set_self hlt, Option.some.injEq] at hc'
        subst hc'
        have hdim := loadInto_dim hload hj
        split at hdim
        · rename_i htype
          exact .inr ⟨addr, by simp [hq], ⟨hlaunch, hcut, htype⟩, hdim⟩
        · exact .inl ⟨c, hc, hdim.symm⟩
      · simp only [List.getElem?_set_ne hcut] at hc'
        exact .inl ⟨c', hc', rfl⟩

theorem popPim_queue (h : s.popPim = .ok s') : s'.pimTransQueue ⊆ s.pimTransQueue := by
  cases popPim_spec h with
  | none _ => exact List.Subset.refl _
  | waits _ _ => exact List.Subset.refl _
  | launches hq _ _ => exact hq ▸ List.subset_cons_self ..
  | flow hq _ => exact hq ▸ List.subset_cons_self ..
  | work hq _ _ _ _ => exact hq ▸ List.subset_cons_self ..

theorem feed_dim {words : List Nat} (h : s.feed words = .ok s') (hj : j < 3)
    (hc' : s'.cuts[0]? = some c') (hne : c'.dim j ≠ 0) :
    (∃ c, s.cuts[0]? = some c ∧ c.dim j = c'.dim j) ∨
      ∃ addr ∈ s.pimTransQueue ++ words, Loads j addr ∧ c'.dim j = toInt (bits addr 7 32) := by
  induction words generalizing s with
  | nil =>
      cases h
      exact .inl ⟨c', hc', rfl⟩
  | cons word words ih =>
      obtain ⟨t, ht, h⟩ := feed_cons.mp h
      have hqueue := popPim_queue ht
      obtain ⟨c, hc, hdim⟩ | ⟨addr, hmem, hload⟩ := ih h
      · obtain ⟨c₀, hc₀, hdim₀⟩ | ⟨addr, hmem, hload, hval⟩ :=
          popPim_dim ht hj hc (hdim ▸ hne)
        · exact .inl ⟨c₀, hc₀, hdim₀.trans hdim⟩
        · refine .inr ⟨addr, ?_, hload, hdim ▸ hval⟩
          rcases List.mem_append.mp hmem with hq' | hword
          · exact List.mem_append_left _ hq'
          · exact List.mem_append_right _ (List.mem_singleton.mp hword ▸ List.mem_cons_self ..)
      · refine .inr ⟨addr, ?_, hload⟩
        rcases List.mem_append.mp hmem with hq | hw
        · rcases List.mem_append.mp (hqueue hq) with hq' | hword
          · exact List.mem_append_left _ hq'
          · exact List.mem_append_right _ (List.mem_singleton.mp hword ▸ List.mem_cons_self ..)
        · exact List.mem_append_right _ (List.mem_cons_of_mem _ hw)

/-- A workload word for the only cut. -/
theorem popPim_loads (hq : s.pimTransQueue = []) (hc : s.cuts = [c]) (hj : j < 3) (h : Loads j addr)
    (hload : loadInto addr c = .ok c') : (s.addPim addr).popPim = .ok { s with cuts := [c'] } := by
  have hqueue : (s.addPim addr).pimTransQueue = [addr] := by simp [addPim, hq]
  unfold popPim
  simp only [hqueue, h.launch, h.not_isDataflow hj, Bool.false_eq_true, if_false]
  unfold loadWorkload
  simp only [addPim, h.cutNo, hc, List.getElem?_cons_zero, hload, List.set_cons_zero]
  rw [← hq]
  rfl

/-- A dataflow word with one cut. -/
theorem popPim_dataflow (hq : s.pimTransQueue = []) (hflow : isDataflow addr = true)
    (hone : asksOneCut addr = true) :
    ∃ t, (s.addPim addr).popPim = .ok t ∧ t.dataflow = decodeDataflow addr ∧ t.cuts = [{}] ∧
      t.pimTransQueue = [] := by
  have hlaunch : isLaunch addr = false := by
    rw [isDataflow, Bool.and_eq_true, Bool.not_eq_true'] at hflow
    exact hflow.1
  have hqueue : (s.addPim addr).pimTransQueue = [addr] := by simp [addPim, hq]
  have hcuts := (singleCut_decodeDataflow hone hflow).numCuts
  refine ⟨(s.addPim addr).loadDataflow addr [], ?_, rfl, ?_, rfl⟩
  · simp [popPim, hqueue, hlaunch, hflow]
  · simp only [loadDataflow, hcuts]
    rfl

/-- The launch of the only cut. -/
theorem popPim_launch (hq : s.pimTransQueue = []) (hc : s.cuts = [c]) (hv : s.dataflow.vcuts = 1)
    (hh : s.dataflow.hcuts = 1) (hdims : c.M ≠ 0 ∧ c.N ≠ 0 ∧ c.K ≠ 0) :
    ∃ t, (s.addPim 3).popPim = .ok t ∧ t.dataflow = s.dataflow ∧
      t.cuts = [{ c with inPim := true }] ∧ t.pimTransQueue = [] := by
  have hqueue : (s.addPim 3).pimTransQueue = [3] := by simp [addPim, hq]
  have hall : (s.addPim 3).Launchable 3 := by
    intro i hi
    obtain rfl : i = 0 := by simpa [addPim, hv, hh] using hi
    exact ⟨by decide, by simp [addPim, hc, hdims]⟩
  obtain ⟨t, ht, hrest⟩ := (launch_takes_iff hqueue (by decide)).mpr hall
  refine ⟨t, ht, ?_⟩
  cases popPim_spec ht with
  | none hnil =>
      rw [hqueue] at hnil
      cases hnil
  | waits _ _ =>
      rw [hqueue] at hrest
      cases hrest
  | launches hq' _ _ =>
      rw [hqueue] at hq'
      cases hq'
      exact ⟨rfl, by simp [addPim, hc], rfl⟩
  | flow hq' hflow =>
      rw [hqueue] at hq'
      cases hq'
      cases hflow
  | work hq' hlaunch _ _ _ =>
      rw [hqueue] at hq'
      cases hq'
      cases hlaunch

end JedecDRAMSystem

namespace GenPimTrace

open JedecDRAMSystem

variable {config : Config} {w : Workload} {d : Dims} {dim j : Nat} {s : JedecDRAMSystem config}

/-! ## The round trip -/

/-- The dataflow of a workload. -/
def flow (w : Workload) : Dataflow where
  vcuts := w.cutV
  hcuts := w.cutH
  mcf := w.mcf
  ucf := w.ucf
  mc := w.mcf * w.ucf
  df := w.df
  mTileSize := w.tileM

/-- All words of a workload have been taken, and its kernel is started. -/
structure Received (w : Workload) (d : Dims) (s : JedecDRAMSystem config) : Prop where
  dataflow : s.dataflow = flow w
  queue : s.pimTransQueue = []
  cut : ∃ c, s.cuts = [c] ∧ c.inPim = true ∧
    (∀ p ∈ d.enumerate, c.dim p.1 = value w p.1 p.2 ∧ 0 < c.dim p.1 ∧ c.baseRow p.1 = row w d p.1)

/-- Nothing of a quotient is spilled, and half of `M` is not zero. -/
def Divides (w : Workload) (d : Dims) : Prop :=
  (w.df = 0 → 2 ≤ d.M) ∧
    (w.df = 1 → (w.mcf ∣ d.M ∨ d.M < w.mcf) ∧ (w.ucf ∣ d.K ∨ d.K < w.ucf))

instance (w : Workload) (d : Dims) : Decidable (Divides w d) :=
  inferInstanceAs (Decidable (_ ∧ _))

/-- The fields of a word that loads a value. -/
theorem fields_of_word (low v b : Nat) (hlow : low < 128) (hv : v < 2 ^ 32) (hb : b < 2 ^ 22) :
    (low + v * 128 + b * 2 ^ 39) % 128 = low ∧ bits (low + v * 128 + b * 2 ^ 39) 7 32 = v ∧
      bits (low + v * 128 + b * 2 ^ 39) 39 22 = b := by
  rw [bits_eq, bits_eq]
  omega

/-- The fields of a dataflow word, apart from the size of an `M` tile. -/
theorem fields_of_cutaddr {a b df : Nat} (e : Nat) (ha : a ≤ 7) (hb : b ≤ 7)
    (hdf : df = 0 ∨ df = 1) :
    ∃ addr, addr = 96 + a * 2 ^ 11 + b * 2 ^ 14 + df * 2 ^ 17 + e * 2 ^ 18 ∧
      isDataflow addr = true ∧ bits addr 7 3 = 0 ∧ bits addr 10 1 = 0 ∧ bits addr 11 3 = a ∧
      bits addr 14 3 = b ∧ bits addr 17 1 = df := by
  refine ⟨_, rfl, ?_⟩
  rw [isDataflow_eq, decide_eq_true_eq, bits_eq, bits_eq, bits_eq, bits_eq, bits_eq]
  omega

theorem decodeDataflow_cutaddr {a b e df : Nat} (ha : a ≤ 7) (hb : b ≤ 7) (he : e ≤ 15)
    (hdf : df = 0 ∨ df = 1) :
    isDataflow (96 + a * 2 ^ 11 + b * 2 ^ 14 + df * 2 ^ 17 + e * 2 ^ 18) = true ∧
      decodeDataflow (96 + a * 2 ^ 11 + b * 2 ^ 14 + df * 2 ^ 17 + e * 2 ^ 18) =
        ⟨1, 1, 2 ^ a, 2 ^ b, 2 ^ a * 2 ^ b, df, 2 ^ e⟩ := by
  obtain ⟨addr, haddr, hflow, hv, hh, hm, hu, hd⟩ := fields_of_cutaddr e ha hb hdf
  have ht : bits addr 18 4 = e := by
    rw [bits_eq, haddr]
    omega
  rw [← haddr]
  exact ⟨hflow, by simp only [decodeDataflow, hv, hh, hm, hu, hd, ht, pow_zero]⟩

/-- The word of dimension `j`, as `genPimTrace_eq` gives it. -/
def word (w : Workload) (d : Dims) (j dim : Nat) : Nat :=
  j * 32 + remainder w j dim + value w j dim * 128 + row w d j * 2 ^ 39

/-- The cut after `n` of the words that load its dimensions. -/
def cutOf (w : Workload) (d : Dims) (n : Nat) : Cut :=
  let c : Cut := { baseRowsW := row w d 0, M := value w 0 d.M }
  let c' := { c with baseRowsOut := row w d 1, K := value w 1 d.K }
  match n with
  | 0 => {}
  | 1 => c
  | 2 => c'
  | _ => { c' with baseRowsIn := row w d 2, N := value w 2 d.N }

theorem toInt_succ_ne (n : Nat) : (n : Int) ≠ toInt ((n + 1 : Nat) : Int) := by
  rw [toInt, Int.bmod_def]
  split <;> omega

/-- Two words that load the first two dimensions have no remainders.  The second one could
also load the first dimension, when its remainder carries into its value, but then the
first word would have to load the second dimension, and the values would not fit. -/
theorem remainders_eq_zero {M K : Nat} (hlt₀ : remainder w 0 M < 128) (hlt₁ : remainder w 1 K < 128)
    (hv₀ : value w 0 M < 2 ^ 31) (hv₁ : value w 1 K < 2 ^ 31) (hr₀ : row w d 0 < 2 ^ 22)
    (hr₁ : row w d 1 < 2 ^ 22)
    (hload₀ :
      (word w d 0 M % 128 = 0 * 32 ∧ (value w 0 M : Int) = toInt (bits (word w d 0 M) 7 32)) ∨
      word w d 1 K % 128 = 0 * 32 ∧ (value w 0 M : Int) = toInt (bits (word w d 1 K) 7 32))
    (hload₁ :
      (word w d 0 M % 128 = 1 * 32 ∧ (value w 1 K : Int) = toInt (bits (word w d 0 M) 7 32)) ∨
      word w d 1 K % 128 = 1 * 32 ∧ (value w 1 K : Int) = toInt (bits (word w d 1 K) 7 32)) :
    remainder w 0 M = 0 ∧ remainder w 1 K = 0 := by
  have hword₀ : word w d 0 M = remainder w 0 M + value w 0 M * 128 + row w d 0 * 2 ^ 39 := by
    rw [word]
    omega
  obtain ⟨hlow₀, hbits₀, -⟩ := fields_of_word _ (value w 0 M) _ hlt₀ (by omega) hr₀
  rw [hword₀, hlow₀, hbits₀, toInt_of_lt hv₀] at hload₀ hload₁
  by_cases hcarry : remainder w 1 K < 96
  · obtain ⟨hlow₁, -⟩ := fields_of_word (32 + remainder w 1 K) (value w 1 K) (row w d 1) (by omega)
      (by omega) hr₁
    have hword₁ : word w d 1 K = 32 + remainder w 1 K + value w 1 K * 128 + row w d 1 * 2 ^ 39 := by
      rw [word]
    rw [hword₁, hlow₁] at hload₀ hload₁
    omega
  · obtain ⟨hlow₁, hbits₁, -⟩ := fields_of_word (remainder w 1 K - 96) (value w 1 K + 1) (row w d 1)
      (by omega) (by omega) hr₁
    have hword₁ : word w d 1 K =
        remainder w 1 K - 96 + (value w 1 K + 1) * 128 + row w d 1 * 2 ^ 39 := by
      rw [word]
      omega
    rw [hword₁, hlow₁, hbits₁] at hload₀ hload₁
    obtain ⟨hrem, hsame⟩ := hload₁.resolve_right fun hr => by omega
    obtain ⟨-, hnext⟩ := hload₀.resolve_left fun hr => by omega
    rw [← hsame] at hnext
    exact absurd hnext (toInt_succ_ne _)

namespace Encodable

variable (h : Encodable w d)

include h

/-- The state after the dataflow word. -/
theorem feed_cutaddr (hq : s.pimTransQueue = []) :
    ∃ t : JedecDRAMSystem config, t.dataflow = flow w ∧ t.cuts = [{}] ∧ t.pimTransQueue = [] ∧
      ∀ s', s.feed (genPimTrace w) = .ok s' ↔
        t.feed [word w d 0 d.M, word w d 1 d.K, word w d 2 d.N, 3] = .ok s' := by
  obtain ⟨a, ha, b, hb, e, hmcf, hucf, htile, hwords⟩ := h.genPimTrace_eq
  have he : e ≤ 15 := (Nat.pow_le_pow_iff_right (by decide)).mp (htile ▸ h.tileM_le)
  obtain ⟨hflow, hdecode⟩ := decodeDataflow_cutaddr ha hb he h.df
  have hone : asksOneCut (96 + a * 2 ^ 11 + b * 2 ^ 14 + w.df * 2 ^ 17 + e * 2 ^ 18) = true := by
    rw [asksOneCut, hdecode]
    simp
  obtain ⟨t, ht, hd, hc, hq'⟩ := popPim_dataflow hq hflow hone
  refine ⟨t, ?_, hc, hq', fun s' => ?_⟩
  · rw [hd, hdecode, flow, h.cutV, h.cutH, hmcf, hucf, htile]
    push_cast
    rfl
  · rw [hwords, List.cons_append, feed_cons]
    constructor
    · rintro ⟨t', ht', hs'⟩
      rw [ht] at ht'
      cases ht'
      exact hs'
    · exact fun hs' => ⟨t, ht, hs'⟩

/-- A word without a remainder loads its dimension and base row. -/
theorem loads_word (hj : (j, dim) ∈ d.enumerate) (hrem : remainder w j dim = 0) :
    Loads j (word w d j dim) ∧ toInt (bits (word w d j dim) 7 32) = value w j dim ∧
      bits (word w d j dim) 39 22 = row w d j := by
  have hlt : j < 3 := by
    simp only [Dims.enumerate, List.mem_cons, Prod.mk.injEq, List.not_mem_nil, or_false] at hj
    omega
  have hv := h.value_lt hj
  obtain ⟨hlow, hbits, hrow⟩ := fields_of_word (j * 32 + remainder w j dim) (value w j dim)
    (row w d j) (by omega) (by omega) (h.row_lt j)
  refine ⟨(loads_iff (by omega)).mpr ?_, ?_, hrow⟩
  · rw [word, hlow, hrem]
    rfl
  · rw [word, hbits, toInt_of_lt hv]

theorem remainder_eq_zero (hdiv : Divides w d) (hj : (j, dim) ∈ d.enumerate) :
    remainder w j dim = 0 := by
  obtain ⟨a, ha, hmcf⟩ := h.mcf
  obtain ⟨b, hb, hucf⟩ := h.ucf
  simp only [Dims.enumerate, List.mem_cons, Prod.mk.injEq, List.not_mem_nil, or_false] at hj
  unfold remainder
  split
  · rename_i hdf
    obtain ⟨hM, hK⟩ := hdiv.2 hdf
    rw [hmcf] at hM
    rw [hucf] at hK
    rcases hj with ⟨rfl, rfl⟩ | ⟨rfl, rfl⟩ | ⟨rfl, rfl⟩
    · rw [if_pos rfl, hmcf, (spill_eq_zero_iff ha).mpr hM]
    · rw [if_neg one_ne_zero, if_pos rfl, hucf, (spill_eq_zero_iff hb).mpr hK]
    · rfl
  · rfl

theorem value_pos (hdiv : Divides w d) (hj : (j, dim) ∈ d.enumerate) : 0 < value w j dim := by
  obtain ⟨b, -, hucf⟩ := h.ucf
  have hM := h.M
  have hK := h.K
  have hN := h.N
  have hucf_pos : 0 < w.ucf := by
    rw [hucf]
    positivity
  simp only [Dims.enumerate, List.mem_cons, Prod.mk.injEq, List.not_mem_nil, or_false] at hj
  unfold value
  split
  · rcases hj with ⟨rfl, rfl⟩ | ⟨rfl, rfl⟩ | ⟨rfl, rfl⟩
    · exact lt_max_of_lt_left one_pos
    · exact lt_max_of_lt_left one_pos
    · exact Nat.mul_pos hN hucf_pos
  · rename_i hdf
    have htwo := hdiv.1 (h.df.resolve_right hdf)
    rcases hj with ⟨rfl, rfl⟩ | ⟨rfl, rfl⟩ | ⟨rfl, rfl⟩
    · rw [if_pos rfl]
      omega
    · exact hK
    · exact hN

/-- Without remainders the words arrive as they were written. -/
theorem received_of_divides (hdiv : Divides w d) (hq : s.pimTransQueue = []) :
    ∃ s', s.feed (genPimTrace w) = .ok s' ∧ Received w d s' := by
  have hM : (0, d.M) ∈ d.enumerate := by simp [Dims.enumerate]
  have hK : (1, d.K) ∈ d.enumerate := by simp [Dims.enumerate]
  have hN : (2, d.N) ∈ d.enumerate := by simp [Dims.enumerate]
  obtain ⟨hload₀, hval₀, hrow₀⟩ := h.loads_word hM (h.remainder_eq_zero hdiv hM)
  obtain ⟨hload₁, hval₁, hrow₁⟩ := h.loads_word hK (h.remainder_eq_zero hdiv hK)
  obtain ⟨hload₂, hval₂, hrow₂⟩ := h.loads_word hN (h.remainder_eq_zero hdiv hN)
  have hpos₀ := h.value_pos hdiv hM
  have hpos₁ := h.value_pos hdiv hK
  have hpos₂ := h.value_pos hdiv hN
  obtain ⟨t, hd, hc, hq', hfeed⟩ := h.feed_cutaddr hq
  have hc₁ : loadInto (word w d 0 d.M) {} = .ok (cutOf w d 1) := by
    simp only [loadInto, hload₀.loadType, hval₀, hrow₀]
    rfl
  have hc₂ : loadInto (word w d 1 d.K) (cutOf w d 1) = .ok (cutOf w d 2) := by
    simp only [loadInto, hload₁.loadType, hval₁, hrow₁]
    rfl
  have hc₃ : loadInto (word w d 2 d.N) (cutOf w d 2) = .ok (cutOf w d 3) := by
    simp only [loadInto, hload₂.loadType, hval₂, hrow₂]
    rfl
  have hne : (cutOf w d 3).M ≠ 0 ∧ (cutOf w d 3).N ≠ 0 ∧ (cutOf w d 3).K ≠ 0 := by
    simp only [cutOf]
    omega
  obtain ⟨s', hs', hd', hcuts, hqueue⟩ := popPim_launch (s := { t with cuts := [cutOf w d 3] })
    hq' rfl (by rw [hd, flow, h.cutV]; rfl) (by rw [hd, flow, h.cutH]; rfl) hne
  refine ⟨s', (hfeed s').mpr ?_, ⟨hd'.trans hd, hqueue, _, hcuts, rfl, ?_⟩⟩
  · refine feed_cons.mpr ⟨_, popPim_loads hq' hc (by decide) hload₀ hc₁, ?_⟩
    refine feed_cons.mpr ⟨_, popPim_loads hq' rfl (by decide) hload₁ hc₂, ?_⟩
    refine feed_cons.mpr ⟨_, popPim_loads hq' rfl (by decide) hload₂ hc₃, ?_⟩
    exact feed_cons.mpr ⟨s', hs', rfl⟩
  · intro p hp
    simp only [Dims.enumerate, List.mem_cons, List.not_mem_nil, or_false] at hp
    rcases hp with rfl | rfl | rfl
    · exact ⟨rfl, Int.natCast_pos.mpr hpos₀, rfl⟩
    · exact ⟨rfl, Int.natCast_pos.mpr hpos₁, rfl⟩
    · exact ⟨rfl, Int.natCast_pos.mpr hpos₂, rfl⟩

omit h in
/-- A dimension that has arrived was loaded by one of the first two words. -/
theorem loaded_by {t s' : JedecDRAMSystem config} {c : Cut} (hj : j < 2) (hc : t.cuts = [{}])
    (hq : t.pimTransQueue = [])
    (hfeed : t.feed [word w d 0 d.M, word w d 1 d.K, word w d 2 d.N, 3] = .ok s')
    (hc' : s'.cuts = [c]) (hpos : 0 < c.dim j) :
    (word w d 0 d.M % 128 = j * 32 ∧ c.dim j = toInt (bits (word w d 0 d.M) 7 32)) ∨
      word w d 1 d.K % 128 = j * 32 ∧ c.dim j = toInt (bits (word w d 1 d.K) 7 32) := by
  have hthird : word w d 2 d.N % 128 = 64 := by
    have hrem : remainder w 2 d.N = 0 := by simp [remainder]
    rw [word, hrem]
    omega
  obtain ⟨c₀, hc₀, hdim⟩ | ⟨addr, hmem, hload, hval⟩ :=
    feed_dim hfeed (by omega : j < 3) (by rw [hc']; rfl : s'.cuts[0]? = some c) hpos.ne'
  · rw [hc] at hc₀
    cases hc₀
    rw [← hdim] at hpos
    simp [Cut.dim] at hpos
  · have hlow := (loads_iff (by omega)).mp hload
    rw [hq, List.nil_append] at hmem
    simp only [List.mem_cons, List.not_mem_nil, or_false] at hmem
    rcases hmem with rfl | rfl | rfl | rfl
    · exact .inl ⟨hlow, hval⟩
    · exact .inr ⟨hlow, hval⟩
    · omega
    · omega

/-- What arrives as it was written has no remainders. -/
theorem divides_of_received {s' : JedecDRAMSystem config} (hq : s.pimTransQueue = [])
    (hfeed : s.feed (genPimTrace w) = .ok s') (hrec : Received w d s') : Divides w d := by
  obtain ⟨a, ha, hmcf⟩ := h.mcf
  obtain ⟨b, hb, hucf⟩ := h.ucf
  have hM : (0, d.M) ∈ d.enumerate := by simp [Dims.enumerate]
  have hK : (1, d.K) ∈ d.enumerate := by simp [Dims.enumerate]
  obtain ⟨c, hc', -, hdims⟩ := hrec.cut
  obtain ⟨hval₀, hpos₀, -⟩ : c.dim 0 = value w 0 d.M ∧ 0 < c.dim 0 ∧ _ := hdims _ hM
  obtain ⟨hval₁, hpos₁, -⟩ : c.dim 1 = value w 1 d.K ∧ 0 < c.dim 1 ∧ _ := hdims _ hK
  obtain ⟨t, -, hc, hqueue, hiff⟩ := h.feed_cutaddr hq
  have hwords := (hiff s').mp hfeed
  have hload₀ := loaded_by (by decide) hc hqueue hwords hc' hpos₀
  have hload₁ := loaded_by (by decide) hc hqueue hwords hc' hpos₁
  have hrem : remainder w 0 d.M = 0 ∧ remainder w 1 d.K = 0 := by
    rw [hval₀] at hload₀
    rw [hval₁] at hload₁
    exact remainders_eq_zero (h.remainder_lt 0 d.M) (h.remainder_lt 1 d.K) (h.value_lt hM)
      (h.value_lt hK) (h.row_lt 0) (h.row_lt 1) hload₀ hload₁
  refine ⟨fun hdf => ?_, fun hdf => ?_⟩
  · rw [hval₀, value, if_neg (by omega), if_pos rfl] at hpos₀
    omega
  · rw [remainder, if_pos hdf, if_pos rfl, hmcf, spill_eq_zero_iff ha, remainder, if_pos hdf,
      if_neg one_ne_zero, if_pos rfl, hucf, spill_eq_zero_iff hb] at hrem
    rwa [hmcf, hucf]

end Encodable

/-- The words of a workload of one cut arrive as they were written, and the kernel is
started, exactly when nothing is spilled and half of `M` is not zero. -/
theorem words_round_trip_iff (h : Encodable w d) {s : JedecDRAMSystem config}
    (hq : s.pimTransQueue = []) :
    (∃ s', s.feed (genPimTrace w) = .ok s' ∧ Received w d s') ↔ Divides w d :=
  ⟨fun ⟨_, hfeed, hrec⟩ => h.divides_of_received hq hfeed hrec,
    fun hdiv => h.received_of_divides hdiv hq⟩

/-- A workload of one cut with a tile of 256 rows. -/
def single (mcf ucf df : Nat) (d : Dims) : Workload := ⟨1, 1, 256, mcf, ucf, df, [d]⟩

/-- Two rows of a GEMM, one of which is left after the interleaving. -/
theorem words_round_trip_gemm :
    Encodable (single 1 1 0 ⟨2, 1, 1⟩) ⟨2, 1, 1⟩ ∧
      ∃ s', ({} : JedecDRAMSystem Config.hbm2).feed (genPimTrace (single 1 1 0 ⟨2, 1, 1⟩)) =
        .ok s' ∧ Received (single 1 1 0 ⟨2, 1, 1⟩) ⟨2, 1, 1⟩ s' := by
  have henc : Encodable (single 1 1 0 ⟨2, 1, 1⟩) ⟨2, 1, 1⟩ := by
    refine ⟨⟨rfl, rfl, rfl, ⟨0, by decide, rfl⟩, ⟨0, by decide, rfl⟩, ⟨8, rfl⟩, .inl rfl⟩,
      by decide, by decide, by decide, by decide, fun j dim hj => ?_, fun j => ?_⟩
    · simp only [Dims.enumerate, List.mem_cons, Prod.mk.injEq, List.not_mem_nil, or_false] at hj
      rcases hj with ⟨rfl, rfl⟩ | ⟨rfl, rfl⟩ | ⟨rfl, rfl⟩ <;> decide +kernel
    · rw [baseRow_eq, row]
      split_ifs <;> decide
  exact ⟨henc, (words_round_trip_iff henc rfl).mpr (by decide)⟩

/-- Three rows of a GEMV over two columns of the array: the half row that is left over
turns the load type of `M` into that of `N`. -/
theorem odd_rows_change_load_type :
    Encodable (single 2 1 1 ⟨3, 1, 1⟩) ⟨3, 1, 1⟩ ∧
      ¬ ∃ s', ({} : JedecDRAMSystem Config.hbm2).feed (genPimTrace (single 2 1 1 ⟨3, 1, 1⟩)) =
        .ok s' ∧ Received (single 2 1 1 ⟨3, 1, 1⟩) ⟨3, 1, 1⟩ s' := by
  have henc : Encodable (single 2 1 1 ⟨3, 1, 1⟩) ⟨3, 1, 1⟩ := by
    refine ⟨⟨rfl, rfl, rfl, ⟨1, by decide, rfl⟩, ⟨0, by decide, rfl⟩, ⟨8, rfl⟩, .inr rfl⟩,
      by decide, by decide, by decide, by decide, fun j dim hj => ?_, fun j => ?_⟩
    · simp only [Dims.enumerate, List.mem_cons, Prod.mk.injEq, List.not_mem_nil, or_false] at hj
      rcases hj with ⟨rfl, rfl⟩ | ⟨rfl, rfl⟩ | ⟨rfl, rfl⟩ <;> decide +kernel
    · rw [baseRow_eq, row]
      split_ifs <;> decide
  refine ⟨henc, ?_⟩
  rintro ⟨s', hfeed, hrec⟩
  exact absurd (henc.divides_of_received rfl hfeed hrec) (by decide)

end GenPimTrace

end Dramsim
