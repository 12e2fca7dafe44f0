import Dramsim.Controller.Statistics
import Mathlib.Algebra.BigOperators.Group.Finset.Piecewise
import Mathlib.Algebra.Order.Group.Nat

/-!
# Histograms

A histogram is given by its bounds and the number of bins between them, as `InitHistoStat` takes
them.  Its samples are kept twice: value by value in `histo_counts_`, and bin by bin in
`histo_bins_`.  Both are brought up to date when an epoch ends, from the samples of that epoch.

* `HistoStat.binIdx_eq_iff`: the bin of a value is the one whose header names it.
* `HistoStat.bins_add`: a sample adds one to its bin and to no other.
* `HistoStat.Holds`: what the tables hold after any calls, for the epochs that have ended and for
  the current one.
-/

namespace Dramsim

namespace SimpleStats

variable {current l past : List Int} {i : Nat} {counts : HistoCount} {hist : Histogram}

open Library.Tally

/-! ## The bin of a value -/

namespace HistoStat

variable {stat : HistoStat}

/-- A value belongs to a bin, by the header that `InitHistoStat` gives the bin. -/
def Labelled (stat : HistoStat) (i : Nat) (value : Int) : Prop :=
  if i = 0 then value < stat.startVal
  else if i = stat.numBins + 1 then stat.endVal ≤ value
  else stat.startVal + (i - 1) * stat.binWidth ≤ value ∧
    value ≤ stat.startVal + i * stat.binWidth - 1

instance (stat : HistoStat) (i : Nat) (value : Int) : Decidable (stat.Labelled i value) :=
  inferInstanceAs (Decidable (if i = 0 then _ else if i = stat.numBins + 1 then _ else _ ∧ _))

/-- The bins between the bounds have the same size and fill the space between them. -/
structure Even (stat : HistoStat) : Prop where
  bounds : stat.startVal < stat.endVal
  bins : (stat.numBins : Int) ∣ stat.endVal - stat.startVal

theorem Even.binWidth (h : stat.Even) :
    stat.numBins * stat.binWidth = stat.endVal - stat.startVal := by
  unfold HistoStat.binWidth
  rw [Int.tdiv_eq_ediv_of_nonneg (by have := h.bounds; omega), Int.mul_ediv_cancel' h.bins]

theorem Even.binWidth_pos (h : stat.Even) : 0 < stat.binWidth := by
  have hwidth := h.binWidth
  have hbounds := h.bounds
  by_contra hneg
  have hle : (stat.numBins : Int) * stat.binWidth ≤ 0 :=
    Int.mul_nonpos_of_nonneg_of_nonpos (Int.natCast_nonneg _) (not_lt.mp hneg)
  omega

/-- Between the bounds the index comes from a division. -/
theorem binIdx_of_mem {value : Int} (hlow : stat.startVal ≤ value)
    (hhigh : value ≤ stat.endVal) :
    stat.binIdx value = (value - stat.startVal) / stat.binWidth + 1 := by
  rw [binIdx, if_neg (not_lt.mpr hlow), if_neg (not_lt.mpr hhigh),
    Int.tdiv_eq_ediv_of_nonneg (by omega)]

/-- The index of a value is one of the bins. -/
theorem Even.binIdx_mem (h : stat.Even) (value : Int) :
    0 ≤ stat.binIdx value ∧ stat.binIdx value ≤ stat.numBins + 1 := by
  rcases lt_or_ge value stat.startVal with hlow | hlow
  · rw [binIdx, if_pos hlow]
    omega
  rcases lt_or_ge stat.endVal value with hhigh | hhigh
  · rw [binIdx, if_neg (not_lt.mpr hlow), if_pos hhigh]
    omega
  have hpos := h.binWidth_pos
  have hwidth := h.binWidth
  rw [binIdx_of_mem hlow hhigh]
  have hdiv : (value - stat.startVal) / stat.binWidth ≤ stat.numBins := by
    apply Int.ediv_le_of_le_mul hpos
    omega
  have hnonneg : 0 ≤ (value - stat.startVal) / stat.binWidth :=
    Int.ediv_nonneg (by omega) hpos.le
  omega

theorem Even.toNat_binIdx_lt (h : stat.Even) (value : Int) :
    (stat.binIdx value).toNat < stat.numBins + 2 := by
  have hmem := h.binIdx_mem value
  omega

/-- The bin of a value is the one whose header names it. -/
theorem Even.binIdx_eq_iff (h : stat.Even) (hi : i < stat.numBins + 2) (value : Int) :
    (stat.binIdx value).toNat = i ↔ stat.Labelled i value := by
  have hpos := h.binWidth_pos
  have hwidth := h.binWidth
  have hbounds := h.bounds
  have hmem := h.binIdx_mem value
  unfold Labelled
  rcases lt_or_ge value stat.startVal with hlow | hlow
  · -- below the bounds: bin 0, and no other header reaches there
    have hidx : stat.binIdx value = 0 := by rw [binIdx, if_pos hlow]
    rw [hidx]
    split
    · simp_all
    · rename_i hne
      have hfirst : 0 ≤ ((i : Int) - 1) * stat.binWidth :=
        Int.mul_nonneg (by omega) hpos.le
      split <;> constructor <;> intro hv <;> omega
  rcases lt_or_ge stat.endVal value with hhigh | hhigh
  · -- above the bounds: the last bin
    have hidx : stat.binIdx value = stat.numBins + 1 := by
      rw [binIdx, if_neg (not_lt.mpr hlow), if_pos hhigh]
    rw [hidx]
    split
    · constructor <;> intro hv <;> omega
    · split
      · constructor <;> intro hv <;> omega
      · have hlast : (i : Int) * stat.binWidth ≤ stat.numBins * stat.binWidth :=
          Int.mul_le_mul_of_nonneg_right (by omega) hpos.le
        constructor <;> intro hv <;> omega
  -- between the bounds: the quotient is `i - 1` on the values of bin `i`
  have hquot : ∀ q : Int, (value - stat.startVal) / stat.binWidth = q ↔
      stat.startVal + q * stat.binWidth ≤ value ∧
        value ≤ stat.startVal + (q + 1) * stat.binWidth - 1 := by
    intro q
    have hsucc : (q + 1) * stat.binWidth = q * stat.binWidth + stat.binWidth := by ring
    rw [Int.ediv_eq_iff_of_pos hpos]
    omega
  have hidx := binIdx_of_mem hlow hhigh
  have hiff : (stat.binIdx value).toNat = i ↔
      (value - stat.startVal) / stat.binWidth = (i : Int) - 1 := by
    omega
  rw [hiff, hquot]
  have hnext : ((i : Int) - 1 + 1) * stat.binWidth = i * stat.binWidth := by ring
  split
  · subst i
    rw [hnext, Nat.cast_zero, Int.zero_mul]
    omega
  split
  · have hend : ((i : Int) - 1) * stat.binWidth = stat.endVal - stat.startVal := by
      rw [← hwidth]
      congr 1
      omega
    rw [hnext, hend]
    have hmore : (i : Int) * stat.binWidth = stat.endVal - stat.startVal + stat.binWidth := by
      rw [← hend]
      ring
    omega
  · rw [hnext]

/-! ## What the bins hold -/

/-- What the entries of a table put into a bin. -/
def binTotal (stat : HistoStat) (i : Nat) (entries : List (Sigma fun _ : Int => Nat)) : Nat :=
  (entries.map fun entry => if (stat.binIdx entry.1).toNat = i then entry.2 else 0).sum

theorem length_foldl_modify (stat : HistoStat) (entries : List (Sigma fun _ : Int => Nat))
    (bins : List Nat) :
    (entries.foldl (fun bins entry =>
      bins.modify (stat.binIdx entry.1).toNat fun n => (n + entry.2) % 2 ^ 64) bins).length =
      bins.length := by
  induction entries generalizing bins with
  | nil => rfl
  | cons entry entries ih => rw [List.foldl_cons, ih, List.length_modify]

theorem length_bins (stat : HistoStat) (counts : HistoCount) :
    (stat.bins counts).length = stat.numBins + 2 := by
  rw [bins, length_foldl_modify, List.length_replicate]

theorem getD_foldl_modify (stat : HistoStat) (entries : List (Sigma fun _ : Int => Nat))
    (bins : List Nat) (hi : i < bins.length) (hsmall : bins.getD i 0 < 2 ^ 64) :
    (entries.foldl (fun bins entry =>
      bins.modify (stat.binIdx entry.1).toNat fun n => (n + entry.2) % 2 ^ 64) bins).getD i 0 =
      (bins.getD i 0 + stat.binTotal i entries) % 2 ^ 64 := by
  induction entries generalizing bins with
  | nil => exact (Nat.mod_eq_of_lt hsmall).symm
  | cons entry entries ih =>
      have hstep :
          (bins.modify (stat.binIdx entry.1).toNat fun n => (n + entry.2) % 2 ^ 64).getD i 0 =
          (bins.getD i 0 + if (stat.binIdx entry.1).toNat = i then entry.2 else 0) % 2 ^ 64 := by
        simp only [List.getD_eq_getElem?_getD, List.getElem?_modify, List.getElem?_eq_getElem hi]
        rw [List.getD_eq_getElem _ _ hi] at hsmall
        split
        · simp
        · simpa using (Nat.mod_eq_of_lt hsmall).symm
      have hlt := Nat.mod_lt (bins.getD i 0 +
        if (stat.binIdx entry.1).toNat = i then entry.2 else 0) (show 0 < 2 ^ 64 by decide)
      rw [List.foldl_cons, ih _ (by rwa [List.length_modify]) (hstep ▸ hlt), hstep,
        Nat.mod_add_mod, Nat.add_assoc]
      rfl

theorem getD_bins (stat : HistoStat) (hi : i < stat.numBins + 2) (counts : HistoCount) :
    (stat.bins counts).getD i 0 = stat.binTotal i counts.entries % 2 ^ 64 := by
  rw [bins, getD_foldl_modify]
  all_goals simp [hi]

/-- What is left of a table and the number of a value make up the table. -/
theorem binTotal_kerase (stat : HistoStat) (i : Nat) (counts : HistoCount) (value : Int) :
    stat.binTotal i counts.entries =
      stat.binTotal i (counts.entries.kerase value) +
        if (stat.binIdx value).toNat = i then counts.count value else 0 := by
  unfold HistoCount.count AList.lookup
  by_cases hmem : value ∈ counts.entries.keys
  · obtain ⟨n, front, back, hfront, hentries, hrest⟩ := List.exists_of_kerase hmem
    have hlookup : counts.entries.dlookup value = some n := by
      apply (List.mem_dlookup_iff counts.nodupKeys).mpr
      rw [hentries]
      simp
    rw [hrest, hlookup, hentries]
    simp only [binTotal, List.map_append, List.map_cons, List.sum_append, List.sum_cons,
      Option.getD_some]
    omega
  · rw [List.kerase_of_notMem_keys hmem, List.dlookup_eq_none.mpr hmem]
    simp

/-- A sample adds to its bin and to no other. -/
theorem bins_add (stat : HistoStat) (hi : i < stat.numBins + 2) (counts : HistoCount) (value : Int)
    (n : Nat) :
    (stat.bins (counts.add value n)).getD i 0 =
      ((stat.bins counts).getD i 0 + if (stat.binIdx value).toNat = i then n else 0) % 2 ^ 64 := by
  rw [getD_bins stat hi, getD_bins stat hi, binTotal_kerase stat i counts value, HistoCount.add,
    AList.entries_insert]
  simp only [binTotal, List.map_cons, List.sum_cons]
  split <;> omega

end HistoStat

/-! ## The life of a histogram -/

/-- The calls that change one histogram. -/
inductive HistoCall where
  | addValue (value : Int)
  | printEpochStats
deriving DecidableEq, Repr

/-- The values that some calls have added. -/
def samples (calls : List HistoCall) : List Int :=
  calls.filterMap fun
    | .addValue value => some value
    | .printEpochStats => none

theorem samples_append (calls calls' : List HistoCall) :
    samples (calls ++ calls') = samples calls ++ samples calls' :=
  List.filterMap_append

namespace HistoStat

variable {stat : HistoStat}

/-- One call. -/
def perform (stat : HistoStat) (hist : Histogram) : HistoCall → Histogram
  | .addValue value => hist.addValue value
  | .printEpochStats => stat.endEpoch hist

/-- The histogram after some calls. -/
def run (stat : HistoStat) (calls : List HistoCall) : Histogram :=
  calls.foldl stat.perform stat.init

/-- A table of numbers has the samples and nothing else. -/
structure Counted (samples : List Int) (counts : HistoCount) : Prop where
  mem : ∀ value, value ∈ counts ↔ value ∈ samples
  count : ∀ value, counts.count value = samples.count value % 2 ^ 64

/-- The bins have the samples whose index they are. -/
structure Binned (stat : HistoStat) (samples : List Int) (bins : List Nat) : Prop where
  length : bins.length = stat.numBins + 2
  getD : ∀ i < stat.numBins + 2, bins.getD i 0 =
    samples.countP (fun value => (stat.binIdx value).toNat = i) % 2 ^ 64

theorem Counted.nil : Counted [] ∅ := ⟨by simp, by simp [HistoCount.count]⟩

theorem Counted.add (h : Counted l counts) (value : Int) :
    Counted (l ++ [value]) (counts.add value 1) where
  mem := by
    intro v
    rw [HistoCount.add, AList.mem_insert, h.mem]
    simp [or_comm]
  count := by
    intro v
    rw [HistoCount.count_add, List.count_append, List.count_singleton]
    split
    · subst v
      simp [h.count]
    · rename_i hne
      simp [h.count, Ne.symm hne]

theorem mem_foldl_add (value : Int) (entries : List (Sigma fun _ : Int => Nat))
    (counts : HistoCount) :
    value ∈ entries.foldl (fun counts entry => counts.add entry.1 entry.2) counts ↔
      value ∈ counts ∨ value ∈ entries.keys := by
  induction entries generalizing counts with
  | nil => simp
  | cons entry entries ih =>
      rw [List.foldl_cons, ih, HistoCount.add, AList.mem_insert, List.keys_cons, List.mem_cons]
      tauto

theorem Counted.addAll {l' : List Int} {counts' : HistoCount} (h : Counted l counts)
    (h' : Counted l' counts') : Counted (l ++ l') (counts.addAll counts') where
  mem := by
    intro value
    rw [HistoCount.addAll, mem_foldl_add, List.mem_append, h.mem, ← h'.mem]
    rfl
  count := by
    intro value
    have hsmall : counts.count value < 2 ^ 64 := by
      rw [h.count]
      exact Nat.mod_lt _ (by decide)
    rw [HistoCount.count_addAll hsmall, h.count, h'.count, List.count_append, ← Nat.add_mod]

theorem Binned.nil (stat : HistoStat) : stat.Binned [] (List.replicate (stat.numBins + 2) 0) :=
  ⟨List.length_replicate, by simp⟩

theorem Binned.add (h : stat.Binned l (stat.bins counts)) (value : Int) :
    stat.Binned (l ++ [value]) (stat.bins (counts.add value 1)) where
  length := stat.length_bins _
  getD := by
    intro i hi
    rw [bins_add stat hi, h.getD i hi, List.countP_append, List.countP_singleton, Nat.mod_add_mod]
    simp

theorem getD_zipWith_add {l l' : List Nat} (h : l.length = l'.length) (i : Nat) :
    (List.zipWith (fun n m => (n + m) % 2 ^ 64) l l').getD i 0 =
      (l.getD i 0 + l'.getD i 0) % 2 ^ 64 := by
  rcases lt_or_ge i l.length with hi | hi
  · have hi' : i < l'.length := h ▸ hi
    simp [List.getD_eq_getElem?_getD, hi, hi']
  · have hi' : l'.length ≤ i := h ▸ hi
    have hmin : (List.zipWith (fun n m => (n + m) % 2 ^ 64) l l').length ≤ i := by
      rw [List.length_zipWith]
      exact (Nat.min_le_left _ _).trans hi
    rw [List.getD_eq_default _ _ hi, List.getD_eq_default _ _ hi', List.getD_eq_default _ _ hmin]
    rfl

theorem Binned.merge {l' : List Int} {bins bins' : List Nat} (h : stat.Binned l bins)
    (h' : stat.Binned l' bins') :
    stat.Binned (l ++ l') (List.zipWith (fun n m => (n + m) % 2 ^ 64) bins bins') where
  length := by rw [List.length_zipWith, h.length, h'.length, Nat.min_self]
  getD := by
    intro i hi
    rw [getD_zipWith_add (h.length.trans h'.length.symm), h.getD i hi, h'.getD i hi,
      List.countP_append, ← Nat.add_mod]

/-- The tables hold the samples of the epochs that have ended, and those of the current one. -/
structure Holds (stat : HistoStat) (past current : List Int) (hist : Histogram) : Prop where
  counts : Counted past hist.counts
  bins : stat.Binned past hist.bins
  epochCounts : Counted current hist.epochCounts
  epochBins : stat.Binned current (stat.bins hist.epochCounts)

theorem Holds.init (stat : HistoStat) : stat.Holds [] [] stat.init :=
  ⟨.nil, .nil stat, .nil, .nil stat⟩

theorem Holds.addValue (h : stat.Holds past current hist) (value : Int) :
    stat.Holds past (current ++ [value]) (hist.addValue value) :=
  ⟨h.counts, h.bins, h.epochCounts.add value, h.epochBins.add value⟩

/-- An update brings the samples of the current epoch into the totals. -/
theorem Holds.update (h : stat.Holds past current hist) :
    Counted (past ++ current) (stat.update hist).counts ∧
      stat.Binned (past ++ current) (stat.update hist).bins :=
  ⟨h.counts.addAll h.epochCounts, h.bins.merge h.epochBins⟩

theorem Holds.endEpoch (h : stat.Holds past current hist) :
    stat.Holds (past ++ current) [] (stat.endEpoch hist) :=
  ⟨h.update.1, h.update.2, .nil, .nil stat⟩

/-- After any calls the tables hold all samples, wherever the epochs ended. -/
theorem holds_run (stat : HistoStat) (calls : List HistoCall) :
    ∃ past current, past ++ current = samples calls ∧ stat.Holds past current (stat.run calls) := by
  induction calls using List.reverseRecOn with
  | nil => exact ⟨[], [], rfl, .init stat⟩
  | append_singleton calls call ih =>
      obtain ⟨past, current, hall, h⟩ := ih
      rw [samples_append, run, List.foldl_append, ← hall]
      cases call with
      | addValue value => exact ⟨past, current ++ [value], by simp [samples], h.addValue value⟩
      | printEpochStats => exact ⟨past ++ current, [], by simp [samples], h.endEpoch⟩

/-- The numbers of the samples of each index add up to all samples. -/
theorem sum_countP (idx : Int → Nat) {n : Nat} (l : List Int) (h : ∀ value, idx value < n) :
    ((List.range n).map fun i => l.countP fun value => idx value = i).sum = l.length := by
  induction l with
  | nil => simp
  | cons value l ih =>
      have hone : ((List.range n).map fun i => if idx value = i then 1 else 0).sum = 1 := by
        change ∑ i ∈ Finset.range n, (if idx value = i then 1 else 0) = 1
        simp [h value]
      simp only [List.countP_cons, decide_eq_true_eq, List.sum_map_add]
      rw [ih, hone, List.length_cons]

theorem sum_map_mod (f : Nat → Nat) (l : List Nat) :
    (l.map fun i => f i % 2 ^ 64).sum % 2 ^ 64 = (l.map f).sum % 2 ^ 64 := by
  induction l with
  | nil => rfl
  | cons i l ih =>
      rw [List.map_cons, List.map_cons, List.sum_cons, List.sum_cons, Nat.add_mod, ih]
      simp

/-- The bins hold the samples that their headers name. -/
theorem Binned.labelled {bins : List Nat} (h : stat.Binned l bins) (heven : stat.Even) :
    bins = (List.range (stat.numBins + 2)).map fun i =>
      (l.countP fun value => stat.Labelled i value) % 2 ^ 64 := by
  apply List.ext_getElem
  · rw [h.length, List.length_map, List.length_range]
  · intro i hi hi'
    have hlt : i < stat.numBins + 2 := h.length ▸ hi
    have hlabel (value : Int) : decide ((stat.binIdx value).toNat = i) =
        decide (stat.Labelled i value) :=
      decide_eq_decide.mpr (heven.binIdx_eq_iff hlt value)
    have hbin := h.getD i hlt
    rw [List.getD_eq_getElem _ _ hi, funext hlabel] at hbin
    rw [hbin, List.getElem_map, List.getElem_range]

theorem Even.sum_labelled (heven : stat.Even) (l : List Int) :
    ((List.range (stat.numBins + 2)).map fun i => l.countP fun value => stat.Labelled i value).sum =
      l.length := by
  rw [← sum_countP (fun value => (stat.binIdx value).toNat) l heven.toNat_binIdx_lt]
  congr 1
  apply List.map_congr_left
  intro i hi
  congr 1
  funext value
  exact decide_eq_decide.mpr (heven.binIdx_eq_iff (List.mem_range.mp hi) value).symm

/-- A histogram whose bins fill the space between its bounds counts each sample in the bin whose
header names it, wherever the epochs end.  The numbers are those of `uint64_t`, which are exact as
long as there are fewer than `2 ^ 64` samples. -/
theorem histogram_exact (stat : HistoStat) (hbounds : stat.startVal < stat.endVal)
    (hbins : (stat.numBins : Int) ∣ stat.endVal - stat.startVal) (calls : List HistoCall) :
    let hist := stat.update (stat.run calls)
    let labelled (i : Nat) : Nat := (samples calls).countP fun value => stat.Labelled i value
    (∀ value, 0 ≤ stat.binIdx value ∧ stat.binIdx value < hist.bins.length) ∧
    hist.bins = (List.range (stat.numBins + 2)).map (fun i => labelled i % 2 ^ 64) ∧
    hist.bins.sum % 2 ^ 64 = (samples calls).length % 2 ^ 64 ∧
    (∀ value, value ∈ hist.counts ↔ value ∈ samples calls) ∧
    (∀ value, hist.counts.count value = (samples calls).count value % 2 ^ 64) ∧
    ((samples calls).length < 2 ^ 64 →
      hist.bins = (List.range (stat.numBins + 2)).map labelled ∧
      hist.bins.sum = (samples calls).length ∧
      ∀ value, hist.counts.count value = (samples calls).count value) := by
  intro hist labelled
  have heven : stat.Even := ⟨hbounds, hbins⟩
  obtain ⟨past, current, hall, h⟩ := stat.holds_run calls
  have hupdate := h.update
  rw [hall] at hupdate
  obtain ⟨hcounts, hbinned⟩ := hupdate
  have hlabelled : hist.bins = (List.range (stat.numBins + 2)).map (fun i => labelled i % 2 ^ 64) :=
    hbinned.labelled heven
  have hsum : ((List.range (stat.numBins + 2)).map labelled).sum = (samples calls).length :=
    heven.sum_labelled _
  refine ⟨?_, hlabelled, ?_, hcounts.mem, hcounts.count, ?_⟩
  · intro value
    have hmem := heven.binIdx_mem value
    have hlength : hist.bins.length = stat.numBins + 2 := hbinned.length
    omega
  · rw [hlabelled, sum_map_mod, hsum]
  · intro hsmall
    have hexact : hist.bins = (List.range (stat.numBins + 2)).map labelled := by
      rw [hlabelled]
      apply List.map_congr_left
      intro i _
      exact Nat.mod_eq_of_lt (List.countP_le_length.trans_lt hsmall)
    refine ⟨hexact, by rw [hexact, hsum], ?_⟩
    intro value
    rw [hcounts.count, Nat.mod_eq_of_lt (List.count_le_length.trans_lt hsmall)]

/-- The histogram of the read latencies with a sample on each side of its bounds and on them. -/
theorem histogram_exact_readLatency :
    let stat := Histo.stat .readLatency
    let hist := stat.update (stat.run
      [.addValue (-1), .addValue 0, .printEpochStats, .addValue 199, .addValue 200, .addValue 201])
    stat.startVal < stat.endVal ∧ (stat.numBins : Int) ∣ stat.endVal - stat.startVal ∧
    hist.bins = [1, 1, 0, 0, 0, 0, 0, 0, 0, 0, 1, 2] ∧ hist.bins.sum = 5 := by
  have hexact := histogram_exact (Histo.stat .readLatency) (by decide) (by decide)
    [.addValue (-1), .addValue 0, .printEpochStats, .addValue 199, .addValue 200, .addValue 201]
  have hcount := hexact.2.2.2.2.2 (by decide)
  refine ⟨by decide, by decide, hcount.1.trans (by decide), hcount.2.1⟩

end HistoStat

end SimpleStats

end Dramsim
