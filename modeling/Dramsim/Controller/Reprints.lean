import Dramsim.Controller.Histograms
import Mathlib.Data.List.GetD

/-!
# Final reports in the middle of a run

`PrintFinalStats` and `Reset` may be called at any time, and the run goes on after them.

`UpdateFinalStats` adds the part of the epoch to the totals, as `UpdateEpochStats` does, but does
not start it again from zero.  What the epoch has counted is added once more by the next report
(`final_print_once_iff`).

`Reset` starts everything from zero but `histo_bins_`.  The bins of the epochs that have ended
stay in all later reports (`reset_forgets_iff`).
-/

namespace Dramsim

/-- The numbers of a report that are counted. -/
inductive SimpleStats.Figure (config : Config) where
  | counter (c : SimpleStats.Counter)
  | vecCounter (c : SimpleStats.VecCounter) (i : Fin config.ranks)
  | bin (h : SimpleStats.Histo) (i : Nat)
  | count (h : SimpleStats.Histo) (value : Int)
deriving DecidableEq, Repr

/-- The figures of a final report. -/
def Report.figure {config : Config} (r : Report config) : SimpleStats.Figure config → Nat
  | .counter c => r.counters c
  | .vecCounter c i => r.vecCounters (c, i)
  | .bin h i => (r.histoBins h).getD i 0
  | .count h value => r.histoCounts.elim 0 fun counts => (counts h).count value

namespace SimpleStats

open Library.Tally (bump merge)

variable {config : Config} {p : PowerParams} {s : SimpleStats config}

/-! ## The two parts of a figure -/

/-- The totals. -/
def totals (s : SimpleStats config) : Figure config → Nat
  | .counter c => s.counters c
  | .vecCounter c i => s.vecCounters (c, i)
  | .bin h i => (s.histoBins h).getD i 0
  | .count h value => (s.histoCounts h).count value

/-- What the current epoch has counted. -/
def epoch (s : SimpleStats config) : Figure config → Nat
  | .counter c => s.epochCounters c
  | .vecCounter c i => s.epochVecCounters (c, i)
  | .bin h i => (h.stat.bins (s.epochHistoCounts h)).getD i 0
  | .count h value => (s.epochHistoCounts h).count value

/-- What a call adds to a figure. -/
def Input.amount (f : Figure config) : Input config → Nat
  | .event (.increment c) => if f = .counter c then 1 else 0
  | .event (.incrementVec c i) => if f = .vecCounter c i then 1 else 0
  | .incrementVecBy c i num => if f = .vecCounter c i then toU64 num else 0
  | .event (.addValue h value) =>
      if f = .count h value ∨ f = .bin h (h.stat.binIdx value).toNat then 1 else 0
  | .event .printEpochStats => 0

/-- All figures are numbers of 64 bits, and all bins are there. -/
structure WellFormed (s : SimpleStats config) : Prop where
  totals_lt : ∀ f, s.totals f < 2 ^ 64
  epoch_lt : ∀ f, s.epoch f < 2 ^ 64
  length : ∀ h, (s.histoBins h).length = h.stat.numBins + 2

theorem Histo.even (h : Histo) : h.stat.Even := by
  cases h <;> exact ⟨by decide, by decide⟩

theorem getD_bins_of_le {h : Histo} {i : Nat} (hi : h.stat.numBins + 2 ≤ i) (counts : HistoCount) :
    (h.stat.bins counts).getD i 0 = 0 :=
  List.getD_eq_default _ _ (by rwa [HistoStat.length_bins])

theorem getD_replicate_zero (n i : Nat) : (List.replicate n 0).getD i 0 = 0 := by
  rw [List.getD_eq_getElem?_getD, List.getElem?_getD_replicate_default_eq]

/-- At the end of an epoch and in a final report the current part is added to the totals. -/
theorem WellFormed.totals_update (hs : s.WellFormed) :
    s.updateCounters.updateHistoBins.totals = merge (2 ^ 64) s.totals s.epoch := by
  funext f
  cases f with
  | counter c => rfl
  | vecCounter c i => rfl
  | bin h i =>
      exact HistoStat.getD_zipWith_add ((hs.length h).trans (HistoStat.length_bins _ _).symm) i
  | count h value => exact HistoCount.count_addAll (hs.totals_lt (.count h value)) _

theorem totals_updateEpochStats (p : PowerParams) (s : SimpleStats config) :
    (s.updateEpochStats p).2.totals = s.updateCounters.updateHistoBins.totals := by
  funext f
  cases f <;> rfl

theorem totals_updateFinalStats (p : PowerParams) (s : SimpleStats config) :
    (s.updateFinalStats p).2.totals = s.updateCounters.updateHistoBins.totals := by
  funext f
  cases f <;> rfl

theorem figure_printFinalStats (p : PowerParams) (s : SimpleStats config) :
    (s.printFinalStats p).figure = s.updateCounters.updateHistoBins.totals := by
  funext f
  cases f with
  | counter c =>
      exact congrFun (Function.update_eq_self Counter.epochNum s.updateCounters.counters) c
  | vecCounter c i => rfl
  | bin h i => rfl
  | count h value => rfl

/-- The next epoch starts from zero. -/
theorem epoch_updateEpochStats (p : PowerParams) (s : SimpleStats config) (f : Figure config) :
    (s.updateEpochStats p).2.epoch f = 0 := by
  cases f with
  | counter c => rfl
  | vecCounter c i => rfl
  | bin h i => exact getD_replicate_zero (h.stat.numBins + 2) i
  | count h value => rfl

/-- After a final report the epoch goes on. -/
theorem epoch_updateFinalStats (p : PowerParams) (s : SimpleStats config) :
    (s.updateFinalStats p).2.epoch = s.epoch := by
  funext f
  cases f <;> rfl

/-! ## One call -/

/-- A call that ends no epoch leaves the totals as they are. -/
theorem totals_record {i : Input config} (hi : i ≠ .event .printEpochStats) :
    (s.record p i).totals = s.totals := by
  funext f
  cases i with
  | incrementVecBy c pos num => cases f <;> rfl
  | event e =>
      cases e with
      | increment c => cases f <;> rfl
      | incrementVec c pos => cases f <;> rfl
      | addValue h value => cases f <;> rfl
      | printEpochStats => exact absurd rfl hi

section

variable (hs : s.WellFormed)

include hs

theorem WellFormed.epoch_same (f : Figure config) : s.epoch f = (s.epoch f + 0) % 2 ^ 64 :=
  (Nat.mod_eq_of_lt (hs.epoch_lt f)).symm

theorem WellFormed.epoch_increment (c : Counter) (f : Figure config) :
    (s.increment c).epoch f = (s.epoch f + if f = .counter c then 1 else 0) % 2 ^ 64 := by
  cases f with
  | counter c' =>
      simp only [increment, epoch, bump, Function.update_apply, Figure.counter.injEq]
      split
      · subst c'
        rfl
      · exact hs.epoch_same (.counter c')
  | vecCounter c' i => exact hs.epoch_same (.vecCounter c' i)
  | bin h i => exact hs.epoch_same (.bin h i)
  | count h value => exact hs.epoch_same (.count h value)

theorem WellFormed.epoch_incrementVecBy (c : VecCounter) (pos : Fin config.ranks) (num : Int)
    (f : Figure config) :
    (s.incrementVecBy c pos num).epoch f =
      (s.epoch f + if f = .vecCounter c pos then toU64 num else 0) % 2 ^ 64 := by
  cases f with
  | vecCounter c' i =>
      simp only [incrementVecBy, epoch, Function.update_apply, Figure.vecCounter.injEq,
        Prod.mk.injEq]
      split
      · rename_i heq
        obtain ⟨rfl, rfl⟩ := heq
        rfl
      · exact hs.epoch_same (.vecCounter c' i)
  | counter c' => exact hs.epoch_same (.counter c')
  | bin h i => exact hs.epoch_same (.bin h i)
  | count h value => exact hs.epoch_same (.count h value)

/-- A sample is counted by its value and in its bin. -/
theorem WellFormed.epoch_addValue (h : Histo) (value : Int) (f : Figure config) :
    (s.addValue h value).epoch f = (s.epoch f +
      if f = .count h value ∨ f = .bin h (h.stat.binIdx value).toNat then 1 else 0) % 2 ^ 64 := by
  cases f with
  | counter c => exact hs.epoch_same (.counter c)
  | vecCounter c i => exact hs.epoch_same (.vecCounter c i)
  | count h' value' =>
      by_cases hh : h' = h
      · subst hh
        simp only [addValue, epoch, Function.update_self, HistoCount.count_add,
          Figure.count.injEq, true_and, reduceCtorEq, or_false]
        split
        · subst value'
          rfl
        · exact hs.epoch_same (.count h' value')
      · simp only [addValue, epoch, Function.update_of_ne hh, Figure.count.injEq, hh, false_and,
          reduceCtorEq, or_false, if_false]
        exact hs.epoch_same (.count h' value')
  | bin h' i =>
      by_cases hh : h' = h
      · subst hh
        simp only [addValue, epoch, Function.update_self, Figure.bin.injEq, true_and, reduceCtorEq,
          false_or]
        rcases lt_or_ge i (h'.stat.numBins + 2) with hi | hi
        · rw [HistoStat.bins_add _ hi]
          simp only [eq_comm]
        · have hne : i ≠ (h'.stat.binIdx value).toNat :=
            ((h'.even.toNat_binIdx_lt value).trans_le hi).ne'
          rw [getD_bins_of_le hi, getD_bins_of_le hi, if_neg hne]
          rfl
      · simp only [addValue, epoch, Function.update_of_ne hh, Figure.bin.injEq, hh, false_and,
          reduceCtorEq, or_false, if_false]
        exact hs.epoch_same (.bin h' i)

/-- A call that ends no epoch counts in the current one. -/
theorem WellFormed.epoch_record {i : Input config} (hi : i ≠ .event .printEpochStats)
    (f : Figure config) : (s.record p i).epoch f = (s.epoch f + i.amount f) % 2 ^ 64 := by
  cases i with
  | incrementVecBy c pos num => exact hs.epoch_incrementVecBy c pos num f
  | event e =>
      cases e with
      | increment c => exact hs.epoch_increment c f
      -- adds one, as `IncrementVecBy` does with this number
      | incrementVec c pos => exact hs.epoch_incrementVecBy c pos 1 f
      | addValue h value => exact hs.epoch_addValue h value f
      | printEpochStats => exact absurd rfl hi

/-- Whether an epoch ends or not, the two parts together grow by what a call adds. -/
theorem WellFormed.record (i : Input config) (f : Figure config) :
    merge (2 ^ 64) (s.record p i).totals (s.record p i).epoch f =
      (merge (2 ^ 64) s.totals s.epoch f + i.amount f) % 2 ^ 64 := by
  by_cases hi : i = .event .printEpochStats
  · subst hi
    change ((s.updateEpochStats p).2.totals f + (s.updateEpochStats p).2.epoch f) % 2 ^ 64 = _
    rw [epoch_updateEpochStats, totals_updateEpochStats, hs.totals_update]
    rfl
  · simp only [merge, totals_record hi, hs.epoch_record hi]
    omega

end

/-! ## Whole runs -/

theorem WellFormed.init : ({} : SimpleStats config).WellFormed where
  totals_lt := by
    intro f
    cases f with
    | bin h i => exact (getD_replicate_zero _ i).trans_lt (Nat.two_pow_pos 64)
    | counter c | vecCounter c i | count h value => exact Nat.two_pow_pos 64
  epoch_lt := by
    intro f
    cases f with
    | bin h i => exact (getD_replicate_zero _ i).trans_lt (Nat.two_pow_pos 64)
    | counter c | vecCounter c i | count h value => exact Nat.two_pow_pos 64
  length := fun _ => List.length_replicate

theorem WellFormed.totals_update_lt (hs : s.WellFormed) (f : Figure config) :
    s.updateCounters.updateHistoBins.totals f < 2 ^ 64 := by
  rw [hs.totals_update]
  exact Nat.mod_lt _ (Nat.two_pow_pos 64)

theorem WellFormed.length_update (hs : s.WellFormed) (h : Histo) :
    (s.updateCounters.updateHistoBins.histoBins h).length = h.stat.numBins + 2 := by
  change (List.zipWith _ (s.histoBins h) (h.stat.bins (s.epochHistoCounts h))).length = _
  rw [List.length_zipWith, hs.length, HistoStat.length_bins, Nat.min_self]

theorem WellFormed.record_wellFormed (hs : s.WellFormed) (i : Input config) :
    (s.record p i).WellFormed := by
  by_cases hi : i = .event .printEpochStats
  · subst hi
    refine ⟨fun f => ?_, fun f => ?_, hs.length_update⟩
    · exact (congrFun (totals_updateEpochStats p s) f).trans_lt (hs.totals_update_lt f)
    · exact (epoch_updateEpochStats p s f).trans_lt (Nat.two_pow_pos 64)
  · refine ⟨fun f => ?_, fun f => ?_, ?_⟩
    · rw [totals_record hi]
      exact hs.totals_lt f
    · rw [hs.epoch_record hi]
      exact Nat.mod_lt _ (Nat.two_pow_pos 64)
    · cases i with
      | incrementVecBy c pos num => exact hs.length
      | event e =>
          cases e with
          | increment c => exact hs.length
          | incrementVec c pos => exact hs.length
          | addValue h value => exact hs.length
          | printEpochStats => exact absurd rfl hi

/-- Every call keeps the figures in their bounds. -/
theorem WellFormed.call (hs : s.WellFormed) (c : Call config) : (s.call p c).WellFormed := by
  cases c with
  | input i => exact hs.record_wellFormed i
  | printFinalStats =>
      refine ⟨fun f => ?_, fun f => ?_, hs.length_update⟩
      · exact (congrFun (totals_updateFinalStats p s) f).trans_lt (hs.totals_update_lt f)
      · exact (congrFun (epoch_updateFinalStats p s) f).trans_lt (hs.epoch_lt f)
  | reset =>
      refine ⟨fun f => ?_, fun f => ?_, hs.length⟩
      · cases f with
        | bin h i => exact hs.totals_lt (.bin h i)
        | counter c | vecCounter c i | count h value => exact Nat.two_pow_pos 64
      · cases f with
        | bin h i => exact (init : ({} : SimpleStats config).WellFormed).epoch_lt (.bin h i)
        | counter c | vecCounter c i | count h value => exact Nat.two_pow_pos 64

theorem wellFormed_calls (p : PowerParams) (calls : List (Call config)) :
    (calls.foldl (call p) {}).WellFormed := by
  induction calls using List.reverseRecOn with
  | nil => exact .init
  | append_singleton calls c ih =>
      rw [List.foldl_append]
      exact ih.call c

theorem WellFormed.records_wellFormed (hs : s.WellFormed) (inputs : List (Input config)) :
    (inputs.foldl (SimpleStats.record p) s).WellFormed := by
  induction inputs generalizing s with
  | nil => exact hs
  | cons i inputs ih => exact ih (hs.record_wellFormed i)

/-- The two parts together grow by what the calls add. -/
theorem WellFormed.records (hs : s.WellFormed) (inputs : List (Input config)) (f : Figure config) :
    merge (2 ^ 64) (inputs.foldl (SimpleStats.record p) s).totals
      (inputs.foldl (SimpleStats.record p) s).epoch f =
      (merge (2 ^ 64) s.totals s.epoch f + (inputs.map (Input.amount f)).sum) % 2 ^ 64 := by
  induction inputs generalizing s with
  | nil => exact (Nat.mod_eq_of_lt (Nat.mod_lt _ (Nat.two_pow_pos 64))).symm
  | cons i inputs ih =>
      rw [List.foldl_cons, ih (hs.record_wellFormed i), hs.record, List.map_cons, List.sum_cons,
        Nat.mod_add_mod, Nat.add_assoc]

/-! ## The next final report -/

/-- The next final report, after any calls: what the first one had, the new events, and what the
epoch had counted at the first one. -/
theorem WellFormed.next_final (hs : s.WellFormed) (inputs : List (Input config))
    (f : Figure config) :
    ((inputs.foldl (SimpleStats.record p) (s.updateFinalStats p).2).printFinalStats p).figure f =
      ((s.updateFinalStats p).1.figure f + s.epoch f + (inputs.map (Input.amount f)).sum) %
        2 ^ 64 := by
  have hs' : (s.updateFinalStats p).2.WellFormed := hs.call .printFinalStats
  have hend := hs'.records_wellFormed (p := p) inputs
  have hsum := hs'.records (p := p) inputs f
  have hfirst : (s.updateFinalStats p).1.figure = s.updateCounters.updateHistoBins.totals :=
    figure_printFinalStats p s
  rw [figure_printFinalStats, hend.totals_update, hsum, hfirst, merge, totals_updateFinalStats,
    epoch_updateFinalStats, Nat.mod_add_mod]

/-- A second final report repeats the first one, and later events are counted once, if and only if
the current epoch has counted nothing when the first report is made. -/
theorem final_print_once_iff (p : PowerParams) (calls : List (Call config)) :
    let s := calls.foldl (call p) {}
    let first := s.updateFinalStats p
    ((first.2.printFinalStats p).figure = first.1.figure ∧
      ∀ (inputs : List (Input config)) (f : Figure config),
        ((inputs.foldl (record p) first.2).printFinalStats p).figure f =
          (first.1.figure f + (inputs.map (Input.amount f)).sum) % 2 ^ 64) ↔
    ∀ f, s.epoch f = 0 := by
  intro s first
  have hs : s.WellFormed := wellFormed_calls p calls
  have hfirst (f : Figure config) : first.1.figure f < 2 ^ 64 :=
    (congrFun (figure_printFinalStats p s) f).trans_lt (hs.totals_update_lt f)
  have hnext (inputs : List (Input config)) (f : Figure config) :
      ((inputs.foldl (record p) first.2).printFinalStats p).figure f =
        (first.1.figure f + s.epoch f + (inputs.map (Input.amount f)).sum) % 2 ^ 64 :=
    hs.next_final inputs f
  have hsecond (f : Figure config) : (first.2.printFinalStats p).figure f =
      (first.1.figure f + s.epoch f) % 2 ^ 64 := hnext [] f
  constructor
  · intro h f
    have hsame := congrFun h.1 f
    have hlt := hfirst f
    have hepoch := hs.epoch_lt f
    rw [hsecond f] at hsame
    omega
  · intro hzero
    refine ⟨?_, ?_⟩
    · funext f
      rw [hsecond f, hzero f, Nat.add_zero, Nat.mod_eq_of_lt (hfirst f)]
    · intro inputs f
      rw [hnext inputs f, hzero f, Nat.add_zero]

/-- One read, and the final statistics printed twice: the second report has two. -/
theorem final_print_twice :
    let p := Config.defaults.initPowerParams {} 8 1 64
    let s := [Call.input (.event (.increment .numReadsDone))].foldl (call p)
      ({} : SimpleStats .defaults)
    let first := s.updateFinalStats p
    first.1.figure (.counter .numReadsDone) = 1 ∧
    (first.2.printFinalStats p).figure (.counter .numReadsDone) = 2 := by
  exact ⟨by decide +kernel, by decide +kernel⟩

/-! ## Reset -/

theorem zipWith_add_assoc (l l' l'' : List Nat) :
    List.zipWith (fun n m => (n + m) % 2 ^ 64)
      (List.zipWith (fun n m => (n + m) % 2 ^ 64) l l') l'' =
    List.zipWith (fun n m => (n + m) % 2 ^ 64) l
      (List.zipWith (fun n m => (n + m) % 2 ^ 64) l' l'') := by
  induction l generalizing l' l'' with
  | nil => simp
  | cons n l ih =>
      cases l' with
      | nil => simp
      | cons n' l' =>
          cases l'' with
          | nil => simp
          | cons n'' l'' =>
              simp only [List.zipWith_cons_cons, ih]
              congr 1
              omega

theorem ext_getD {l l' : List Nat} (hlength : l.length = l'.length)
    (h : ∀ i, l.getD i 0 = l'.getD i 0) : l = l' := by
  apply List.ext_getElem hlength
  intro i hi hi'
  have hget := h i
  rwa [List.getD_eq_getElem _ _ hi, List.getD_eq_getElem _ _ hi'] at hget

section

variable {l l' : List Nat} (hlength : l.length = l'.length)

include hlength

theorem zipWith_add_eq_left (hl : ∀ i, l.getD i 0 < 2 ^ 64) (hl' : ∀ i, l'.getD i 0 = 0) :
    List.zipWith (fun n m => (n + m) % 2 ^ 64) l l' = l := by
  apply ext_getD
  · rw [List.length_zipWith, ← hlength, Nat.min_self]
  · intro i
    rw [HistoStat.getD_zipWith_add hlength, hl', Nat.add_zero, Nat.mod_eq_of_lt (hl i)]

/-- Adding numbers of 64 bits changes nothing only if they are all zero. -/
theorem zipWith_add_eq_right (hl : ∀ i, l.getD i 0 < 2 ^ 64) (hl' : ∀ i, l'.getD i 0 < 2 ^ 64) :
    List.zipWith (fun n m => (n + m) % 2 ^ 64) l l' = l' ↔ ∀ i, l.getD i 0 = 0 := by
  constructor
  · intro heq i
    have hget := congrArg (fun l : List Nat => l.getD i 0) heq
    have hi := hl i
    have hi' := hl' i
    rw [HistoStat.getD_zipWith_add hlength] at hget
    omega
  · intro hzero
    apply ext_getD
    · rw [List.length_zipWith, ← hlength, Nat.min_self]
    · intro i
      rw [HistoStat.getD_zipWith_add hlength, hzero, Nat.zero_add, Nat.mod_eq_of_lt (hl' i)]

end

/-- The statistics with further numbers in the bins. -/
def withBins (extra : Histo → List Nat) (s : SimpleStats config) (epochBins : Histo → List Nat) :
    SimpleStats config :=
  { s with
    histoBins := fun h => List.zipWith (fun n m => (n + m) % 2 ^ 64) (extra h) (s.histoBins h)
    epochHistoBins := epochBins }

/-- No call but a report looks at the bins. -/
theorem record_withBins (p : PowerParams) (extra : Histo → List Nat) (s : SimpleStats config)
    (epochBins : Histo → List Nat) (i : Input config) : ∃ epochBins',
      (s.withBins extra epochBins).record p i = (s.record p i).withBins extra epochBins' := by
  cases i with
  | incrementVecBy c pos num => exact ⟨_, rfl⟩
  | event e =>
      cases e with
      | increment c => exact ⟨_, rfl⟩
      | incrementVec c pos => exact ⟨_, rfl⟩
      | addValue h value => exact ⟨_, rfl⟩
      | printEpochStats =>
          refine ⟨(s.updateEpochStats p).2.epochHistoBins, ?_⟩
          simp only [withBins, record, perform, updateEpochStats, updateCounters, updateHistoBins,
            histogram, HistoStat.update, zipWith_add_assoc]

theorem records_withBins (p : PowerParams) (extra : Histo → List Nat)
    (inputs : List (Input config)) (s : SimpleStats config) (epochBins : Histo → List Nat) :
    ∃ epochBins', inputs.foldl (record p) (s.withBins extra epochBins) =
      (inputs.foldl (record p) s).withBins extra epochBins' := by
  induction inputs generalizing s epochBins with
  | nil => exact ⟨epochBins, rfl⟩
  | cons i inputs ih =>
      obtain ⟨epochBins', hi⟩ := record_withBins p extra s epochBins i
      rw [List.foldl_cons, hi]
      exact ih _ _

theorem printFinalStats_withBins (p : PowerParams) (extra : Histo → List Nat)
    (s : SimpleStats config) (epochBins : Histo → List Nat) :
    (s.withBins extra epochBins).printFinalStats p =
      { s.printFinalStats p with
        histoBins := fun h => List.zipWith (fun n m => (n + m) % 2 ^ 64) (extra h)
          ((s.printFinalStats p).histoBins h) } := by
  simp only [withBins, printFinalStats, updateFinalStats, updateCounters, updateHistoBins,
    histogram, HistoStat.update, zipWith_add_assoc, updatePrints, Bool.false_eq_true, if_false]
  rfl

/-- The bins that a `Reset` leaves are added to those of every later report. -/
theorem WellFormed.final_after_reset (hs : s.WellFormed) (inputs : List (Input config)) :
    (inputs.foldl (SimpleStats.record p) s.reset).printFinalStats p =
      { (inputs.foldl (SimpleStats.record p) {}).printFinalStats p with
        histoBins := fun h => List.zipWith (fun n m => (n + m) % 2 ^ 64) (s.histoBins h)
          (((inputs.foldl (SimpleStats.record p) {}).printFinalStats p).histoBins h) } := by
  have hbins (h : Histo) : s.histoBins h = List.zipWith (fun n m => (n + m) % 2 ^ 64)
      (s.histoBins h) (List.replicate (h.stat.numBins + 2) 0) :=
    (zipWith_add_eq_left ((hs.length h).trans List.length_replicate.symm)
      (fun i => hs.totals_lt (.bin h i)) (getD_replicate_zero _)).symm
  have hreset : s.reset = ({} : SimpleStats config).withBins s.histoBins s.epochHistoBins := by
    unfold reset withBins
    simp only [SimpleStats.mk.injEq, true_and]
    exact ⟨funext hbins, trivial⟩
  obtain ⟨epochBins, hrun⟩ := records_withBins p s.histoBins inputs {} s.epochHistoBins
  rw [hreset, hrun, printFinalStats_withBins]

/-- After a `Reset` the final report is that of new statistics if and only if no bin has counted
anything in an epoch that ended before, or in an earlier final report. -/
theorem reset_forgets_iff (p : PowerParams) (calls : List (Call config))
    (inputs : List (Input config)) :
    let s := calls.foldl (call p) {}
    (inputs.foldl (record p) s.reset).printFinalStats p =
        (inputs.foldl (record p) {}).printFinalStats p ↔
      ∀ h i, (s.histoBins h).getD i 0 = 0 := by
  intro s
  have hs : s.WellFormed := wellFormed_calls p calls
  have hfresh : (inputs.foldl (record p) ({} : SimpleStats config)).WellFormed :=
    WellFormed.init.records_wellFormed inputs
  have hbins (h : Histo) := zipWith_add_eq_right
    ((hs.length h).trans (hfresh.length_update h).symm) (fun i => hs.totals_lt (.bin h i))
    (fun i => hfresh.totals_update_lt (.bin h i))
  rw [hs.final_after_reset]
  constructor
  · intro heq h
    exact (hbins h).mp (congrFun (congrArg Report.histoBins heq) h)
  · intro hzero
    have hsame := funext fun h => (hbins h).mpr (hzero h)
    exact congrArg
      (fun histoBins => { (inputs.foldl (record p) {}).printFinalStats p with histoBins }) hsame

/-- A read latency of an epoch that ended before the `Reset` is still in the bins. -/
theorem reset_keeps_bins :
    let p := Config.defaults.initPowerParams {} 8 1 64
    let s :=
      [Call.input (.event (.addValue .readLatency 7)), .input (.event .printEpochStats)].foldl
        (call p) ({} : SimpleStats .defaults)
    (s.reset.printFinalStats p).figure (.bin .readLatency 1) = 1 ∧
    (s.reset.printFinalStats p).figure (.count .readLatency 7) = 0 ∧
    (({} : SimpleStats .defaults).printFinalStats p).figure (.bin .readLatency 1) = 0 := by
  exact ⟨by decide +kernel, by decide +kernel, by decide +kernel⟩

end SimpleStats

end Dramsim
