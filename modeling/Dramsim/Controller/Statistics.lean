import Dramsim.Model.Controller
import Dramsim.Model.SimpleStats
import Mathlib.Tactic.Ring

/-!
# Final statistics

Wherever the epochs of a run end, the totals and the counters of the current epoch together hold
all events (`counts_run`), so the final report has the number of all events of each counter, and
the energies computed from the totals belong to all commands.

`UpdateFinalStats` computes the energies of the PIM commands from the counters of the epoch.  They
are those of all commands only if none has been issued before the last epoch ended, or if a
command costs nothing (`final_stats_exact`).
-/

namespace Dramsim

namespace SimpleStats

open Library.Tally

variable {config : Config} {p : PowerParams}

/-! ## Histograms -/

namespace HistoCount

theorem count_add (counts : HistoCount) (v w : Int) (n : Nat) :
    (counts.add v n).count w = if w = v then (counts.count v + n) % 2 ^ 64 else counts.count w := by
  unfold HistoCount.count HistoCount.add
  split
  · subst w
    rw [AList.lookup_insert]
    rfl
  · rw [AList.lookup_insert_ne ‹_›]

theorem count_foldl (w : Int) : ∀ (entries : List (Sigma fun _ : Int => Nat)) (counts : HistoCount),
    entries.NodupKeys →
      (entries.foldl (fun counts entry => counts.add entry.1 entry.2) counts).count w =
      match entries.dlookup w with
      | some n => (counts.count w + n) % 2 ^ 64
      | none => counts.count w
  | [], _, _ => rfl
  | ⟨v, n⟩ :: entries, counts, hnodup => by
      obtain ⟨hfresh, hrest⟩ := List.nodupKeys_cons.mp hnodup
      rw [List.foldl_cons, count_foldl w entries _ hrest, count_add]
      by_cases hw : w = v
      · subst hw
        rw [List.dlookup_cons_eq, List.dlookup_eq_none.mpr hfresh, if_pos rfl]
      · rw [List.dlookup_cons_ne _ _ hw, if_neg hw]

theorem count_addAll {counts : HistoCount} {w : Int} (hw : counts.count w < 2 ^ 64)
    (epoch : HistoCount) :
    (counts.addAll epoch).count w = (counts.count w + epoch.count w) % 2 ^ 64 := by
  rw [addAll, count_foldl w _ _ epoch.nodupKeys, HistoCount.count.eq_1 epoch, AList.lookup]
  cases epoch.entries.dlookup w with
  | none => exact (Nat.mod_eq_of_lt hw).symm
  | some n => rfl

end HistoCount

/-- The entries of the histograms. -/
def entry (counts : Histo → HistoCount) (k : Histo × Int) : Nat := (counts k.1).count k.2

theorem entry_add (counts : Histo → HistoCount) (h : Histo) (value : Int) :
    entry (Function.update counts h ((counts h).add value 1)) =
      bump (2 ^ 64) (entry counts) (h, value) := by
  funext ⟨h', value'⟩
  unfold entry bump
  by_cases hh : h' = h
  · subst hh
    simp [HistoCount.count_add, Function.update_apply]
  · simp [hh]

/-! ## What the counters hold -/

/-- The event of an entry of a vector counter. -/
def Event.ofVec (k : VecCounter × Fin config.ranks) : Event config := .incrementVec k.1 k.2

/-- The event of an entry of a histogram. -/
def Event.ofValue (k : Histo × Int) : Event config := .addValue k.1 k.2

theorem Event.increment_injective :
    Function.Injective (Event.increment : Counter → Event config) :=
  fun _ _ h => Event.increment.inj h

theorem Event.ofVec_injective :
    Function.Injective (Event.ofVec : VecCounter × Fin config.ranks → Event config) := by
  rintro ⟨c, i⟩ ⟨c', i'⟩ h
  obtain ⟨rfl, rfl⟩ := Event.incrementVec.inj h
  rfl

theorem Event.ofValue_injective :
    Function.Injective (Event.ofValue : Histo × Int → Event config) := by
  rintro ⟨h, v⟩ ⟨h', v'⟩ heq
  obtain ⟨rfl, rfl⟩ := Event.addValue.inj heq
  rfl

/-- A part of the counters holds some events. -/
structure Holds (events : List (Event config)) (counters : Counter → Nat)
    (vecCounters : VecCounter × Fin config.ranks → Nat) (histoCounts : Histo → HistoCount) :
    Prop where
  counters : counters = tally (2 ^ 64) Event.increment events
  vecCounters : vecCounters = tally (2 ^ 64) Event.ofVec events
  histoCounts : entry histoCounts = tally (2 ^ 64) Event.ofValue events

namespace Holds

variable {events events' : List (Event config)} {counters counters' : Counter → Nat}
  {vecCounters vecCounters' : VecCounter × Fin config.ranks → Nat}
  {histoCounts histoCounts' : Histo → HistoCount}

theorem nil : Holds ([] : List (Event config)) (fun _ => 0) (fun _ => 0) fun _ => ∅ :=
  ⟨tally_nil.symm, tally_nil.symm, tally_nil.symm⟩

theorem merge (h : Holds events counters vecCounters histoCounts)
    (h' : Holds events' counters' vecCounters' histoCounts') :
    Holds (events ++ events') (merge (2 ^ 64) counters counters')
      (merge (2 ^ 64) vecCounters vecCounters') fun k =>
        (histoCounts k).addAll (histoCounts' k) := by
  refine ⟨?_, ?_, ?_⟩
  · rw [h.counters, h'.counters, merge_tally]
  · rw [h.vecCounters, h'.vecCounters, merge_tally]
  · rw [← merge_tally, ← h.histoCounts, ← h'.histoCounts]
    funext k
    have hk : entry histoCounts k < 2 ^ 64 := by
      rw [h.histoCounts]
      exact Nat.mod_lt _ (by decide)
    exact HistoCount.count_addAll hk _

theorem increment (h : Holds events counters vecCounters histoCounts) (c : Counter) :
    Holds (events ++ [.increment c]) (bump (2 ^ 64) counters c) vecCounters histoCounts := by
  obtain ⟨rfl, rfl, hhisto⟩ := h
  refine ⟨bump_tally Event.increment_injective events c, ?_, hhisto.trans ?_⟩ <;>
    rw [tally_append_of_ne]
  all_goals exact fun _ => nofun

theorem incrementVec (h : Holds events counters vecCounters histoCounts) (c : VecCounter)
    (pos : Fin config.ranks) : Holds (events ++ [.incrementVec c pos]) counters
      (bump (2 ^ 64) vecCounters (c, pos)) histoCounts := by
  obtain ⟨rfl, rfl, hhisto⟩ := h
  refine ⟨?_, bump_tally Event.ofVec_injective events (c, pos), hhisto.trans ?_⟩ <;>
    rw [tally_append_of_ne]
  all_goals exact fun _ => nofun

theorem addValue (h : Holds events counters vecCounters histoCounts) (histo : Histo) (value : Int) :
    Holds (events ++ [.addValue histo value]) counters vecCounters
      (Function.update histoCounts histo ((histoCounts histo).add value 1)) := by
  obtain ⟨rfl, rfl, hhisto⟩ := h
  refine ⟨?_, ?_, ?_⟩
  case refine_3 =>
    rw [entry_add, hhisto]
    exact bump_tally Event.ofValue_injective events (histo, value)
  all_goals rw [tally_append_of_ne]
  all_goals exact fun _ => nofun

/-- The end of an epoch is not counted. -/
theorem printEpochStats (h : Holds events counters vecCounters histoCounts) :
    Holds (events ++ [.printEpochStats]) counters vecCounters histoCounts := by
  obtain ⟨rfl, rfl, hhisto⟩ := h
  refine ⟨?_, ?_, hhisto.trans ?_⟩ <;> rw [tally_append_of_ne]
  all_goals exact fun _ => nofun

end Holds

/-- The totals hold the events of the epochs that have ended, and the other counters those of the
current one. -/
structure Counts (past current : List (Event config)) (s : SimpleStats config) : Prop where
  totals : Holds past s.counters s.vecCounters s.histoCounts
  epoch : Holds current s.epochCounters s.epochVecCounters s.epochHistoCounts

theorem counts_perform {events : List (Event config)} {s : SimpleStats config}
    (h : Counts (before .printEpochStats events) (since .printEpochStats events) s)
    (e : Event config) :
    Counts (before .printEpochStats (events ++ [e])) (since .printEpochStats (events ++ [e]))
      (s.perform p e) := by
  by_cases he : e = .printEpochStats
  · subst he
    have hall := h.totals.merge h.epoch
    rw [before_append_since] at hall
    rw [before_cut, since_cut]
    exact ⟨hall.printEpochStats, .nil⟩
  · rw [before_append he, since_append he]
    refine ⟨?_, ?_⟩ <;> cases e
    case refine_1.increment | refine_1.incrementVec | refine_1.addValue => exact h.totals
    case refine_2.increment c => exact h.epoch.increment c
    case refine_2.incrementVec c pos => exact h.epoch.incrementVec c pos
    case refine_2.addValue histo value => exact h.epoch.addValue histo value
    all_goals exact absurd rfl he

/-- The parts of the counters after any run. -/
theorem counts_run (p : PowerParams) (events : List (Event config)) :
    Counts (before .printEpochStats events) (since .printEpochStats events) (run p events) := by
  induction events using List.reverseRecOn with
  | nil => exact ⟨.nil, .nil⟩
  | append_singleton events e ih =>
      rw [run, List.foldl_append]
      exact counts_perform ih e

/-! ## The final report -/

/-- The energies of the PIM commands. -/
def pimEnergies : List Energy := [.lhRead, .ghRead, .pimWrite]

/-- All energies of commands. -/
def commandEnergies : List Energy := [.act, .read, .write, .lhRead, .ghRead, .pimWrite, .ref, .refb]

/-- The energy of all commands of a kind. -/
def commandTotal (p : PowerParams) (events : List (Event config)) (e : Energy) : Rat :=
  events.count (.increment e.counter) * e.inc p

/-- The energy of all cycles of a rank in a kind of standby. -/
def standbyTotal (p : PowerParams) (events : List (Event config)) (i : Fin config.ranks)
    (e : Standby) : Rat :=
  events.count (.incrementVec e.counter i) * e.inc p

/-- The energy of all commands and the background energy of all cycles. -/
def energyTotal (p : PowerParams) (events : List (Event config)) : Rat :=
  (commandEnergies.map (commandTotal p events)).sum +
    ((List.finRange config.ranks).map fun i =>
      ([Standby.actStb, .preStb, .sref].map (standbyTotal p events i)).sum).sum

/-- A report has the numbers of all events and the energy of all commands and cycles. -/
structure Exact (p : PowerParams) (events : List (Event config)) (r : Report config) : Prop where
  counters : ∀ c, r.counters c = events.count (.increment c)
  vecCounters : ∀ c i, r.vecCounters (c, i) = events.count (.incrementVec c i)
  energy : ∀ e, r.doubles e = commandTotal p events e
  totalEnergy : r.calculated .totalEnergy = some (energyTotal p events)

section

variable (p : PowerParams) (events : List (Event config))

/-- At the end of a run the totals hold all events. -/
theorem totals_updateCounters : Holds events (run p events).updateCounters.counters
    (run p events).updateCounters.vecCounters (run p events).updateHistoBins.histoCounts := by
  have hall := (counts_run p events).totals.merge (counts_run p events).epoch
  rw [before_append_since] at hall
  exact hall

theorem final_counters (c : Counter) :
    ((run p events).printFinalStats p).counters c = events.count (.increment c) % 2 ^ 64 := by
  have hcounters : ((run p events).printFinalStats p).counters =
      (run p events).updateCounters.counters := Function.update_eq_self _ _
  rw [hcounters, (totals_updateCounters p events).counters]
  rfl

theorem final_vecCounters (c : VecCounter) (i : Fin config.ranks) :
    ((run p events).printFinalStats p).vecCounters (c, i) =
      events.count (.incrementVec c i) % 2 ^ 64 :=
  congrFun (totals_updateCounters p events).vecCounters (c, i)

theorem final_energy (e : Energy) : ((run p events).printFinalStats p).doubles e =
    ((if e ∈ pimEnergies then since .printEpochStats events else events).count
      (.increment e.counter) % 2 ^ 64 : Nat) * e.inc p := by
  have hall (c : Counter) := congrFun (totals_updateCounters p events).counters c
  have hepoch (c : Counter) := congrFun (counts_run p events).epoch.counters c
  cases e
  case lhRead | ghRead | pimWrite => exact congrArg (fun n : Nat => (n : Rat) * _) (hepoch _)
  all_goals exact congrArg (fun n : Nat => (n : Rat) * _) (hall _)

theorem final_totalEnergy : ((run p events).printFinalStats p).calculated .totalEnergy =
    some ((commandEnergies.map ((run p events).printFinalStats p).doubles).sum +
      backgroundEnergy (standbyEnergy p ((run p events).printFinalStats p).vecCounters)) := by
  have hsum (d : Energy → Rat) (background : Rat) :
      d .act + d .read + d .write + d .ref + d .lhRead + d .ghRead + d .pimWrite + d .refb +
        background = (commandEnergies.map d).sum + background := by
    simp [commandEnergies]
    ring
  exact congrArg some (hsum _ _)

/-- The final report is exact if and only if no counter overflows and, for each PIM command, it
costs nothing or none has been issued before the last epoch ended. -/
theorem final_stats_exact : Exact p events ((run p events).printFinalStats p) ↔
    (∀ c, events.count (.increment c) < 2 ^ 64) ∧
    (∀ c i, events.count (.incrementVec c i) < 2 ^ 64) ∧
    ∀ e ∈ pimEnergies, e.inc p = 0 ∨ .increment e.counter ∉ before .printEpochStats events := by
  constructor
  · intro h
    have hsmall (c : Counter) : events.count (.increment c) < 2 ^ 64 := by
      rw [← h.counters c, final_counters]
      exact Nat.mod_lt _ (by decide)
    refine ⟨hsmall, fun c i => ?_, fun e he => ?_⟩
    · rw [← h.vecCounters c i, final_vecCounters]
      exact Nat.mod_lt _ (by decide)
    · have henergy := h.energy e
      rw [final_energy, if_pos he, commandTotal, mul_eq_mul_right_iff, Nat.cast_inj] at henergy
      have hepoch := (count_since_le .printEpochStats _ events).trans_lt (hsmall e.counter)
      rw [Nat.mod_eq_of_lt hepoch, count_since] at henergy
      exact henergy.symm
  · rintro ⟨hsmall, hvecs, hpim⟩
    have hvec (c : VecCounter) (i : Fin config.ranks) :
        ((run p events).printFinalStats p).vecCounters (c, i) =
          events.count (.incrementVec c i) := by
      rw [final_vecCounters, Nat.mod_eq_of_lt (hvecs c i)]
    have henergy (e : Energy) :
        ((run p events).printFinalStats p).doubles e = commandTotal p events e := by
      rw [final_energy, commandTotal]
      split
      · rename_i he
        rcases hpim e he with hzero | hnone
        · rw [hzero, mul_zero, mul_zero]
        · rw [(count_since _ _ _).mpr hnone, Nat.mod_eq_of_lt (hsmall _)]
      · rw [Nat.mod_eq_of_lt (hsmall _)]
    refine ⟨fun c => ?_, hvec, henergy, ?_⟩
    · rw [final_counters, Nat.mod_eq_of_lt (hsmall c)]
    · rw [final_totalEnergy, funext henergy, energyTotal]
      simp [backgroundEnergy, standbyEnergy, standbyTotal, hvec, add_assoc]

end

/-- One `LH_READ` on the default device, issued in an epoch that has ended, costs nothing in the
final report. -/
theorem final_stats_lhRead :
    let p := Config.defaults.initPowerParams {} 8 1 64
    let events : List (Event .defaults) := [.increment .numLhReadCmds, .printEpochStats]
    ((run p events).printFinalStats p).counters .numLhReadCmds = 1 ∧
    ((run p events).printFinalStats p).doubles .lhRead = 0 ∧
    commandTotal p events .lhRead = 194304 / 100 ∧
    ¬ Exact p events ((run p events).printFinalStats p) := by
  have hcost : commandTotal (Config.defaults.initPowerParams {} 8 1 64)
      ([.increment .numLhReadCmds, .printEpochStats] : List (Event .defaults)) .lhRead =
        194304 / 100 := by
    decide +kernel
  refine ⟨by decide +kernel, by decide +kernel, hcost, fun h => ?_⟩
  have henergy := h.energy .lhRead
  rw [hcost] at henergy
  exact absurd henergy (by decide +kernel)

end SimpleStats

end Dramsim
