import Dramsim.Model.Thermal
import Mathlib.Algebra.GroupWithZero.Nat
import Mathlib.Data.List.Induction

/-!
# The rows that a refresh charges

`UpdateCMDPower` keeps a counter for each bank and charges the next rows of the bank with the
energy of a refresh.  The calculator is seen here one bank at a time: its counter and the rows
charged to it (`view`).  A command either does one step of the `walk` of a bank or leaves its view
alone (`view_updateCMDPower`), so the view after any sequence of commands is an iterate of `walk`
(`view_run`).

The walk is cyclic when the rows of a refresh divide the rows of a bank.  Otherwise the counter
never meets the test that would reset it, and the walk leaves the bank.  A `REFRESH_BANK` walks in
the bank of its number within the group, which is the bank it names in the first group only.
`charged_iff` puts both together.
-/

namespace Dramsim

namespace ThermalCalculator

variable {config : ThermalConfig} {t : ThermalCalculator}

/-- The rows charged to a bank, the oldest first. -/
def rowsOf (t : ThermalCalculator) (rankIdx bank : Int) : List Nat :=
  (t.charges.filter fun c => c.rankIdx = rankIdx ∧ c.bank = bank).map Charge.row

/-- The counter of a bank and the rows charged to it. -/
def view (t : ThermalCalculator) (rankIdx bank : Int) : Nat × List Nat :=
  (t.refreshCount rankIdx bank, t.rowsOf rankIdx bank)

/-- The refresh of a bank on its view. -/
def walk (config : ThermalConfig) (v : Nat × List Nat) : Nat × List Nat :=
  (advance config v.1, v.2 ++ List.range' (v.1 * config.numRowRefresh) config.numRowRefresh)

/-! ## What a command does to the counters and the charges -/

theorem foldl_addEnergy {α : Type} (cell : α → Int) (caseId : Int) (energy : Rat) (l : List α) :
    ∀ t : ThermalCalculator,
      (l.foldl (fun t x => t.addEnergy caseId (cell x) energy) t).refreshCount = t.refreshCount ∧
        (l.foldl (fun t x => t.addEnergy caseId (cell x) energy) t).charges = t.charges := by
  induction l with
  | nil =>
      intro t
      exact ⟨rfl, rfl⟩
  | cons x l ih =>
      intro t
      exact ih (t.addEnergy caseId (cell x) energy)

theorem locationMappingANDaddEnergy_view (channel : Int) (cmd : Command) (caseId : Int)
    (energy : Rat) (r b : Int) :
    (t.locationMappingANDaddEnergy config channel cmd caseId energy).view r b = t.view r b := by
  obtain ⟨hcount, hcharges⟩ := foldl_addEnergy
    (fun xy : Int × Int => config.mapToZ channel cmd.addr.bank * config.dimX * config.dimY +
      xy.2 * config.dimX + xy.1) caseId (energy / config.deviceWidth)
    (t.mapToXY config cmd (config.mapToVault channel)
      (config.mapToBank cmd.addr.bankgroup cmd.addr.bank)) t
  rw [view, rowsOf, locationMappingANDaddEnergy, hcount, hcharges]
  rfl

theorem locationMappingANDaddEnergyRF_spec (t : ThermalCalculator) (channel : Int) (cmd : Command)
    (bank0 : Int) (row0 : Nat) (caseId : Int) (energy : Rat) :
    (t.locationMappingANDaddEnergyRF config channel cmd bank0 row0 caseId energy).refreshCount =
        t.refreshCount ∧
      (t.locationMappingANDaddEnergyRF config channel cmd bank0 row0 caseId energy).charges =
        t.charges ++ [⟨rankIdx config channel cmd.addr.rank, bank0, row0⟩] := by
  rw [locationMappingANDaddEnergyRF]
  dsimp only
  rw [(foldl_addEnergy _ _ _ _ _).1, (foldl_addEnergy _ _ _ _ _).2]
  exact ⟨rfl, rfl⟩

theorem foldl_RF (channel : Int) (cmd : Command) (ib caseId : Int) (energy : Rat)
    (rows : List Nat) :
    ∀ t : ThermalCalculator,
      (rows.foldl (fun t ir =>
          t.locationMappingANDaddEnergyRF config channel cmd ib ir caseId energy) t).refreshCount =
          t.refreshCount ∧
        (rows.foldl (fun t ir =>
          t.locationMappingANDaddEnergyRF config channel cmd ib ir caseId energy) t).charges =
          t.charges ++ rows.map fun ir => ⟨rankIdx config channel cmd.addr.rank, ib, ir⟩ := by
  induction rows with
  | nil =>
      intro t
      exact ⟨rfl, (List.append_nil _).symm⟩
  | cons ir rows ih =>
      intro t
      rw [List.foldl_cons, (ih _).1, (ih _).2]
      rw [(locationMappingANDaddEnergyRF_spec t channel cmd ib ir caseId energy).1,
        (locationMappingANDaddEnergyRF_spec t channel cmd ib ir caseId energy).2]
      exact ⟨rfl, List.append_assoc _ _ _⟩

/-- The refresh of one bank advances its counter and charges its next rows. -/
theorem refreshOne_spec (config : ThermalConfig) (t : ThermalCalculator) (channel : Int)
    (cmd : Command) (ib caseId : Int) (energy : Rat) :
    (t.refreshOne config channel cmd ib caseId energy).refreshCount =
        (fun r b => if r = rankIdx config channel cmd.addr.rank ∧ b = ib then
          advance config (t.refreshCount (rankIdx config channel cmd.addr.rank) ib)
        else t.refreshCount r b) ∧
      (t.refreshOne config channel cmd ib caseId energy).charges =
        t.charges ++ (List.range'
          (t.refreshCount (rankIdx config channel cmd.addr.rank) ib * config.numRowRefresh)
          config.numRowRefresh).map fun ir => ⟨rankIdx config channel cmd.addr.rank, ib, ir⟩ := by
  rw [refreshOne, (foldl_RF _ _ _ _ _ _ _).1, (foldl_RF _ _ _ _ _ _ _).2]
  exact ⟨rfl, rfl⟩

theorem view_refreshOne (t : ThermalCalculator) (channel : Int) (cmd : Command) (ib caseId : Int)
    (energy : Rat) (r b : Int) :
    (t.refreshOne config channel cmd ib caseId energy).view r b =
      if r = rankIdx config channel cmd.addr.rank ∧ b = ib then walk config (t.view r b)
      else t.view r b := by
  obtain ⟨hcount, hcharges⟩ := refreshOne_spec config t channel cmd ib caseId energy
  rw [view, rowsOf, hcount, hcharges, List.filter_append, List.map_append]
  beta_reduce
  split
  case isTrue h =>
    obtain ⟨rfl, rfl⟩ := h
    simp [walk, view, rowsOf, List.filter_map, Function.comp_def]
  case isFalse h =>
    have hnot : ¬ (rankIdx config channel cmd.addr.rank = r ∧ ib = b) :=
      fun he => h ⟨he.1.symm, he.2.symm⟩
    simp [view, rowsOf, List.filter_map, Function.comp_def, hnot]

/-- `REFRESH` walks in every bank of the rank once. -/
theorem view_refreshAll (channel : Int) (cmd : Command) (caseId : Int) (energy : Rat) (r b : Int)
    (n : Nat) :
    ((List.range n).foldl
        (fun t (ib : Nat) => t.refreshOne config channel cmd ib caseId energy) t).view r b =
      if r = rankIdx config channel cmd.addr.rank ∧ 0 ≤ b ∧ b < n then walk config (t.view r b)
      else t.view r b := by
  induction n with
  | zero =>
      have hnot : ¬ (r = rankIdx config channel cmd.addr.rank ∧ 0 ≤ b ∧ b < (0 : Nat)) := by omega
      rw [if_neg hnot]
      rfl
  | succ n ih =>
      rw [List.range_succ, List.foldl_append, List.foldl_cons, List.foldl_nil, view_refreshOne, ih]
      by_cases hr : r = rankIdx config channel cmd.addr.rank
      · have hsplit : (0 ≤ b ∧ b < (n + 1 : Nat)) ↔ b = n ∨ (0 ≤ b ∧ b < n) := by omega
        have hnot : b = n → ¬ (0 ≤ b ∧ b < n) := by omega
        simp only [hr, true_and, hsplit]
        split
        case isTrue hb => rw [if_neg (hnot hb), if_pos (Or.inl hb)]
        case isFalse hb => simp only [hb, false_or]
      · simp only [hr, false_and, if_false]

/-- A `REFRESH` is for the banks of its rank, a `REFRESH_BANK` for one bank. -/
def IsFor (config : ThermalConfig) (channel : Int) (cmd : Command) (bank r b : Int) : Prop :=
  r = rankIdx config channel cmd.addr.rank ∧
    (cmd.cmdType = .refresh ∧ 0 ≤ b ∧ b < config.banks ∨ cmd.cmdType = .refreshBank ∧ b = bank)

instance (channel : Int) (cmd : Command) (bank r b : Int) :
    Decidable (IsFor config channel cmd bank r b) :=
  inferInstanceAs (Decidable (_ ∧ _))

/-- A command does a step of the walk in the banks that it is for, where the bank of a
`REFRESH_BANK` is its number within the group. -/
theorem view_updateCMDPower (channel : Int) (cmd : Command) (r b : Int) :
    (t.updateCMDPower config channel cmd).view r b =
      if IsFor config channel cmd cmd.addr.bank r b then walk config (t.view r b)
      else t.view r b := by
  rw [updateCMDPower]
  dsimp only
  split
  · rename_i hc
    rw [view_refreshAll]
    simp [IsFor, hc]
  · rename_i hc
    rw [view_refreshOne]
    simp [IsFor, hc]
  · rename_i h h'
    have hnot : ¬ IsFor config channel cmd cmd.addr.bank r b := by
      rintro ⟨_, ⟨hc, _⟩ | ⟨hc, _⟩⟩
      · exact h hc
      · exact h' hc
    rw [if_neg hnot]
    split
    · exact locationMappingANDaddEnergy_view ..
    · rfl

/-! ## Sequences of commands -/

/-- The calculator after some commands, each with its channel. -/
def run (config : ThermalConfig) (phyAddress : Address → Address) (cmds : List (Int × Command)) :
    ThermalCalculator :=
  cmds.foldl (fun t p => t.updateCMDPower config p.1 p.2) (initial phyAddress)

variable {phyAddress : Address → Address} {cmds : List (Int × Command)}

theorem run_append (p : Int × Command) :
    run config phyAddress (cmds ++ [p]) =
      (run config phyAddress cmds).updateCMDPower config p.1 p.2 := by
  rw [run, List.foldl_append]
  rfl

theorem view_run (phyAddress : Address → Address) (cmds : List (Int × Command)) (r b : Int) :
    (run config phyAddress cmds).view r b =
      (walk config)^[cmds.countP fun p => IsFor config p.1 p.2 p.2.addr.bank r b] (0, []) := by
  induction cmds using List.reverseRecOn with
  | nil => rfl
  | append_singleton cmds p ih =>
      rw [run_append, view_updateCMDPower, ih, List.countP_append, List.countP_singleton]
      by_cases h : IsFor config p.1 p.2 p.2.addr.bank r b
      · simp only [h, if_true, decide_true]
        exact (Function.iterate_succ_apply' ..).symm
      · simp [h]

/-! ## The walk -/

theorem advance_mod {m : Nat} (hn : 0 < config.numRowRefresh)
    (hm : config.rows = config.numRowRefresh * m) (hpos : 0 < m) (k : Nat) :
    advance config (k % m) = (k + 1) % m := by
  rw [advance, hm, Nat.mul_comm config.numRowRefresh, ← Nat.mod_add_mod]
  split
  case isTrue h => rw [Nat.eq_of_mul_eq_mul_right hn h, Nat.mod_self]
  case isFalse h =>
    have hne : k % m + 1 ≠ m := fun he => h (congrArg (· * config.numRowRefresh) he)
    rw [Nat.mod_eq_of_lt (Nat.lt_of_le_of_ne (Nat.mod_lt k hpos) hne)]

theorem range_mod {n m : Nat} (k : Nat) :
    List.range' (k % m * n) n = (List.range' (k * n) n).map (· % (n * m)) := by
  rw [List.range'_eq_map_range, List.range'_eq_map_range, List.map_map]
  apply List.map_congr_left
  intro i hi
  have hi' : i < n := List.mem_range.mp hi
  have hpos : 0 < n := Nat.zero_lt_of_lt hi'
  rw [Function.comp_apply, Nat.mod_mul, Nat.mul_comm k, Nat.mul_add_mod, Nat.mod_eq_of_lt hi',
    Nat.mul_add_div hpos, Nat.div_eq_of_lt hi', Nat.add_zero, Nat.mul_comm n, Nat.add_comm]

/-- A bank whose rows a refresh divides is walked through cyclically. -/
theorem iterate_walk_of_dvd {m : Nat} (hn : 0 < config.numRowRefresh)
    (hm : config.rows = config.numRowRefresh * m) (hpos : 0 < m) (k : Nat) :
    (walk config)^[k] (0, []) =
      (k % m, (List.range (k * config.numRowRefresh)).map (· % config.rows)) := by
  induction k with
  | zero => simp
  | succ k ih =>
      rw [Function.iterate_succ_apply', ih, walk, advance_mod hn hm hpos, range_mod, ← hm,
        ← List.map_append, Nat.succ_mul, List.range_eq_range', List.range_eq_range',
        ← List.range'_append_1, Nat.zero_add]

/-- The counter of another bank is never reset. -/
theorem iterate_walk_of_not_dvd (hdvd : ¬ config.numRowRefresh ∣ config.rows) (k : Nat) :
    (walk config)^[k] (0, []) = (k, List.range (k * config.numRowRefresh)) := by
  induction k with
  | zero => simp
  | succ k ih =>
      have hne : (k + 1) * config.numRowRefresh ≠ config.rows := fun h => hdvd (Dvd.intro_left _ h)
      rw [Function.iterate_succ_apply', ih, walk, advance, if_neg hne, Nat.succ_mul,
        List.range_eq_range', List.range_eq_range', ← List.range'_append_1, Nat.zero_add]

/-- A walk is cyclic as long as it has not left the bank. -/
theorem cyclic_iterate_iff (hn : 0 < config.numRowRefresh) (hrows : 0 < config.rows) (k : Nat) :
    ((walk config)^[k] (0, [])).2 =
        (List.range ((walk config)^[k] (0, [])).2.length).map (· % config.rows) ↔
      config.numRowRefresh ∣ config.rows ∨ k * config.numRowRefresh ≤ config.rows := by
  by_cases hdvd : config.numRowRefresh ∣ config.rows
  · obtain ⟨m, hm⟩ := hdvd
    have hpos : 0 < m := Nat.pos_of_ne_zero fun h => by
      rw [h, Nat.mul_zero] at hm
      omega
    rw [iterate_walk_of_dvd hn hm hpos]
    simp [hm]
  · rw [iterate_walk_of_not_dvd hdvd, List.length_range, or_iff_right hdvd]
    constructor
    · intro h
      by_contra hlt
      -- the row after the last one
      have hrow := congrArg (fun l => l[config.rows]?) h
      simp [not_le.mp hlt] at hrow
      omega
    · intro h
      conv_lhs => rw [← List.map_id (List.range _)]
      apply List.map_congr_left
      intro i hi
      exact (Nat.mod_eq_of_lt (lt_of_lt_of_le (List.mem_range.mp hi) h)).symm

/-! ## What is charged -/

/-- A `REFRESH_BANK` charges the bank that it names and advances the counter of this bank only. -/
structure ChargesOwn (config : ThermalConfig) (t : ThermalCalculator) (channel : Int)
    (cmd : Command) : Prop where
  charges : ∃ rows, rows ≠ [] ∧ (t.updateCMDPower config channel cmd).charges =
    t.charges ++ rows.map fun row =>
      ⟨rankIdx config channel cmd.addr.rank, config.absBankId cmd.addr.bankgroup cmd.addr.bank, row⟩
  refreshCount : (t.updateCMDPower config channel cmd).refreshCount = fun r b =>
    if r = rankIdx config channel cmd.addr.rank ∧
        b = config.absBankId cmd.addr.bankgroup cmd.addr.bank then
      advance config (t.refreshCount r b)
    else t.refreshCount r b

/-- The energy of the refreshes goes to existing rows of the right banks. -/
structure Charged (config : ThermalConfig) (phyAddress : Address → Address)
    (cmds : List (Int × Command)) : Prop where
  existing : ∀ c ∈ (run config phyAddress cmds).charges, c.row < config.rows
  cyclic : ∀ r b, (run config phyAddress cmds).rowsOf r b =
    (List.range ((run config phyAddress cmds).rowsOf r b).length).map (· % config.rows)
  own : ∀ before p after, cmds = before ++ p :: after → p.2.cmdType = .refreshBank →
    ChargesOwn config (run config phyAddress before) p.1 p.2

/-- How often some commands refresh a bank. -/
def refreshes (config : ThermalConfig) (cmds : List (Int × Command)) (r b : Int) : Nat :=
  cmds.countP fun p =>
    IsFor config p.1 p.2 (config.absBankId p.2.addr.bankgroup p.2.addr.bank) r b

theorem absBankId_eq_iff (bankgroup bank : Int) :
    config.absBankId bankgroup bank = bank ↔ bankgroup = 0 := by
  have hpos := config.banksPerGroup_pos
  have hne : (config.banksPerGroup : Int) ≠ 0 := by omega
  rw [ThermalConfig.absBankId, add_eq_right, mul_eq_zero, or_iff_left hne]

theorem updateCMDPower_refreshBank (config : ThermalConfig) (t : ThermalCalculator) (channel : Int)
    {cmd : Command} (hc : cmd.cmdType = .refreshBank) :
    ∃ energy, t.updateCMDPower config channel cmd =
      t.refreshOne config channel cmd cmd.addr.bank
        (caseId config channel cmd.addr.rank) energy := by
  rw [updateCMDPower]
  simp only [hc]
  exact ⟨_, rfl⟩

theorem chargesOwn_iff (hn : 0 < config.numRowRefresh) {channel : Int} {cmd : Command}
    (hc : cmd.cmdType = .refreshBank) :
    ChargesOwn config t channel cmd ↔ cmd.addr.bankgroup = 0 := by
  obtain ⟨energy, heq⟩ := updateCMDPower_refreshBank config t channel hc
  obtain ⟨hcount, hcharges⟩ := refreshOne_spec config t channel cmd cmd.addr.bank
    (caseId config channel cmd.addr.rank) energy
  rw [← heq] at hcount hcharges
  rw [← absBankId_eq_iff cmd.addr.bankgroup cmd.addr.bank]
  constructor
  · rintro ⟨⟨rows, hrows, h⟩, _⟩
    rw [hcharges, List.append_cancel_left_eq] at h
    -- the first row is charged to both banks
    obtain ⟨n, hn'⟩ := Nat.exists_eq_succ_of_ne_zero (Nat.ne_of_gt hn)
    obtain ⟨row, rows, rfl⟩ := List.exists_cons_of_ne_nil hrows
    rw [hn', List.range'_succ, List.map_cons, List.map_cons, List.cons.injEq] at h
    exact (congrArg Charge.bank h.1).symm
  · intro h
    rw [← h] at hcharges hcount
    constructor
    · refine ⟨_, ?_, hcharges⟩
      exact fun hnil => Nat.ne_of_gt hn (List.range'_eq_nil_iff.mp hnil)
    · rw [hcount]
      funext r b
      split
      case isTrue he => rw [he.1, he.2]
      case isFalse => rfl

/-- While only the first group is refreshed bank by bank, the rows of a bank are those of its
walk. -/
theorem rowsOf_run (hgroup : ∀ p ∈ cmds, p.2.cmdType = .refreshBank → p.2.addr.bankgroup = 0)
    (r b : Int) : (run config phyAddress cmds).rowsOf r b =
      ((walk config)^[refreshes config cmds r b] (0, [])).2 := by
  have hcount : refreshes config cmds r b =
      cmds.countP fun p => IsFor config p.1 p.2 p.2.addr.bank r b := by
    apply List.countP_congr
    intro p hp
    rw [decide_eq_true_iff, decide_eq_true_iff, IsFor, IsFor]
    refine and_congr_right fun _ => or_congr_right (and_congr_right fun hc => ?_)
    rw [(absBankId_eq_iff _ _).mpr (hgroup p hp hc)]
  rw [hcount, ← view_run phyAddress]
  rfl

theorem cyclic_iff (hn : 0 < config.numRowRefresh) (hrows : 0 < config.rows)
    (hgroup : ∀ p ∈ cmds, p.2.cmdType = .refreshBank → p.2.addr.bankgroup = 0) (r b : Int) :
    (run config phyAddress cmds).rowsOf r b =
        (List.range ((run config phyAddress cmds).rowsOf r b).length).map (· % config.rows) ↔
      config.numRowRefresh ∣ config.rows ∨
        refreshes config cmds r b * config.numRowRefresh ≤ config.rows := by
  rw [rowsOf_run hgroup, cyclic_iterate_iff hn hrows]

/-- Refreshes charge existing rows of the right banks exactly when no `REFRESH_BANK` is for a later
group and, if the rows of a refresh do not divide those of a bank, no bank has been refreshed past
its end. -/
theorem charged_iff (config : ThermalConfig) (phyAddress : Address → Address)
    (cmds : List (Int × Command)) (hn : 1 ≤ config.numRowRefresh) (hrows : 1 ≤ config.rows) :
    Charged config phyAddress cmds ↔
      (∀ p ∈ cmds, p.2.cmdType = .refreshBank → p.2.addr.bankgroup = 0) ∧
        (config.numRowRefresh ∣ config.rows ∨
          ∀ r b, refreshes config cmds r b * config.numRowRefresh ≤ config.rows) := by
  constructor
  · intro h
    have hgroup : ∀ p ∈ cmds, p.2.cmdType = .refreshBank → p.2.addr.bankgroup = 0 := by
      intro p hp hc
      obtain ⟨before, after, heq⟩ := List.append_of_mem hp
      exact (chargesOwn_iff hn hc).mp (h.own before p after heq hc)
    refine ⟨hgroup, or_iff_not_imp_left.mpr fun hdvd r b => ?_⟩
    exact ((cyclic_iff hn hrows hgroup r b).mp (h.cyclic r b)).resolve_left hdvd
  · rintro ⟨hgroup, hwalk⟩
    have hcyclic : ∀ r b, (run config phyAddress cmds).rowsOf r b =
        (List.range ((run config phyAddress cmds).rowsOf r b).length).map (· % config.rows) :=
      fun r b => (cyclic_iff hn hrows hgroup r b).mpr (hwalk.imp_right fun h => h r b)
    refine ⟨?_, hcyclic, ?_⟩
    · intro c hc
      have hmem : c.row ∈ (run config phyAddress cmds).rowsOf c.rankIdx c.bank :=
        List.mem_map_of_mem (List.mem_filter.mpr ⟨hc, by simp⟩)
      rw [hcyclic] at hmem
      obtain ⟨i, _, hi⟩ := List.mem_map.mp hmem
      exact hi ▸ Nat.mod_lt i hrows
    · intro before p after heq hc
      have hp : p ∈ cmds := heq ▸ List.mem_append_right before List.mem_cons_self
      exact (chargesOwn_iff hn hc).mpr (hgroup p hp hc)

def refreshRank : Int × Command := (0, ⟨.refresh, ⟨0, 0, -1, -1, -1, -1⟩, 0⟩)

def refreshBank (bankgroup bank : Int) : Int × Command :=
  (0, ⟨.refreshBank, ⟨0, 0, bankgroup, bank, -1, -1⟩, 0⟩)

/-- The default device refreshes 8 of its 65536 rows at a time. -/
theorem charged_defaults :
    ThermalConfig.defaults.numRowRefresh = 8 ∧ ThermalConfig.defaults.rows = 65536 ∧
      Charged .defaults id
        [refreshRank, refreshBank 0 1, refreshRank, refreshBank 0 1, refreshBank 0 0] :=
  ⟨rfl, rfl, (charged_iff _ _ _ (by decide) (by decide)).mpr ⟨by decide, Or.inl (by decide)⟩⟩

/-- The defaults with `tREFI = 8000`, for which `num_row_refresh` is nine. -/
def nineRows : ThermalConfig :=
  { ThermalConfig.defaults with
    toConfig := { Config.defaults with tREFI := 8000 }
    numRowRefresh := 9 }

theorem refreshes_replicate (n : Nat) :
    refreshes nineRows (List.replicate n refreshRank) 0 0 = n := by
  rw [refreshes, List.countP_replicate]
  exact if_pos (by decide)

/-- Nine rows at a time do not meet the end of a bank of 65536 rows, and the refresh of the first
bank of the second group is charged to the first group. -/
theorem not_charged :
    (65536 ∈ (run nineRows id (List.replicate 7282 refreshRank)).rowsOf 0 0 ∧
        ¬ Charged nineRows id (List.replicate 7282 refreshRank)) ∧
      (run .defaults id [refreshBank 1 0]).charges = (List.range 8).map (⟨0, 0, ·⟩) ∧
        ThermalConfig.defaults.absBankId 1 0 = 2 ∧ ¬ Charged .defaults id [refreshBank 1 0] := by
  have hgroup : ∀ p ∈ List.replicate 7282 refreshRank,
      p.2.cmdType = .refreshBank → p.2.addr.bankgroup = 0 := by
    intro p hp hc
    rw [List.eq_of_mem_replicate hp] at hc
    cases hc
  have hdvd : ¬ nineRows.numRowRefresh ∣ nineRows.rows := by decide
  refine ⟨⟨?_, fun h => ?_⟩, by decide +kernel, by decide, fun h => ?_⟩
  · rw [rowsOf_run hgroup, refreshes_replicate, iterate_walk_of_not_dvd hdvd, List.mem_range]
    decide
  · have hle :=
      ((cyclic_iff (by decide) (by decide) hgroup 0 0).mp (h.cyclic 0 0)).resolve_left hdvd
    rw [refreshes_replicate] at hle
    exact absurd hle (by decide)
  · have hown := h.own [] (refreshBank 1 0) [] rfl rfl
    exact absurd ((chargesOwn_iff (by decide) rfl).mp hown) (by decide)

end ThermalCalculator

end Dramsim
