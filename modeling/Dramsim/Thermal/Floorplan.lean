import Dramsim.Library.Counter
import Dramsim.Model.Thermal

/-!
# The floorplan

`MapToBank` places the banks of a channel on a plan of `bank_x` columns and `bank_y` rows.  The
size of the plan is fixed for a stack and searched for by `determineXY` otherwise, while the
formulas assume groups that are two banks wide and follow each other in a line.

`Placed` says that every bank lies on the plan and that no two banks of a channel share a place.
`GroupsFit` says for which configurations that is so, and `placed_iff` that it says it exactly:

* an HMC stack has room for two banks in a layer,
* an HBM stack has room for eight columns, and groups of more than four banks overlap,
* a single group always fills the plan that was found for it,
* several groups fill it only when it is twice as long as there are groups, and groups that lie
  across the line are two banks long.
-/

namespace Dramsim

/-! ## The search for a factorisation -/

theorem tryRows_dvd {xd yd : Rat} {n : Nat} {re : Nat × Rat} (hre : re.1 ∣ n) (y : Nat) :
    (tryRows xd yd n re y).1 ∣ n := by
  rw [tryRows]
  split
  case isTrue h => exact Dvd.intro y h.1
  case isFalse => exact hre

/-- The plan that `determineXY` finds has no empty place. -/
theorem determineXY_dvd (xd yd : Rat) (n : Nat) : determineXY xd yd n ∣ n :=
  List.foldlRecOn (motive := fun re => re.1 ∣ n) _ (tryRows xd yd n) (one_dvd n)
    fun _ hre y _ => tryRows_dvd hre y

namespace ThermalConfig

variable (config : ThermalConfig)

/-- Every bank of a channel lies on the plan, and no two of them at one place of one layer. -/
structure Placed (channel : Int) : Prop where
  inside : ∀ g < config.bankgroups, ∀ b < config.banksPerGroup,
    0 ≤ (config.mapToBank g b).1 ∧ (config.mapToBank g b).1 < config.bankX ∧
      0 ≤ (config.mapToBank g b).2 ∧ (config.mapToBank g b).2 < config.bankY
  apart : ∀ g < config.bankgroups, ∀ b < config.banksPerGroup,
    ∀ g' < config.bankgroups, ∀ b' < config.banksPerGroup,
      config.mapToBank g b = config.mapToBank g' b' →
      config.mapToZ channel (config.absBankId g b) =
        config.mapToZ channel (config.absBankId g' b') →
      g = g' ∧ b = b'

/-- The pair of columns of a group lies across the line of the groups. -/
def Turned : Prop := config.bankX ≤ config.bankY ↔ config.bankOrder = 0

/-- The configurations whose banks fit on the plan. -/
def GroupsFit : Prop :=
  if config.isHMC then config.banks / config.numDies ≤ 2
  else if config.isHBM then
    2 * (config.bankgroups - 1) + (config.banksPerGroup - 1) / 2 ≤ 7 ∧
      (config.bankgroups = 1 ∨ config.banksPerGroup ≤ 4)
  else
    1 < config.bankgroups →
      max config.bankX config.bankY = 2 * config.bankgroups ∧
        2 * min config.bankX config.bankY = config.banksPerGroup ∧
        (config.Turned → config.banksPerGroup = 4)

variable {config}

theorem absBankId_eq (g b : Nat) :
    config.absBankId g b = ((g * config.banksPerGroup + b : Nat) : Int) := by
  rw [absBankId]
  push_cast
  rfl

/-- The bank with a number within the rank. -/
theorem exists_bank {n : Nat} (hn : n < config.banks) :
    ∃ g < config.bankgroups, ∃ b < config.banksPerGroup, g * config.banksPerGroup + b = n := by
  refine ⟨n / config.banksPerGroup, ?_, n % config.banksPerGroup,
    Nat.mod_lt _ config.banksPerGroup_pos, Nat.div_add_mod' n _⟩
  exact Nat.div_lt_of_lt_mul (by rwa [Nat.mul_comm])

/-! ## HMC -/

theorem mapToBank_hmc (h : config.isHMC) (g b : Nat) :
    config.mapToBank g b =
      let s := (g * config.banksPerGroup + b) % (config.banks / config.numDies)
      if config.bankOrder = 0 then (0, (s : Int))
      else (((s / 2 : Nat) : Int), ((s % 2 : Nat) : Int)) := by
  have hn : config.numBankPerLayer = ((config.banks / config.numDies : Nat) : Int) := rfl
  simp only [mapToBank, h, if_true, absBankId_eq, hn, bankX, bankY, ordered]
  split
  · rw [Prod.swap_prod_mk, Nat.cast_one, Int.tmod_one, Int.tdiv_one]
    rfl
  · rfl

theorem mapToZ_hmc (h : config.isHMC) (channel : Int) (n : Nat) :
    config.mapToZ channel n =
      if config.bankLayerOrder = 0 then ((n / (config.banks / config.numDies) : Nat) : Int)
      else config.numP - ((n / (config.banks / config.numDies) : Nat) : Int) - 2 := by
  simp only [mapToZ, h, if_true]
  rfl

theorem placed_hmc (h : config.isHMC) (channel : Int) :
    config.Placed channel ↔ config.banks / config.numDies ≤ 2 := by
  have hpos : 0 < config.banks / config.numDies := config.layer_pos (of_decide_eq_true h)
  have hX : config.bankX = 1 := by simp [bankX, h]
  have hY : config.bankY = 2 := by simp [bankY, h]
  constructor
  · intro hp
    -- the last bank of the first layer
    obtain ⟨g, hg, b, hb, hn⟩ : ∃ g < config.bankgroups, ∃ b < config.banksPerGroup,
        g * config.banksPerGroup + b = config.banks / config.numDies - 1 :=
      exists_bank (lt_of_lt_of_le (Nat.sub_lt hpos Nat.one_pos) (Nat.div_le_self _ _))
    have hin := hp.inside g hg b hb
    rw [mapToBank_hmc h, hn, Nat.mod_eq_of_lt (Nat.sub_lt hpos Nat.one_pos), hX, hY] at hin
    dsimp only at hin
    split at hin
    all_goals omega
  · intro hle
    constructor
    · intro g hg b hb
      have hlt := Nat.mod_lt (g * config.banksPerGroup + b) hpos
      rw [mapToBank_hmc h, hX, hY]
      dsimp only
      split
      all_goals omega
    · intro g hg b hb g' hg' b' hb' hxy hz
      apply Library.Counter.digits_inj hb hb'
      rw [mapToBank_hmc h, mapToBank_hmc h] at hxy
      rw [absBankId_eq, absBankId_eq, mapToZ_hmc h, mapToZ_hmc h] at hz
      generalize g * config.banksPerGroup + b = n at hxy hz ⊢
      generalize g' * config.banksPerGroup + b' = n' at hxy hz ⊢
      have hmod : n % (config.banks / config.numDies) = n' % (config.banks / config.numDies) := by
        dsimp only at hxy
        split at hxy
        all_goals
          rw [Prod.mk.injEq] at hxy
          omega
      have hdiv : n / (config.banks / config.numDies) = n' / (config.banks / config.numDies) := by
        split at hz
        all_goals omega
      rw [← Nat.div_add_mod n, hdiv, hmod, Nat.div_add_mod]

/-! ## HBM -/

theorem mapToBank_hbm (h : ¬ config.isHMC) (h' : config.isHBM) (g b : Nat) :
    config.mapToBank g b = (((2 * g + b / 2 : Nat) : Int), ((b % 2 : Nat) : Int)) := by
  simp only [mapToBank, h, h', if_true]
  rw [Nat.mul_comm]
  rfl

theorem placed_hbm (h : ¬ config.isHMC) (h' : config.isHBM) (channel : Int) :
    config.Placed channel ↔
      2 * (config.bankgroups - 1) + (config.banksPerGroup - 1) / 2 ≤ 7 ∧
        (config.bankgroups = 1 ∨ config.banksPerGroup ≤ 4) := by
  have hG := config.bankgroups_pos
  have hB := config.banksPerGroup_pos
  have hX : config.bankX = 8 := by simp [bankX, h, h']
  have hY : config.bankY = 2 := by simp [bankY, h, h']
  constructor
  · intro hp
    constructor
    · have hin := hp.inside (config.bankgroups - 1) (by omega) (config.banksPerGroup - 1) (by omega)
      rw [mapToBank_hbm h h', hX] at hin
      omega
    · -- the fifth bank of a group would lie on the first one of the next
      by_contra hne
      have hsame := hp.apart 0 (by omega) 4 (by omega) 1 (by omega) 0 (by omega)
      rw [mapToBank_hbm h h', mapToBank_hbm h h'] at hsame
      have := hsame rfl (by simp [mapToZ, h, h'])
      omega
  · rintro ⟨hlast, hgroups⟩
    constructor
    · intro g hg b hb
      rw [mapToBank_hbm h h', hX, hY]
      omega
    · intro g hg b hb g' hg' b' hb' hxy _
      rw [mapToBank_hbm h h', mapToBank_hbm h h', Prod.mk.injEq] at hxy
      omega

/-! ## A single die -/

theorem bankX_mul_bankY (h : ¬ config.isHMC) (h' : ¬ config.isHBM) :
    config.bankX * config.bankY = config.banks := by
  rw [bankY, if_neg h, if_neg h']
  apply Nat.mul_div_cancel'
  rw [bankX, if_neg h, if_neg h']
  exact determineXY_dvd _ _ _

/-- Natural coordinates on a plan. -/
theorem inside_iff {x y X Y : Nat} :
    (0 ≤ (x : Int) ∧ (x : Int) < X ∧ 0 ≤ (y : Int) ∧ (y : Int) < Y) ↔ x < X ∧ y < Y := by
  omega

theorem mapToBank_single (h : ¬ config.isHMC) (h' : ¬ config.isHBM) (hG : config.bankgroups = 1)
    (b : Nat) :
    config.mapToBank (0 : Nat) b =
      if config.bankOrder = 0 then
        (((b % config.bankX : Nat) : Int), ((b / config.bankX : Nat) : Int))
      else (((b / config.bankY : Nat) : Int), ((b % config.bankY : Nat) : Int)) := by
  have hnot : ¬ 1 < config.bankgroups := by omega
  rw [mapToBank, if_neg h, if_neg h', if_neg hnot, absBankId_eq, Nat.zero_mul, Nat.zero_add,
    ordered]
  split
  · rfl
  · rfl

theorem placed_single (h : ¬ config.isHMC) (h' : ¬ config.isHBM) (hG : config.bankgroups = 1)
    (channel : Int) : config.Placed channel := by
  have harea : config.bankX * config.bankY = config.banksPerGroup := by
    rw [bankX_mul_bankY h h', Config.banks, hG, Nat.one_mul]
  have hB := config.banksPerGroup_pos
  have hX : 0 < config.bankX := Nat.pos_of_mul_pos_right (harea ▸ hB)
  have hY : 0 < config.bankY := Nat.pos_of_mul_pos_left (harea ▸ hB)
  constructor
  · intro g hg b hb
    obtain rfl : g = 0 := by omega
    rw [mapToBank_single h h' hG]
    rw [← harea] at hb
    split
    · exact inside_iff.mpr ⟨Nat.mod_lt b hX, Nat.div_lt_of_lt_mul hb⟩
    · rw [Nat.mul_comm] at hb
      exact inside_iff.mpr ⟨Nat.div_lt_of_lt_mul hb, Nat.mod_lt b hY⟩
  · intro g hg b hb g' hg' b' hb' hxy _
    obtain rfl : g = 0 := by omega
    obtain rfl : g' = 0 := by omega
    rw [mapToBank_single h h' hG, mapToBank_single h h' hG] at hxy
    refine ⟨rfl, ?_⟩
    split at hxy
    · rw [Prod.mk.injEq, Nat.cast_inj, Nat.cast_inj] at hxy
      rw [← Nat.div_add_mod b config.bankX, hxy.1, hxy.2, Nat.div_add_mod]
    · rw [Prod.mk.injEq, Nat.cast_inj, Nat.cast_inj] at hxy
      rw [← Nat.div_add_mod b config.bankY, hxy.1, hxy.2, Nat.div_add_mod]

/-! ## Groups in a line -/

instance : Decidable config.Turned := inferInstanceAs (Decidable (_ ↔ _))

/-- The coordinate of a bank across the line of the groups. -/
def across (config : ThermalConfig) (b : Nat) : Nat :=
  if config.Turned then b % 2 else b / 2

/-- The coordinate of a bank along the line of the groups. -/
def along (config : ThermalConfig) (g b : Nat) : Nat :=
  (if config.Turned then b / 2 else b % 2) + g * 2

theorem mapToBank_groups (h : ¬ config.isHMC) (h' : ¬ config.isHBM) (hG : 1 < config.bankgroups)
    (g b : Nat) :
    config.mapToBank g b =
      if config.bankX ≤ config.bankY then ((config.across b : Int), (config.along g b : Int))
      else ((config.along g b : Int), (config.across b : Int)) := by
  rw [mapToBank, if_neg h, if_neg h', if_pos hG, ordered, across, along]
  by_cases hle : config.bankX ≤ config.bankY
  · by_cases ho : config.bankOrder = 0
    · have ht : config.Turned := iff_of_true hle ho
      simp only [hle, ho, ht, if_true]
      rfl
    · have ht : ¬ config.Turned := fun ht => ho (ht.mp hle)
      simp only [hle, ho, ht, if_true, if_false]
      rfl
  · by_cases ho : config.bankOrder = 0
    · have ht : ¬ config.Turned := fun ht => hle (ht.mpr ho)
      simp only [hle, ho, ht, if_true, if_false]
      rfl
    · have ht : config.Turned := iff_of_false hle ho
      simp only [hle, ho, ht, if_true, if_false]
      rfl

theorem inside_groups (h : ¬ config.isHMC) (h' : ¬ config.isHBM) (hG : 1 < config.bankgroups)
    (g b : Nat) :
    (0 ≤ (config.mapToBank g b).1 ∧ (config.mapToBank g b).1 < config.bankX ∧
      0 ≤ (config.mapToBank g b).2 ∧ (config.mapToBank g b).2 < config.bankY) ↔
      config.across b < min config.bankX config.bankY ∧
        config.along g b < max config.bankX config.bankY := by
  rw [mapToBank_groups h h' hG]
  split
  case isTrue hle => rw [inside_iff, min_eq_left hle, max_eq_right hle]
  case isFalse hle =>
    have hge := (not_le.mp hle).le
    rw [inside_iff, min_eq_right hge, max_eq_left hge, and_comm]

theorem mapToBank_groups_inj (h : ¬ config.isHMC) (h' : ¬ config.isHBM)
    (hG : 1 < config.bankgroups) {g b g' b' : Nat} :
    config.mapToBank g b = config.mapToBank g' b' ↔
      config.across b = config.across b' ∧ config.along g b = config.along g' b' := by
  rw [mapToBank_groups h h' hG, mapToBank_groups h h' hG]
  split
  · rw [Prod.mk.injEq, Nat.cast_inj, Nat.cast_inj]
  · rw [Prod.mk.injEq, Nat.cast_inj, Nat.cast_inj, and_comm]

/-! The arithmetic of a line of `G` groups of `B` banks on a plan of `S` by `L` places. -/

section Line

variable {G B S L : Nat}

/-- Groups of one bank leave every second place of the line empty. -/
theorem two_le_of_line (hG : 1 < G) (hB : 0 < B) (harea : S * L = G * B) (hS : 0 < S)
    (hL : (G - 1) * 2 < L) : 2 ≤ B := by
  by_contra hlt
  obtain rfl : B = 1 := by omega
  have hle : 1 * L ≤ S * L := Nat.mul_le_mul_right L hS
  omega

/-- A line of groups that fills the plan. -/
theorem line_eq (hG : 1 < G) (hB : 0 < B) (harea : S * L = G * B) (hS : B ≤ 2 * S)
    (hL : 2 * G ≤ L) : L = 2 * G ∧ 2 * S = B := by
  have htwice : 2 * S * L = B * (2 * G) := by
    rw [Nat.mul_assoc, harea, Nat.mul_comm B, Nat.mul_assoc]
  have hS' : 2 * S = B := by
    refine le_antisymm ?_ hS
    have hle : 2 * S * L ≤ B * L := htwice ▸ Nat.mul_le_mul_left B hL
    exact Nat.le_of_mul_le_mul_right hle (by omega)
  rw [hS'] at htwice
  exact ⟨Nat.eq_of_mul_eq_mul_left hB htwice, hS'⟩

theorem straight_line_eq (hG : 1 < G) (hB : 0 < B) (harea : S * L = G * B)
    (hin : ∀ b < B, b / 2 < S ∧ b % 2 + (G - 1) * 2 < L) : L = 2 * G ∧ 2 * S = B := by
  have hfirst := hin 0 hB
  have htwo := two_le_of_line hG hB harea (by omega) (by omega)
  have hsecond := hin 1 htwo
  have hlast := hin (B - 1) (by omega)
  exact line_eq hG hB harea (by omega) (by omega)

theorem turned_line_eq (hG : 1 < G) (hB : 0 < B) (harea : S * L = G * B) (hfour : B ≤ 4)
    (hin : ∀ b < B, b % 2 < S ∧ b / 2 + (G - 1) * 2 < L) : L = 2 * G ∧ 2 * S = B ∧ B = 4 := by
  have hfirst := hin 0 hB
  have htwo := two_le_of_line hG hB harea (by omega) (by omega)
  have hsecond := hin 1 htwo
  have hlast := hin (B - 1) (by omega)
  have hle : 2 * L ≤ G * B := harea ▸ Nat.mul_le_mul_right L hsecond.1
  have hB4 : B = 4 := by
    obtain rfl | rfl | rfl : B = 2 ∨ B = 3 ∨ B = 4 := by omega
    all_goals omega
  obtain ⟨hL, hS⟩ := line_eq hG hB harea (by omega) (by omega)
  exact ⟨hL, hS, hB4⟩

end Line

theorem placed_groups (h : ¬ config.isHMC) (h' : ¬ config.isHBM) (hG : 1 < config.bankgroups)
    (channel : Int) :
    config.Placed channel ↔
      max config.bankX config.bankY = 2 * config.bankgroups ∧
        2 * min config.bankX config.bankY = config.banksPerGroup ∧
        (config.Turned → config.banksPerGroup = 4) := by
  have hB := config.banksPerGroup_pos
  have harea : min config.bankX config.bankY * max config.bankX config.bankY =
      config.bankgroups * config.banksPerGroup := by
    rw [min_mul_max, bankX_mul_bankY h h', Config.banks]
  have hz : ∀ n, config.mapToZ channel n = 0 := fun n => by rw [mapToZ, if_neg h, if_neg h']
  constructor
  · intro hp
    have hin : ∀ b < config.banksPerGroup,
        config.across b < min config.bankX config.bankY ∧
          config.along (config.bankgroups - 1) b < max config.bankX config.bankY :=
      fun b hb => (inside_groups h h' hG _ _).mp (hp.inside _ (by omega) b hb)
    by_cases ht : config.Turned
    · -- the fifth bank of a group would lie on the first one of the next
      have hfour : config.banksPerGroup ≤ 4 := by
        by_contra hlt
        have := hp.apart 0 (by omega) 4 (by omega) 1 hG 0 hB
          ((mapToBank_groups_inj h h' hG).mpr (by simp [across, along, ht]))
          (by rw [hz, hz])
        omega
      simp only [across, along, if_pos ht] at hin
      obtain ⟨hL, hS, hB4⟩ := turned_line_eq hG hB harea hfour hin
      exact ⟨hL, hS, fun _ => hB4⟩
    · simp only [across, along, if_neg ht] at hin
      obtain ⟨hL, hS⟩ := straight_line_eq hG hB harea hin
      exact ⟨hL, hS, fun h => absurd h ht⟩
  · rintro ⟨hL, hS, hfour⟩
    constructor
    · intro g hg b hb
      rw [inside_groups h h' hG, hL, across, along]
      split
      case isTrue ht =>
        have := hfour ht
        omega
      case isFalse => omega
    · intro g hg b hb g' hg' b' hb' hxy _
      rw [mapToBank_groups_inj h h' hG, across, across, along, along] at hxy
      split at hxy
      case isTrue ht =>
        have := hfour ht
        omega
      case isFalse => omega

/-- The banks of a channel lie on the plan, each at a place of its own, exactly when the shape of
the groups fits the plan. -/
theorem placed_iff (config : ThermalConfig) (channel : Int) :
    config.Placed channel ↔ config.GroupsFit := by
  rw [GroupsFit]
  split
  case isTrue h => exact placed_hmc h channel
  case isFalse h =>
    split
    case isTrue h' => exact placed_hbm h h' channel
    case isFalse h' =>
      by_cases hG : 1 < config.bankgroups
      · rw [placed_groups h h' hG channel]
        exact (imp_iff_right hG).symm
      · have := config.bankgroups_pos
        exact iff_of_true (placed_single h h' (by omega) channel) fun h => absurd h hG

theorem four_banks_pos : 0 < 4 := by decide

theorem ddr4_layer_pos (h : DRAMProtocol.ddr4 = .hmc) : 0 < 4 * 4 / 1 := by cases h

/-- The banks of `DDR4_8Gb_x4_3200.ini`, sixteen in a plan of one column. -/
def ddr4x4 : ThermalConfig :=
  { defaults with
    toConfig :=
      { Config.defaults with
        protocol := .ddr4
        bankgroups := 4
        banksPerGroup := 4
        rows := 131072
        bankgroups_pos := four_banks_pos
        banksPerGroup_pos := four_banks_pos }
    deviceWidth := 4
    devicesPerRank := 16
    numXGrids := 256
    numYGrids := 8
    bankAsr := 32
    layer_pos := ddr4_layer_pos }

/-- The third bank of a group lies in the second column. -/
theorem not_placed_ddr4x4 :
    ddr4x4.bankX = 1 ∧ ddr4x4.bankY = 16 ∧ ddr4x4.mapToBank 0 2 = (1, 0) ∧
      ¬ ddr4x4.Placed 0 := by
  have hX : ddr4x4.bankX = 1 := by decide +kernel
  have hbank : ddr4x4.mapToBank 0 2 = (1, 0) := by decide +kernel
  refine ⟨hX, by decide +kernel, hbank, fun hp => ?_⟩
  have hin := (hp.inside 0 (by decide) 2 (by decide)).2.1
  rw [hX] at hin
  rw [show ((0 : Nat) : Int) = 0 from rfl, show ((2 : Nat) : Int) = 2 from rfl, hbank] at hin
  exact absurd hin (by decide)

end ThermalConfig

end Dramsim
