import Dramsim.Model.Capacity

/-!
# Safe geometries

The number of ranks is a quotient of a quotient.  A device that is wider than the bus, or whose
banks hold less than a megabyte, makes a rank of zero megabytes, by which the size of the channel
is then divided.  A channel of more ranks than `tREFI` has cycles leaves a refresh interval of
zero.  `capacity_safe_iff` says that nothing else goes wrong.
-/

namespace Dramsim

theorem divide_of_ne {a b : Int} (h : b ≠ 0) : divide a b = .ok (a.tdiv b) := if_neg h

theorem divide_zero (a : Int) : divide a 0 = .error .divisionByZero := if_pos rfl

/-- A quotient is positive if the divisor fits. -/
theorem tdiv_pos_iff {a b : Int} (ha : 0 ≤ a) (hb : 0 < b) : 0 < a.tdiv b ↔ b ≤ a := by
  rw [Int.tdiv_eq_ediv_of_nonneg ha, Int.lt_iff_add_one_le, Int.zero_add,
    Int.le_ediv_iff_mul_le hb, Int.one_mul]

namespace Geometry

variable {g : Geometry}

/-- The entries are positive.  `tREFIb` is not asked for. -/
structure Positive (g : Geometry) : Prop where
  channelSize : 0 < g.channelSize
  busWidth : 0 < g.busWidth
  deviceWidth : 0 < g.deviceWidth
  columns : 0 < g.columns
  rows : 0 < g.rows
  bankgroups : 0 < g.bankgroups
  banksPerGroup : 0 < g.banksPerGroup
  tREFI : 0 < g.tREFI

/-- `megs_per_rank`. -/
def megsPerRank (g : Geometry) : Int :=
  g.megsPerBank * g.banks * g.busWidth.tdiv g.deviceWidth

/-- What `CalculateSize` and the constructor of `Refresh` are meant to end with. -/
def Sized (g : Geometry) : Prop :=
  ∃ sizes interval, g.calculateSize = .ok sizes ∧ g.refreshInterval sizes.ranks = .ok interval ∧
    1 ≤ sizes.ranks ∧ sizes.channelSize = sizes.ranks * sizes.megsPerRank ∧
    0 < sizes.channelSize ∧ 1 ≤ interval

theorem Positive.banks (hg : g.Positive) : 0 < g.banks :=
  Int.mul_pos hg.bankgroups hg.banksPerGroup

theorem Positive.pages (hg : g.Positive) : 0 ≤ g.pageSize * g.rows.tdiv 1024 := by
  have hbits : 0 ≤ g.columns * g.deviceWidth :=
    Int.le_of_lt (Int.mul_pos hg.columns hg.deviceWidth)
  exact Int.mul_nonneg (Int.tdiv_nonneg hbits (by decide))
    (Int.tdiv_nonneg (Int.le_of_lt hg.rows) (by decide))

theorem Positive.megsPerBank (hg : g.Positive) : 0 ≤ g.megsPerBank :=
  Int.tdiv_nonneg hg.pages (by decide)

theorem Positive.devicesPerRank (hg : g.Positive) : 0 ≤ g.busWidth.tdiv g.deviceWidth :=
  Int.tdiv_nonneg (Int.le_of_lt hg.busWidth) (Int.le_of_lt hg.deviceWidth)

theorem Positive.megsPerRank (hg : g.Positive) : 0 ≤ g.megsPerRank :=
  Int.mul_nonneg (Int.mul_nonneg hg.megsPerBank (Int.le_of_lt hg.banks)) hg.devicesPerRank

/-- A rank holds a megabyte if a device fits the bus and its banks hold a megabyte. -/
theorem megsPerRank_pos_iff (hg : g.Positive) :
    0 < g.megsPerRank ↔ g.deviceWidth ≤ g.busWidth ∧ 1024 ≤ g.pageSize * g.rows.tdiv 1024 := by
  rw [← tdiv_pos_iff (Int.le_of_lt hg.busWidth) hg.deviceWidth, ← tdiv_pos_iff hg.pages (by decide)]
  constructor
  · intro h
    unfold Geometry.megsPerRank at h
    refine ⟨lt_of_le_of_ne hg.devicesPerRank ?_, lt_of_le_of_ne hg.megsPerBank ?_⟩
    · intro hzero
      rw [← hzero, Int.mul_zero] at h
      exact Int.lt_irrefl 0 h
    · intro hzero
      have hbank : g.megsPerBank = 0 := hzero.symm
      rw [hbank, Int.zero_mul, Int.zero_mul] at h
      exact Int.lt_irrefl 0 h
  · rintro ⟨hdevices, hbank⟩
    exact Int.mul_pos (Int.mul_pos hbank hg.banks) hdevices

/-- A rank of no megabytes ends the process. -/
theorem calculateSize_of_zero (hg : g.Positive) (h : g.megsPerRank = 0) :
    g.calculateSize = .error .divisionByZero := by
  have hsize : ¬ g.channelSize < g.megsPerRank := by
    have := hg.channelSize
    omega
  unfold calculateSize
  rw [divide_of_ne (Int.ne_of_gt hg.deviceWidth)]
  show (if g.channelSize < g.megsPerRank then _ else _) = _
  rw [if_neg hsize]
  show (divide g.channelSize g.megsPerRank >>= _) = _
  rw [h, divide_zero]
  rfl

/-- Otherwise the channel holds the ranks that fit, and at least one. -/
theorem calculateSize_of_pos (hg : g.Positive) (h : 0 < g.megsPerRank) :
    ∃ sizes, g.calculateSize = .ok sizes ∧ sizes.megsPerRank = g.megsPerRank ∧
      sizes.ranks = max 1 (g.channelSize.tdiv g.megsPerRank) ∧
      sizes.channelSize = sizes.ranks * sizes.megsPerRank := by
  have hfits := tdiv_pos_iff (Int.le_of_lt hg.channelSize) h
  unfold calculateSize
  rw [divide_of_ne (Int.ne_of_gt hg.deviceWidth)]
  show ∃ sizes, (if g.channelSize < g.megsPerRank then _ else _) = _ ∧ _
  split
  · rename_i hlt
    refine ⟨_, rfl, rfl, ?_, (Int.one_mul _).symm⟩
    dsimp only
    omega
  · rename_i hle
    show ∃ sizes, (divide g.channelSize g.megsPerRank >>= _) = _ ∧ _
    rw [divide_of_ne (Int.ne_of_gt h)]
    refine ⟨_, rfl, rfl, ?_, rfl⟩
    dsimp only
    omega

/-- The condition on the refresh interval: for the staggered policy there are no more ranks than
`tREFI` has cycles, and for refreshes of single banks `tREFIb` is positive. -/
def IntervalFits (g : Geometry) : Prop :=
  match g.refreshPolicy with
  | .rankLevelSimultaneous => True
  | .bankLevelStaggered => 1 ≤ g.tREFIb
  | .rankLevelStaggered => g.channelSize.tdiv g.megsPerRank ≤ g.tREFI

theorem refreshInterval_pos_iff (hg : g.Positive) {ranks : Int}
    (hranks : ranks = max 1 (g.channelSize.tdiv g.megsPerRank)) :
    (∃ interval, g.refreshInterval ranks = .ok interval ∧ 1 ≤ interval) ↔ g.IntervalFits := by
  have htREFI := hg.tREFI
  unfold refreshInterval IntervalFits
  cases g.refreshPolicy with
  | rankLevelSimultaneous =>
      refine iff_of_true ⟨_, rfl, ?_⟩ trivial
      omega
  | bankLevelStaggered =>
      constructor
      · rintro ⟨interval, h, hpos⟩
        cases h
        exact hpos
      · exact fun hpos => ⟨_, rfl, hpos⟩
  | rankLevelStaggered =>
      have hdiv : divide g.tREFI ranks = .ok (g.tREFI.tdiv ranks) := divide_of_ne (by omega)
      have hpos := tdiv_pos_iff (b := ranks) (Int.le_of_lt htREFI) (by omega)
      dsimp only
      rw [hdiv]
      constructor
      · rintro ⟨interval, h, hinterval⟩
        cases h
        omega
      · intro hle
        exact ⟨_, rfl, by omega⟩

/-- For entries that are positive, the sizes and the refresh interval come out positive, and
nothing is divided by zero, if and only if a device fits the bus, a bank holds a megabyte, and the
interval does not vanish. -/
theorem capacity_safe_iff (hg : g.Positive) :
    g.Sized ↔ g.deviceWidth ≤ g.busWidth ∧ 1024 ≤ g.pageSize * g.rows.tdiv 1024 ∧
      g.IntervalFits := by
  rw [← and_assoc, ← megsPerRank_pos_iff hg]
  constructor
  · rintro ⟨sizes, interval, hsizes, hinterval, _, _, _, hpos⟩
    have hmegs : 0 < g.megsPerRank := by
      by_contra hnot
      have hzero : g.megsPerRank = 0 := by
        have := hg.megsPerRank
        omega
      rw [calculateSize_of_zero hg hzero] at hsizes
      cases hsizes
    obtain ⟨sizes', hsizes', _, hranks, _⟩ := calculateSize_of_pos hg hmegs
    rw [hsizes] at hsizes'
    cases hsizes'
    exact ⟨hmegs, (refreshInterval_pos_iff hg hranks).mp ⟨interval, hinterval, hpos⟩⟩
  · rintro ⟨hmegs, hfits⟩
    obtain ⟨sizes, hsizes, hrank, hranks, hchannel⟩ := calculateSize_of_pos hg hmegs
    obtain ⟨interval, hinterval, hpos⟩ := (refreshInterval_pos_iff hg hranks).mpr hfits
    have hone : 1 ≤ sizes.ranks := by omega
    refine ⟨sizes, interval, hsizes, hinterval, hone, hchannel, ?_, hpos⟩
    rw [hchannel]
    exact Int.mul_pos (by omega) (hrank ▸ hmegs)

/-- The geometry of `HBM2_8Gb_x128.ini`. -/
def hbm2 : Geometry := (hbm2File { Config.hbm2Rank with channels := 8, columns := 128 }).geometry

theorem capacity_safe_hbm2 : hbm2.Positive ∧ hbm2.Sized := by
  have hpos : hbm2.Positive := by constructor <;> decide
  refine ⟨hpos, (capacity_safe_iff hpos).mpr ⟨by decide, by decide, ?_⟩⟩
  show hbm2.channelSize.tdiv hbm2.megsPerRank ≤ hbm2.tREFI
  decide

/-- A device wider than the bus, a bank of half a megabyte, and more ranks than `tREFI` has
cycles. -/
theorem capacity_unsafe :
    (∃ g : Geometry, g.Positive ∧ g.busWidth < g.deviceWidth ∧
      g.calculateSize = .error .divisionByZero) ∧
    (∃ g : Geometry, g.Positive ∧ g.rows = 512 ∧ g.calculateSize = .error .divisionByZero) ∧
    ∃ g : Geometry, ∃ sizes, g.Positive ∧ g.calculateSize = .ok sizes ∧
      g.refreshInterval sizes.ranks = .ok 0 := by
  refine ⟨⟨{ busWidth := 8, deviceWidth := 16 }, ?_, by decide, rfl⟩,
    ⟨{ rows := 512 }, ?_, rfl, rfl⟩,
    ⟨{ channelSize := 8192, tREFI := 3 }, _, ?_, rfl, rfl⟩⟩ <;>
    constructor <;> decide

end Geometry

end Dramsim
