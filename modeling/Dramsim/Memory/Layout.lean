import Dramsim.Library.Tiling
import Dramsim.Model.DramSystem

/-!
# The layout of the PIM data

The vectors of a stream are laid out in a bank column by column from a base row on.  The column
offset of a vector is computed from the iterators: inputs and outputs go tile by tile through
`M`, where the last tile may be shorter, and weights through equal tiles.  With one cut the
offsets of a stream are the first numbers, each of one vector, so that no two vectors share a
column and no column of the footprint is skipped (`Dense`).  This asks that the offsets are
values of `int` (`FitsInt`): they wrap otherwise, and two vectors may share a column
(`layout_collides`).
-/

namespace Dramsim

open Library

/-- The cut at an input: the vector `m` of a tile of `K`. -/
def Cut.atInput (c : Cut) (m kTile : Int) : Cut := { c with MIt := m, KTileIt := kTile }

/-- The cut at a weight: the vector `n` of a tile of `N` and a tile of `K`. -/
def Cut.atWeight (c : Cut) (nTile kTile n : Int) : Cut :=
  { c with NIt := nTile * 128 + n, KTileIt := kTile }

/-- The cut at an output: the vector `m` of a tile of `N`. -/
def Cut.atOutput (c : Cut) (m nTile : Int) : Cut := { c with MOutIt := m, NOutTileIt := nTile }

namespace Dataflow

variable {config : Config} {d : Dataflow} {c : Cut} {kTile m nTile size tile : Int}

/-! ## Columns -/

/-- The row and the column of an offset. -/
def location (config : Config) (base offset : Int) : Int × Int :=
  (base + offset.tdiv (rowColumns config), offset.tmod (rowColumns config))

/-- The first `size` columns from the row `base` on. -/
def footprint (config : Config) (base size : Int) : Set (Int × Int) :=
  {p | base ≤ p.1 ∧ p.2 ∈ Set.Ico 0 (rowColumns config) ∧
    (p.1 - base) * rowColumns config + p.2 < size}

theorem bijOn_location (hrow : 0 < rowColumns config) (base size : Int) :
    Set.BijOn (location config base) (Set.Ico 0 size) (footprint config base size) := by
  refine (show Set.InvOn (fun p => (p.1 - base) * rowColumns config + p.2) _ _ _ from
    ⟨?_, ?_⟩).bijOn ?_ ?_
  · intro offset _
    simp only [location, add_sub_cancel_left]
    exact Int.tdiv_mul_add_tmod offset _
  · rintro ⟨row, column⟩ ⟨hbase, ⟨h, h'⟩, _⟩
    have hoffset : 0 ≤ (row - base) * rowColumns config + column :=
      Int.add_nonneg (Int.mul_nonneg (Int.sub_nonneg_of_le hbase) hrow.le) h
    simp only [location, Int.tdiv_eq_ediv_of_nonneg hoffset, Int.tmod_eq_emod_of_nonneg hoffset,
      Tiling.digits_ediv h h', Tiling.digits_emod h h', add_sub_cancel]
  · rintro offset ⟨h, h'⟩
    refine ⟨Int.le_add_of_nonneg_right (Int.tdiv_nonneg h hrow.le),
      ⟨Int.tmod_nonneg _ h, Int.tmod_lt_of_pos _ hrow⟩, ?_⟩
    simpa only [location, add_sub_cancel_left, Int.tdiv_mul_add_tmod] using h'
  · rintro ⟨row, column⟩ ⟨hbase, ⟨h, _⟩, hsize⟩
    exact ⟨Int.add_nonneg (Int.mul_nonneg (Int.sub_nonneg_of_le hbase) hrow.le) h, hsize⟩

/-- The vectors of a stream lie one after the other from a base row on.  The row of an address
is the location's as an `int`. -/
structure Dense (config : Config) {α : Type} (vectors : Set α) (offset : α → Int) (size : Int)
    (base : Int) (address : α → Address) : Prop where
  offsets : Set.BijOn offset vectors (Set.Ico 0 size)
  columns : Set.BijOn (fun v => location config base (offset v)) vectors
    (footprint config base size)
  row (v : α) : (address v).row = toInt (location config base (offset v)).1
  column (v : α) : (address v).column = (location config base (offset v)).2

theorem Dense.of_offsets {α : Type} {vectors : Set α} {offset : α → Int} {base : Int}
    {channel bk bankOffset : α → Int} (hrow : 0 < rowColumns config)
    (h : Set.BijOn offset vectors (Set.Ico 0 size)) :
    Dense config vectors offset size base fun v =>
      address config (channel v) (bk v) (bankOffset v) base (offset v) :=
  ⟨h, (bijOn_location hrow base size).comp h, fun _ => rfl, fun _ => rfl⟩

/-! ## Offsets -/

theorem tiles_eq (hsize : 1 ≤ size) (htile : 0 < tile) :
    (size - 1).tdiv tile + 1 = Tiling.count size tile := by
  rw [Int.tdiv_eq_ediv_of_nonneg (by omega), Tiling.count,
    show size + tile - 1 = size - 1 + 1 * tile by omega, Int.add_mul_ediv_right _ _ htile.ne']

/-- The length of the current tile, as the source computes it. -/
theorem currentTile_eq {it : Int} (htile : 0 < tile) (hit : 0 ≤ it) (hlt : it < size) :
    (if size < tile * (it.tdiv tile + 1) then size.tmod tile else tile) =
      Tiling.length size tile (it / tile) := by
  have hstart := Tiling.start_le it htile
  rw [Int.tdiv_eq_ediv_of_nonneg hit, Int.tmod_eq_emod_of_nonneg (by omega), Tiling.length]
  rw [Int.mul_add, Int.mul_one]
  split
  · next hpart =>
    have hdiv : size / tile = it / tile :=
      Tiling.div_eq size htile (hstart.trans hlt.le) (by rw [Int.mul_add, Int.mul_one]; exact hpart)
    rw [Int.emod_def, hdiv]
    omega
  · omega

section Offsets

variable (hv : d.vcuts = 1) (hT : 1 ≤ d.mTileSize)

include hT in
theorem inputOffset_eq (hm : 0 ≤ m) (hlt : m < c.M) :
    d.inputOffset config (c.atInput m kTile) =
      Tiling.position c.M d.mTileSize (d.kTiles config c) m kTile := by
  have hit : d.mTileIt (c.atInput m kTile) = m / d.mTileSize := Int.tdiv_eq_ediv_of_nonneg hm
  have hmod : (c.atInput m kTile).MIt.tmod d.mTileSize = m % d.mTileSize :=
    Int.tmod_eq_emod_of_nonneg hm
  have hcurrent : d.mCurrentTileSize (c.atInput m kTile) =
      Tiling.length c.M d.mTileSize (m / d.mTileSize) := currentTile_eq hT hm hlt
  rw [inputOffset, hit, hcurrent, hmod, Int.add_assoc]
  rfl

include hv hT in
theorem outputOffset_eq (hdf : d.df = 0) (hN : 1 ≤ c.N) (hm : 0 ≤ m) (hlt : m < c.M) :
    d.outputOffset (c.atOutput m nTile) =
      Tiling.position c.M d.mTileSize (Tiling.count c.N 128) m nTile := by
  have hne : d.df ≠ 1 := by omega
  have hsize : d.mTileSizeOut = d.mTileSize := if_neg hne
  have hall : d.mOut (c.atOutput m nTile) = c.M := if_neg hne
  have hit : d.mOutTileIt (c.atOutput m nTile) = m / d.mTileSize := by
    rw [mOutTileIt, hsize]
    exact Int.tdiv_eq_ediv_of_nonneg hm
  have hmod : (c.atOutput m nTile).MOutIt.tmod d.mTileSize = m % d.mTileSize :=
    Int.tmod_eq_emod_of_nonneg hm
  have hcurrent : d.mOutCurrentTileSize (c.atOutput m nTile) =
      Tiling.length c.M d.mTileSize (m / d.mTileSize) := by
    rw [mOutCurrentTileSize, hall, mOutTileIt, hsize]
    exact currentTile_eq hT hm hlt
  have htiles : d.nTileNumCh (c.atOutput m nTile) = Tiling.count c.N 128 := by
    have hnum : (c.N - 1).tdiv d.nTileSizeOut + 1 = Tiling.count c.N 128 := by
      rw [nTileSizeOut, if_neg hne, nTileSize, hv]
      exact tiles_eq hN (by decide)
    simp only [nTileNumCh, hv, Int.tdiv_one, Int.tmod_one, Int.lt_irrefl, if_false, Int.add_zero]
    exact hnum
  rw [outputOffset, hsize, hit, htiles, hcurrent, hmod, hv, Int.tdiv_one, Int.add_assoc]
  rfl

include hv in
theorem nTileSizePerBank_le (config : Config) (c : Cut) : d.nTileSizePerBank config c ≤ 128 := by
  have hshare : (128 - 1 : Int).tdiv (d.weightBanks config) ≤ 128 - 1 :=
    Int.tdiv_le_self _ (by decide)
  rw [nTileSizePerBank, nTileSize, hv, Int.tdiv_one]
  omega

include hv in
theorem nTileSizePerBank_pos (hN : 1 ≤ c.N) (hbanks : 0 ≤ d.weightBanks config) :
    0 < d.nTileSizePerBank config c := by
  have hshare : 0 ≤ (128 - 1 : Int).tdiv (d.weightBanks config) :=
    Int.tdiv_nonneg (by decide) hbanks
  rw [nTileSizePerBank, nTileSize, hv, Int.tdiv_one]
  omega

include hv in
theorem weightOffset_eq {n : Int} (htile : 0 ≤ nTile) (hn : 0 ≤ n)
    (hlt : n < d.nTileSizePerBank config c) :
    d.weightOffset config (c.atWeight nTile kTile n) =
      (nTile * d.kTiles config c + kTile) * d.nTileSizePerBank config c + n := by
  have hlt' : n < 128 := hlt.trans_le (nTileSizePerBank_le hv config c)
  have hnonneg : 0 ≤ nTile * 128 + n := Int.add_nonneg (Int.mul_nonneg htile (by decide)) hn
  have hsize : d.nTileSize = 128 := by rw [nTileSize, hv, Int.tdiv_one]
  have hit : d.nTileIt (c.atWeight nTile kTile n) = nTile := by
    rw [nTileIt, hsize]
    exact (Int.tdiv_eq_ediv_of_nonneg hnonneg).trans (Tiling.digits_ediv hn hlt')
  have hmod : (c.atWeight nTile kTile n).NIt.tmod d.nTileSize = n := by
    rw [hsize]
    exact (Int.tmod_eq_emod_of_nonneg hnonneg).trans (Tiling.digits_emod hn hlt')
  rw [weightOffset, hit, hmod, Int.add_mul, Int.mul_assoc, Int.mul_comm (d.kTiles config c)]
  rfl

end Offsets

/-- The weight offsets: numbers of three digits. -/
theorem bijOn_weights {nTiles kTiles : Int} (hk : 0 < kTiles) (hsize : 0 < size) :
    Set.BijOn (fun p : Int × Int × Int => (p.1 * kTiles + p.2.1) * size + p.2.2)
      (Set.Ico 0 nTiles ×ˢ Set.Ico 0 kTiles ×ˢ Set.Ico 0 size)
      (Set.Ico 0 (nTiles * kTiles * size)) := by
  have htiles := Tiling.bijOn_digits hk nTiles
  refine (Tiling.bijOn_digits hsize (nTiles * kTiles)).comp
    (f := fun p : Int × Int × Int => (p.1 * kTiles + p.2.1, p.2.2)) ⟨?_, ?_, ?_⟩
  · rintro ⟨nTile, kTile, n⟩ ⟨hn, hkTile, hoffset⟩
    exact ⟨htiles.mapsTo (x := (nTile, kTile)) ⟨hn, hkTile⟩, hoffset⟩
  · rintro ⟨nTile, kTile, n⟩ ⟨hn, hkTile, _⟩ ⟨nTile', kTile', n'⟩ ⟨hn', hkTile', _⟩ heq
    have htile : (nTile, kTile) = (nTile', kTile') :=
      htiles.injOn ⟨hn, hkTile⟩ ⟨hn', hkTile'⟩ (congrArg Prod.fst heq)
    cases htile
    cases (show n = n' from congrArg Prod.snd heq)
    rfl
  · rintro ⟨tile, n⟩ ⟨htile, hn⟩
    obtain ⟨⟨nTile, kTile⟩, ⟨hnTile, hkTile⟩, rfl⟩ := htiles.surjOn htile
    exact ⟨(nTile, kTile, n), ⟨hnTile, hkTile, hn⟩, rfl⟩

/-- No sum and no product of the address computation leaves the range of `int`. -/
structure FitsInt (config : Config) (d : Dataflow) (c : Cut) : Prop where
  tileEnd : c.M + d.mTileSize ≤ 2 ^ 31
  inputs : c.M * Tiling.count c.K (d.kTileSize config c) < 2 ^ 31
  inputTile : d.mTileSize * Tiling.count c.K (d.kTileSize config c) < 2 ^ 31
  weights : Tiling.count c.N 128 * Tiling.count c.K (d.kTileSize config c) *
    d.nTileSizePerBank config c < 2 ^ 31
  outputs : d.df = 0 → c.M * Tiling.count c.N 128 < 2 ^ 31
  outputTile : d.df = 0 → d.mTileSize * Tiling.count c.N 128 < 2 ^ 31

/-- Offsets below a size that is an `int` are stored as they are. -/
theorem bijOn_toInt {α : Type} {vectors : Set α} {offset : α → Int}
    (h : Set.BijOn offset vectors (Set.Ico 0 size)) (hsize : size < 2 ^ 31) :
    Set.BijOn (fun v => toInt (offset v)) vectors (Set.Ico 0 size) := by
  refine h.congr fun v hv => ?_
  obtain ⟨hnonneg, hlt⟩ := h.mapsTo hv
  exact (toInt_of_nonneg hnonneg (hlt.trans hsize)).symm

/-- The layout is free of collisions and gaps.  The divisors of the address computation are
required to be positive, and its products to be values of `int`. -/
theorem layout_dense (hv : d.vcuts = 1) (hh : d.hcuts = 1) (hT : 1 ≤ d.mTileSize) (hN : 1 ≤ c.N)
    (hK : 1 ≤ c.K) (hchannels : 0 < config.channels) (hrow : 0 < config.columns / config.BL)
    (hbanks : 0 < d.weightBanks config) (hfits : d.FitsInt config c) (i j k : Nat) :
    d.kTileSize config c = min (16 * (config.channels : Int)) c.K ∧
    Dense config
      (Set.Ico 0 c.M ×ˢ Set.Ico 0 (Tiling.count c.K (d.kTileSize config c)))
      (fun p => d.inputColOffset config (c.atInput p.1 p.2))
      (c.M * Tiling.count c.K (d.kTileSize config c)) c.baseRowsIn
      (fun p => d.inputAddress config i (c.atInput p.1 p.2) j k) ∧
    Dense config
      (Set.Ico 0 (Tiling.count c.N 128) ×ˢ Set.Ico 0 (Tiling.count c.K (d.kTileSize config c)) ×ˢ
        Set.Ico 0 (d.nTileSizePerBank config c))
      (fun p => d.weightColOffset config (c.atWeight p.1 p.2.1 p.2.2))
      (Tiling.count c.N 128 * Tiling.count c.K (d.kTileSize config c) *
        d.nTileSizePerBank config c) c.baseRowsW
      (fun p => d.weightAddress config i (c.atWeight p.1 p.2.1 p.2.2) j k) ∧
    (d.df = 0 →
      Dense config (Set.Ico 0 c.M ×ˢ Set.Ico 0 (Tiling.count c.N 128))
        (fun p => d.outputColOffset (c.atOutput p.1 p.2)) (c.M * Tiling.count c.N 128)
        c.baseRowsOut (fun p => d.outputAddress config i (c.atOutput p.1 p.2) j k)) := by
  have hsize : d.kTileSize config c = min (16 * (config.channels : Int)) c.K := by
    rw [kTileSize, cutHeight, hh, Int.tdiv_one, Int.mul_comm]
  have hkTiles : d.kTiles config c = Tiling.count c.K (d.kTileSize config c) :=
    tiles_eq hK (by omega)
  have hk : 0 < Tiling.count c.K (d.kTileSize config c) :=
    (Tiling.lt_count_iff (by omega)).mpr (by omega)
  have hcolumns : 0 < rowColumns config := Int.natCast_pos.mpr hrow
  refine ⟨hsize, .of_offsets hcolumns ?_, .of_offsets hcolumns ?_,
    fun hdf => .of_offsets hcolumns ?_⟩
  · refine bijOn_toInt ((Tiling.bijOn_position hT c.M hk).congr fun p hp => ?_) hfits.inputs
    rw [inputOffset_eq hT hp.1.1 hp.1.2, hkTiles]
  · refine bijOn_toInt ((bijOn_weights hk (nTileSizePerBank_pos hv hN hbanks.le)).congr
      fun p hp => ?_) hfits.weights
    rw [weightOffset_eq hv hp.1.1 hp.2.2.1 hp.2.2.2, hkTiles]
  · have hn : 0 < Tiling.count c.N 128 := (Tiling.lt_count_iff (by decide)).mpr (by omega)
    refine bijOn_toInt ((Tiling.bijOn_position hT c.M hn).congr fun p hp => ?_)
      (hfits.outputs hdf)
    rw [outputOffset_eq hv hT hdf hN hp.1.1 hp.1.2]

/-- Three inputs in tiles of two, with two tiles of `K`: the last tile is shorter. -/
theorem layout_dense_inputs :
    Set.BijOn (fun p =>
        ({ vcuts := 1, hcuts := 1, df := 0, mTileSize := 2 } : Dataflow).inputColOffset .hbm2Rank
          (({ M := 3, N := 1, K := 32 } : Cut).atInput p.1 p.2))
      (Set.Ico 0 3 ×ˢ Set.Ico 0 2) (Set.Ico 0 6) :=
  (@layout_dense .hbm2Rank { vcuts := 1, hcuts := 1, df := 0, mTileSize := 2 }
    { M := 3, N := 1, K := 32 } rfl rfl (by decide) (by decide) (by decide) (by decide) (by decide)
    (by decide) ⟨by decide, by decide, by decide, by decide, by decide, by decide⟩
    0 0 0).2.1.offsets

/-- With one channel and `K = 2 ^ 20` there are 65536 tiles of `K`.  The inputs 0 and 65536 are
`2 ^ 32` columns apart and share one. -/
theorem layout_collides :
    ¬ Set.InjOn (fun p : Int × Int =>
        ({ vcuts := 1, hcuts := 1, df := 0, mTileSize := 256 } : Dataflow).inputColOffset .hbm2Rank
          (({ M := 65537, N := 1, K := 2 ^ 20 } : Cut).atInput p.1 p.2))
      (Set.Ico 0 65537 ×ˢ Set.Ico 0 65536) := by
  intro h
  have heq : ((0 : Int), (0 : Int)) = (65536, 0) :=
    h ⟨by decide, by decide⟩ ⟨by decide, by decide⟩ (by decide)
  cases heq

end Dataflow

end Dramsim
