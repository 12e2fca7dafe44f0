import Mathlib.Algebra.Order.Group.Unbundled.Int
import Mathlib.Algebra.Order.Ring.Int
import Mathlib.Data.Int.SuccPred
import Mathlib.Data.Int.ConditionallyCompleteOrder
import Mathlib.Data.Set.Function
import Mathlib.Order.Interval.Set.Defs

/-!
# Tiles

A range is cut into tiles of one length, of which the last may be shorter.  An index runs
through a tile and ends at the last index of the tile or of the range.

Several layers of the range are laid out tile by tile, and in a tile layer by layer.  No place
is used twice and none is left free (`bijOn_position`), although the layers of the last tile
are shorter.
-/

namespace Library

namespace Tiling

variable {size tile i : Int} (it : Int)

/-- The number of tiles. -/
def count (size tile : Int) : Int := (size + tile - 1) / tile

theorem lt_count_iff (ht : 0 < tile) : i < count size tile ↔ tile * i < size := by
  rw [count, Int.lt_iff_add_one_le, Int.le_ediv_iff_mul_le ht, Int.add_mul, Int.one_mul,
    Int.mul_comm]
  omega

theorem count_eq_add_one (ht : 0 < tile) (h : tile * i < size) (h' : size ≤ tile * (i + 1)) :
    count size tile = i + 1 := by
  have hlt := (lt_count_iff ht).mpr h
  have hle : ¬ i + 1 < count size tile := fun hlt' => by
    have := (lt_count_iff ht).mp hlt'
    omega
  omega

/-- The last tile. -/
theorem exists_last (ht : 0 < tile) (hs : 0 < size) :
    ∃ i, 0 ≤ i ∧ tile * i < size ∧ size ≤ tile * (i + 1) := by
  have hle := Int.mul_ediv_self_le (x := size - 1) ht.ne'
  have hlt := Int.lt_ediv_add_one_mul_self (size - 1) ht
  rw [Int.mul_comm] at hlt
  exact ⟨(size - 1) / tile, Int.ediv_nonneg (by omega) ht.le, by omega, by omega⟩

/-- The start of the tile of an index. -/
theorem start_le (ht : 0 < tile) : tile * (it / tile) ≤ it := Int.mul_ediv_self_le (by omega)

theorem lt_next (ht : 0 < tile) : it < tile * (it / tile + 1) := by
  have := Int.lt_ediv_add_one_mul_self it ht
  rwa [Int.mul_comm]

theorem div_eq (ht : 0 < tile) (h : tile * i ≤ it) (h' : it < tile * (i + 1)) : it / tile = i := by
  rw [Int.mul_comm] at h
  rw [Int.mul_add, Int.mul_one, Int.mul_comm] at h'
  exact (Int.ediv_eq_iff_of_pos ht).mpr ⟨h, h'⟩

/-- An index that does not end its tile is followed by one of the same tile. -/
theorem same_tile (ht : 0 < tile) (h : (it + 1) % tile ≠ 0) : (it + 1) / tile = it / tile := by
  have hle := start_le it ht
  have hlt := lt_next it ht
  have hne : it + 1 ≠ tile * (it / tile + 1) := fun heq => h (by rw [heq]; simp)
  exact div_eq _ ht (by omega) (by omega)

/-! ## Layers -/

section Digits

variable {high low base : Int}

theorem digits_ediv (h : 0 ≤ low) (h' : low < base) : (high * base + low) / base = high := by
  rw [Int.add_comm, Int.add_mul_ediv_right _ _ (by omega), Int.ediv_eq_zero_of_lt h h',
    Int.zero_add]

theorem digits_emod (h : 0 ≤ low) (h' : low < base) : (high * base + low) % base = low := by
  rw [Int.add_comm, Int.add_mul_emod_self_right, Int.emod_eq_of_lt h h']

theorem digits_lt {size : Int} (h : low < base) (h' : high < size) (hbase : 0 ≤ base) :
    high * base + low < size * base := by
  have hnext : (high + 1) * base ≤ size * base := Int.mul_le_mul_of_nonneg_right h' hbase
  rw [Int.add_mul, Int.one_mul] at hnext
  omega

/-- Numbers with two digits. -/
theorem bijOn_digits (hbase : 0 < base) (size : Int) :
    Set.BijOn (fun p : Int × Int => p.1 * base + p.2) (Set.Ico 0 size ×ˢ Set.Ico 0 base)
      (Set.Ico 0 (size * base)) := by
  refine (show Set.InvOn (fun x => (x / base, x % base)) _ _ _ from ⟨?_, ?_⟩).bijOn ?_ ?_
  · rintro ⟨high, low⟩ ⟨-, h, h'⟩
    exact Prod.ext (digits_ediv h h') (digits_emod h h')
  · intro x _
    exact Int.ediv_mul_add_emod x base
  · rintro ⟨high, low⟩ ⟨⟨hhigh, hhigh'⟩, hlow, hlow'⟩
    exact ⟨Int.add_nonneg (Int.mul_nonneg hhigh hbase.le) hlow, digits_lt hlow' hhigh' hbase.le⟩
  · rintro x ⟨hx, hx'⟩
    exact ⟨⟨Int.ediv_nonneg hx hbase.le, Int.ediv_lt_of_lt_mul hbase hx'⟩,
      Int.emod_nonneg x hbase.ne', Int.emod_lt_of_pos x hbase⟩

end Digits

/-- The length of a tile. -/
def length (size tile i : Int) : Int := min tile (size - tile * i)

/-- The place of an index in a layer. -/
def position (size tile layers it layer : Int) : Int :=
  it / tile * (tile * layers) + (layer * length size tile (it / tile) + it % tile)

theorem emod_lt_length (ht : 0 < tile) (h : it < size) :
    it % tile < length size tile (it / tile) := by
  have hmod := Int.emod_lt_of_pos it ht
  have hsplit := Int.mul_ediv_add_emod it tile
  unfold length
  omega

/-- The places that are left from a tile on. -/
theorem rest_eq (size tile i layers : Int) :
    i * (tile * layers) + layers * (size - tile * i) = size * layers := by
  rw [Int.mul_sub, Int.mul_comm layers size, Int.mul_comm tile layers, Int.mul_left_comm i,
    Int.mul_comm tile i]
  omega

/-- The places of a tile lie before those of the next one and within the layers. -/
theorem place_lt {layers w : Int} (hl : 0 ≤ layers) (hw : w < layers * length size tile i) :
    w < tile * layers ∧ i * (tile * layers) + w < size * layers := by
  have hle : layers * length size tile i ≤ layers * tile :=
    Int.mul_le_mul_of_nonneg_left (Int.min_le_left _ _) hl
  have hend : layers * length size tile i ≤ layers * (size - tile * i) :=
    Int.mul_le_mul_of_nonneg_left (Int.min_le_right _ _) hl
  have hrest := rest_eq size tile i layers
  rw [Int.mul_comm layers tile] at hle
  omega

/-- Each place lies in the layers of its tile. -/
theorem emod_lt_layers {layers place : Int} (hwidth : 0 < tile * layers)
    (h : place < size * layers) :
    place % (tile * layers) < layers * length size tile (place / (tile * layers)) := by
  have hmod := Int.emod_lt_of_pos place hwidth
  have hsplit := Int.ediv_mul_add_emod place (tile * layers)
  have hrest := rest_eq size tile (place / (tile * layers)) layers
  unfold length
  rcases Int.le_total tile (size - tile * (place / (tile * layers))) with hle | hle
  · rw [Int.min_eq_left hle, Int.mul_comm layers]
    exact hmod
  · rw [Int.min_eq_right hle]
    omega

/-- The index and the layer at a place. -/
def indexAt (size tile layers place : Int) : Int × Int :=
  let i := place / (tile * layers)
  let w := place % (tile * layers)
  (i * tile + w % length size tile i, w / length size tile i)

theorem bijOn_position (ht : 0 < tile) (size : Int) {layers : Int} (hl : 0 < layers) :
    Set.BijOn (fun p : Int × Int => position size tile layers p.1 p.2)
      (Set.Ico 0 size ×ˢ Set.Ico 0 layers) (Set.Ico 0 (size * layers)) := by
  have hwidth : 0 < tile * layers := Int.mul_pos ht hl
  -- the place within the tile, for an index and a layer
  have hwithin {it layer : Int} (hit : it < size) (hlayer : 0 ≤ layer) (hlayer' : layer < layers) :
      0 ≤ layer * length size tile (it / tile) + it % tile ∧
        layer * length size tile (it / tile) + it % tile <
          layers * length size tile (it / tile) := by
    have hmod := Int.emod_nonneg it ht.ne'
    have hlt := emod_lt_length it ht hit
    exact ⟨Int.add_nonneg (Int.mul_nonneg hlayer (hmod.trans hlt.le)) hmod,
      digits_lt hlt hlayer' (hmod.trans hlt.le)⟩
  -- the tile of a place is not empty
  have hlength {place : Int} (h : place < size * layers) :
      0 < length size tile (place / (tile * layers)) :=
    pos_of_mul_pos_right ((Int.emod_nonneg place hwidth.ne').trans_lt (emod_lt_layers hwidth h))
      hl.le
  refine (show Set.InvOn (indexAt size tile layers) _ _ _ from ⟨?_, ?_⟩).bijOn ?_ ?_
  · rintro ⟨it, layer⟩ ⟨⟨_, hit⟩, hlayer, hlayer'⟩
    obtain ⟨hw, hw'⟩ := hwithin hit hlayer hlayer'
    have hlt := (place_lt hl.le hw').1
    have hmod := Int.emod_nonneg it ht.ne'
    have hmod' := emod_lt_length it ht hit
    simp only [indexAt, position, digits_ediv hw hlt, digits_emod hw hlt, digits_ediv hmod hmod',
      digits_emod hmod hmod', Int.ediv_mul_add_emod]
  · rintro place ⟨_, hplace⟩
    have hpos := hlength hplace
    have hmod := Int.emod_nonneg (place % (tile * layers)) hpos.ne'
    have hmod' := Int.emod_lt_of_pos (place % (tile * layers)) hpos
    have htile := hmod'.trans_le (Int.min_le_left _ _)
    simp only [indexAt, position, digits_ediv hmod htile, digits_emod hmod htile,
      Int.ediv_mul_add_emod]
  · rintro ⟨it, layer⟩ ⟨⟨hit, hit'⟩, hlayer, hlayer'⟩
    obtain ⟨hw, hw'⟩ := hwithin hit' hlayer hlayer'
    exact ⟨Int.add_nonneg (Int.mul_nonneg (Int.ediv_nonneg hit ht.le) hwidth.le) hw,
      (place_lt hl.le hw').2⟩
  · rintro place ⟨hplace, hplace'⟩
    have hpos := hlength hplace'
    have hw := Int.emod_nonneg place hwidth.ne'
    have hmod := Int.emod_nonneg (place % (tile * layers)) hpos.ne'
    have hmod' := Int.emod_lt_of_pos (place % (tile * layers)) hpos
    have hend := hmod'.trans_le (Int.min_le_right _ _)
    have htile := Int.mul_nonneg (Int.ediv_nonneg hplace hwidth.le) ht.le
    refine ⟨⟨Int.add_nonneg htile hmod, ?_⟩, Int.ediv_nonneg hw hpos.le, ?_⟩
    · have hcomm := Int.mul_comm tile (place / (tile * layers))
      simp only [indexAt]
      omega
    · exact Int.ediv_lt_of_lt_mul hpos (emod_lt_layers hwidth hplace')

end Tiling

end Library
