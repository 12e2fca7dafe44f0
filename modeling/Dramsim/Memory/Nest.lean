import Dramsim.Library.Tiling
import Dramsim.Memory.Cuts

/-!
# The loop nest of the input iterators

The iterators of a cut walk through a loop nest: over the tiles of `M`, the tiles of `N`
and the tiles of `K`, and in each of these over its weights and then over its inputs.
`InNest` says where the iterators are while the nest goes on, and `Streams` where an input
takes them.
-/

namespace Dramsim

namespace JedecDRAMSystem

variable {config : Config}

/-! ## Where an input leads -/

/-- The first input of a tile whose `K` tiles come to an end starts the outputs. -/
def startOutput (config : Config) (d : Dataflow) (c : Cut) : Cut :=
  { c with
    outCnt :=
      if d.lastKTile config c ∧ c.MIt.tmod d.mTileSize = 0 then Dataflow.outDelay config
      else c.outCnt }

/-- The iterators after an input, for the cut with its outputs started.  The flag says that
the nest ends. -/
inductive Streams (config : Config) (d : Dataflow) (c : Cut) : Cut → Bool → Prop where
  /-- The tile goes on. -/
  | column : (c.MIt + 1).tmod d.mTileSize ≠ 0 → c.MIt + 1 ≠ c.M →
      Streams config d c { c with MIt := c.MIt + 1 } false
  /-- The next tile of `K`. -/
  | kTile : ¬ d.lastKTile config c →
      Streams config d c
        { c with
          inCnt := d.inDelay config, iwStatus := .streamed
          MIt := d.mTileSize * d.mTileIt c, KTileIt := c.KTileIt + 1 } false
  /-- The next tile of `N`. -/
  | nTile : d.lastKTile config c → d.nTileSize * (d.nTileIt c + 1) < c.N →
      Streams config d c
        { c with
          inCnt := d.inDelay config, iwStatus := .streamed
          MIt := d.mTileSize * d.mTileIt c, KTileIt := 0
          NIt := d.nTileSize * (d.nTileIt c + 1) } false
  /-- The next tile of `M`. -/
  | mTile : d.lastKTile config c → c.N ≤ d.nTileSize * (d.nTileIt c + 1) →
      d.mTileSize * (d.mTileIt c + 1) < c.M →
      Streams config d c
        { c with
          inCnt := d.inDelay config, iwStatus := .streamed
          MIt := d.mTileSize * (d.mTileIt c + 1), KTileIt := 0, NIt := 0 } false
  /-- The nest is complete. -/
  | all : d.lastKTile config c → c.N ≤ d.nTileSize * (d.nTileIt c + 1) →
      c.M ≤ d.mTileSize * (d.mTileIt c + 1) →
      Streams config d c
        { c with
          inCnt := -1, iwStatus := .streamed
          MIt := d.mTileSize * (d.mTileIt c + 1), KTileIt := 0, NIt := 0 } true

theorem nextInput_streams (d : Dataflow) (c : Cut) :
    Streams config d (startOutput config d c) (d.nextInput config c).1
      (d.nextInput config c).2 := by
  have hstart : (if d.lastKTile config c ∧ c.MIt.tmod d.mTileSize = 0 then
      { c with outCnt := Dataflow.outDelay config } else c) = startOutput config d c := by
    unfold startOutput
    split <;> rfl
  have hnext : d.nextInput config c =
      if ((startOutput config d c).MIt + 1).tmod d.mTileSize = 0 ∨
          (startOutput config d c).MIt + 1 = (startOutput config d c).M then
        d.nextTile config (startOutput config d c)
      else
        ({ startOutput config d c with MIt := (startOutput config d c).MIt + 1 }, false) := by
    rw [← hstart]
    unfold Dataflow.nextInput
    split_ifs <;> rfl
  rw [hnext]
  generalize startOutput config d c = c
  split_ifs with hend
  · unfold Dataflow.nextTile
    dsimp only
    split_ifs with hk hn hm
    · exact .all hk hn hm
    · exact .mTile hk hn (Int.not_le.mp hm)
    · exact .nTile hk (Int.not_le.mp hn)
    · exact .kTile hk
  · rw [not_or] at hend
    exact .column hend.1 hend.2

/-! ## Positions -/

/-- The input iterators of a cut while its loop nest goes on. -/
structure InNest (config : Config) (d : Dataflow) (c : Cut) : Prop where
  MIt_nonneg : 0 ≤ c.MIt
  MIt_lt : c.MIt < c.M
  NIt_nonneg : 0 ≤ c.NIt
  nTile_lt : d.nTileSize * d.nTileIt c < c.N
  K_pos : 0 < c.K
  KTileIt_nonneg : 0 ≤ c.KTileIt
  kTile_lt : c.KTileIt * d.kTileSize config c < c.K
  /-- Inputs are at the start of a tile unless they are streamed. -/
  input : c.iwStatus ≠ .streaming → c.MIt = d.mTileSize * d.mTileIt c
  /-- Weights are at the start of a tile unless they are loaded. -/
  weight : c.iwStatus ≠ .loading → c.NIt = d.nTileSize * d.nTileIt c
  /-- No weight before the current one was the last of its tile. -/
  weights : ∀ n, d.nTileSize * d.nTileIt c < n → n ≤ c.NIt →
    n.tmod (d.nTileSizePerBank config c) ≠ 0
  goesOn : c.inCnt ≠ -1

/-- The loop nest of a cut is complete. -/
structure Ended (c : Cut) : Prop where
  inCnt : c.inCnt = -1
  status : c.iwStatus = .streamed

section

variable {d : Dataflow} (hd : d.SingleCut) {c c' : Cut}

include hd

theorem weightBanks_nonneg (config : Config) : 0 ≤ d.weightBanks config := by
  unfold Dataflow.weightBanks Dataflow.weightBanksReduce
  rw [hd.cutWidth]
  exact Int.tdiv_nonneg (Int.natCast_nonneg _) (by split <;> decide)

theorem nTileSizePerBank_pos (config : Config) (hN : 0 < c.N) :
    0 < d.nTileSizePerBank config c := by
  have := Int.tdiv_nonneg (a := d.nTileSize - 1) (by rw [hd.nTileSize]; decide)
    (weightBanks_nonneg hd config)
  unfold Dataflow.nTileSizePerBank
  omega

theorem nTileSizePerBank_le (config : Config) (c : Cut) : d.nTileSizePerBank config c ≤ 128 := by
  have := Int.tdiv_le_self (a := d.nTileSize - 1) (d.weightBanks config)
    (by rw [hd.nTileSize]; decide)
  rw [hd.nTileSize] at this
  unfold Dataflow.nTileSizePerBank
  rw [hd.nTileSize]
  omega

theorem nTileIt_eq (h : 0 ≤ c.NIt) : d.nTileIt c = c.NIt / 128 := by
  rw [Dataflow.nTileIt, hd.nTileSize, Int.tdiv_eq_ediv_of_nonneg h]

omit hd in
theorem mTileIt_eq (h : 0 ≤ c.MIt) : d.mTileIt c = c.MIt / d.mTileSize :=
  Int.tdiv_eq_ediv_of_nonneg h

namespace InNest

theorem nTileIt_nonneg (h : InNest config d c) : 0 ≤ d.nTileIt c := by
  rw [nTileIt_eq hd h.NIt_nonneg]
  exact Int.ediv_nonneg h.NIt_nonneg (by decide)

theorem mTileIt_nonneg (h : InNest config d c) : 0 ≤ d.mTileIt c := by
  rw [mTileIt_eq h.MIt_nonneg]
  exact Int.ediv_nonneg h.MIt_nonneg hd.mTileSize_pos.le

/-- A bank has given its share of weights before the tile is over. -/
theorem weight_in_tile (h : InNest config d c) (hlast : ¬ d.lastWeight config c (c.NIt + 1)) :
    (c.NIt + 1) % 128 ≠ 0 := by
  have hN : 0 < c.N := by
    have := h.nTile_lt
    have := h.nTileIt_nonneg hd
    rw [hd.nTileSize] at *
    omega
  have hpos := nTileSizePerBank_pos hd config hN
  have hle := nTileSizePerBank_le hd config c
  have hweights := h.weights
  have hnt := nTileIt_eq hd h.NIt_nonneg
  rw [hd.nTileSize, hnt] at hweights
  intro hzero
  unfold Dataflow.lastWeight at hlast
  rw [hd.nTileSize] at hlast
  have hnonneg := h.NIt_nonneg
  generalize d.nTileSizePerBank config c = np at *
  rcases eq_or_ne np 128 with rfl | hne
  · exact hlast ⟨by rw [Int.tmod_eq_emod_of_nonneg (by omega)]; exact hzero, .inl rfl⟩
  · -- some multiple of `np` lies after the start of the tile and at most `np` above it
    have hmul := Library.Tiling.lt_next (128 * (c.NIt / 128)) hpos
    have hmul' := Library.Tiling.start_le (128 * (c.NIt / 128)) hpos
    refine hweights (np * (128 * (c.NIt / 128) / np + 1)) hmul ?_ (Int.mul_tmod_right ..)
    rw [Int.mul_add, Int.mul_one]
    omega

/-- Weights do not leave their tile. -/
theorem nTileIt_nextWeight (h : InNest config d c) :
    d.nTileIt (d.nextWeight config c) = d.nTileIt c := by
  unfold Dataflow.nextWeight
  split_ifs with hlast
  · rw [Dataflow.nTileIt, hd.nTileSize]
    exact Int.mul_tdiv_cancel_left _ (by decide)
  · rw [nTileIt_eq hd h.NIt_nonneg, nTileIt_eq hd (Int.add_nonneg h.NIt_nonneg (by decide))]
    exact Library.Tiling.same_tile _ (by decide) (h.weight_in_tile hd hlast)

theorem nextWeight (h : InNest config d c) (hstatus : c.iwStatus = .loading) :
    InNest config d (d.nextWeight config c) := by
  have hinput := h.input (by simp [hstatus])
  have htile := h.nTileIt_nextWeight hd
  have hlt : d.nTileSize * d.nTileIt (d.nextWeight config c) < c.N := htile ▸ h.nTile_lt
  unfold Dataflow.nextWeight at htile hlt ⊢
  split_ifs at htile hlt ⊢ with hlast
  · refine { h with NIt_nonneg := ?_, nTile_lt := hlt, input := fun _ => hinput,
                    weight := fun _ => by rw [htile], weights := fun n hn hle => ?_ }
    · rw [hd.nTileSize]
      exact Int.mul_nonneg (by decide) (h.nTileIt_nonneg hd)
    · rw [htile] at hn
      exact absurd hle (Int.not_le.mpr hn)
  · refine { h with NIt_nonneg := Int.add_nonneg h.NIt_nonneg (by decide), nTile_lt := hlt,
                    input := fun _ => hinput, weight := fun hne => absurd hstatus hne,
                    weights := fun n hn hle hzero => ?_ }
    rw [htile] at hn
    rcases Int.lt_or_eq_of_le hle with hlt' | rfl
    · exact h.weights n hn (Int.le_of_lt_add_one hlt') hzero
    · refine hlast ⟨hzero, .inr ?_⟩
      rw [hd.nTileSize, Int.tmod_eq_emod_of_nonneg (Int.add_nonneg h.NIt_nonneg (by decide))]
      exact h.weight_in_tile hd hlast

omit hd in
theorem startOutput (h : InNest config d c) : InNest config d (startOutput config d c) := { h with }

/-- The iterators at the start of a tile. -/
theorem start {i j : Int} (hi : 0 ≤ i) (hj : 0 ≤ j) (hM : c.MIt = d.mTileSize * i)
    (hN : c.NIt = d.nTileSize * j) (hMlt : d.mTileSize * i < c.M) (hNlt : d.nTileSize * j < c.N)
    (hKpos : 0 < c.K) (hK : 0 ≤ c.KTileIt) (hKlt : c.KTileIt * d.kTileSize config c < c.K)
    (hcnt : c.inCnt ≠ -1) : InNest config d c := by
  have hmt : d.mTileIt c = i := by
    rw [Dataflow.mTileIt, hM]
    exact Int.mul_tdiv_cancel_left _ hd.mTileSize_pos.ne'
  have hnt : d.nTileIt c = j := by
    rw [Dataflow.nTileIt, hN, hd.nTileSize]
    exact Int.mul_tdiv_cancel_left _ (by decide)
  refine ⟨?_, hM ▸ hMlt, ?_, hnt ▸ hNlt, hKpos, hK, hKlt, fun _ => hmt ▸ hM, fun _ => hnt ▸ hN, ?_,
    hcnt⟩
  · rw [hM]
    exact Int.mul_nonneg hd.mTileSize_pos.le hi
  · rw [hN, hd.nTileSize]
    exact Int.mul_nonneg (by decide) hj
  · rw [hnt, hN]
    intro n hlt hle
    exact absurd hle (Int.not_le.mpr hlt)

theorem streams {ended : Bool} (h : InNest config d c) (hstatus : c.iwStatus = .streaming)
    (hs : Streams config d c c' ended) :
    (InNest config d c' ∧ ended = false) ∨ (Ended c' ∧ ended = true) := by
  have hm := h.mTileIt_nonneg hd
  have hn := h.nTileIt_nonneg hd
  have hweight := h.weight (by simp [hstatus])
  have hstart : d.mTileSize * d.mTileIt c < c.M := by
    refine Int.lt_of_le_of_lt ?_ h.MIt_lt
    rw [mTileIt_eq h.MIt_nonneg]
    exact Library.Tiling.start_le _ hd.mTileSize_pos
  have hdelay : d.inDelay config ≠ -1 := by
    unfold Dataflow.inDelay
    omega
  have hfirst : (0 : Int) * d.kTileSize config c < c.K := by
    rw [Int.zero_mul]
    exact h.K_pos
  cases hs with
  | column _ hne =>
      have hlt := h.MIt_lt
      exact .inl ⟨{ h with
        MIt_nonneg := Int.add_nonneg h.MIt_nonneg (by decide)
        MIt_lt := show c.MIt + 1 < c.M by omega
        input := fun hne => absurd hstatus hne }, rfl⟩
  | kTile hk =>
      exact .inl ⟨start hd hm hn rfl hweight hstart h.nTile_lt h.K_pos
        (Int.add_nonneg h.KTileIt_nonneg (by decide)) (Int.not_le.mp hk) hdelay, rfl⟩
  | nTile _ hnlt =>
      exact .inl ⟨start hd hm (Int.add_nonneg hn (by decide)) rfl rfl hstart hnlt
        h.K_pos (le_refl 0) hfirst hdelay, rfl⟩
  | mTile _ _ hmlt =>
      exact .inl ⟨start hd (Int.add_nonneg hm (by decide)) (le_refl 0) rfl
        (Int.mul_zero _).symm hmlt
        (by rw [Int.mul_zero]; exact Int.lt_of_le_of_lt (by rw [hd.nTileSize]; omega) h.nTile_lt)
        h.K_pos (le_refl 0) hfirst hdelay, rfl⟩
  | all _ _ _ => exact .inr ⟨⟨rfl, rfl⟩, rfl⟩

/-- A round of the scheduler keeps the iterators in the nest or ends it. -/
theorem feeds {ended : Bool} (h : InNest config d c) (hf : Feeds config d c c' ended) :
    (InNest config d c' ∧ ended = false) ∨ (Ended c' ∧ ended = true) := by
  cases hf with
  | waits _ _ _ => exact .inl ⟨{ h with }, rfl⟩
  | weight w hstatus => exact .inl ⟨nextWeight hd { h with } hstatus, rfl⟩
  | begins hstatus =>
      exact .inl ⟨{ h with
        input := fun _ => h.input (by simp [hstatus])
        weight := fun _ => h.weight (by simp [hstatus]) }, rfl⟩
  | input i v hstatus =>
      have hc : InNest config d { c with inActPlaced := i, vpuCnt := v } := { h with }
      exact hc.startOutput.streams hd hstatus (nextInput_streams d _)
  | awaits hstatus =>
      have hcnt := h.goesOn
      rw [awaitArray_eq]
      refine .inl ⟨{ h with
        input := fun _ => h.input (by simp [hstatus])
        weight := fun _ => h.weight (by simp [hstatus])
        goesOn := ?_ }, rfl⟩
      dsimp only
      rw [if_neg hcnt]
      omega

end InNest

omit hd in
/-- Nothing moves after the end of the nest. -/
theorem Ended.feeds {ended : Bool} (h : Ended c) (hf : Feeds config d c c' ended) :
    Ended c' ∧ ended = false := by
  cases hf with
  | waits _ _ _ => exact ⟨⟨h.inCnt, h.status⟩, rfl⟩
  | weight _ hstatus => rw [h.status] at hstatus; cases hstatus
  | begins hstatus => rw [h.status] at hstatus; cases hstatus
  | input _ _ hstatus => rw [h.status] at hstatus; cases hstatus
  | awaits _ =>
      rw [awaitArray_eq]
      exact ⟨⟨by simp [h.inCnt], by simp [h.inCnt, h.status]⟩, rfl⟩

end

end JedecDRAMSystem

end Dramsim
