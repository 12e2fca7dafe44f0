import Dramsim.Memory.Nest
import Dramsim.Memory.Replay
import Mathlib.Tactic.Ring

/-!
# The end of the PIM mode

The outputs of a kernel are counted by iterators of their own, and the PIM mode is turned
off when these have come to their end.  The array is claimed to have finished by then, which
the source asserts.  `off_after_last_tile` shows it of every kernel whose outputs have as
many tiles as its inputs.  A dataflow that reduces its outputs rounds `M` down, so that a
short last tile of inputs may have no tile of outputs.
-/

namespace Dramsim

/-! ## Numbers of tiles -/

namespace Dataflow

variable (d : Dataflow) (c : Cut)

def mTiles : Int := Library.Tiling.count c.M d.mTileSize

def nTiles : Int := Library.Tiling.count c.N d.nTileSize

def mOutTiles : Int := Library.Tiling.count (d.mOut c) d.mTileSizeOut

def nOutTiles : Int := Library.Tiling.count (d.nOut c) d.nTileSizeOut

/-- The tiles of outputs whose inputs have all been streamed. -/
def tileNo : Int := d.mTileIt c * d.nTiles c + d.nTileIt c

/-- The tiles of outputs that have been written. -/
def outTileNo : Int := d.mOutTileIt c * d.nOutTiles c + c.NOutTileIt

/-- The last tile of inputs is not so short that it gives no output. -/
def LastTileGivesOutput : Prop :=
  d.df = 0 ∨ c.M ≤ d.mTileSize ∨ c.M % d.mTileSize = 0 ∨ 128 ≤ c.M % d.mTileSize * d.mcf

instance : Decidable (d.LastTileGivesOutput c) :=
  inferInstanceAs (Decidable (_ ∨ _ ∨ _ ∨ _))

end Dataflow

namespace JedecDRAMSystem

variable {config : Config} {d : Dataflow} {c c' : Cut} {written : Int} {ended : Bool}

/-- A tile of more than 128 inputs is a multiple of 128. -/
theorem mTileSize_eq_mul (hd : d.SingleCut) (hsize : 128 < d.mTileSize) :
    d.mTileSize = 128 * d.mTileSize.tdiv 128 := by
  obtain ⟨e, he⟩ := hd.mTileSize
  have hdvd : (128 : Int) ∣ d.mTileSize := by
    have hlt : 7 ≤ e := by
      by_contra hlt
      rw [he] at hsize
      have : (2 : Int) ^ e ≤ 2 ^ 7 := pow_le_pow_right₀ (by decide) (by omega)
      omega
    rw [he]
    exact pow_dvd_pow 2 hlt
  exact (Int.mul_tdiv_cancel_of_dvd hdvd).symm

theorem mOutTiles_eq (hd : d.SingleCut) (hsize : 128 < d.mTileSize) (hM : 1 ≤ c.M)
    (hdf : d.df = 1) (hfits : c.M * d.mcf < 2 ^ 31) (h : d.LastTileGivesOutput c) :
    d.mOutTiles c = d.mTiles c := by
  have hmul := mTileSize_eq_mul hd hsize
  have hmcf := hd.mcf_pos
  have hpos := hd.mTileSize_pos
  obtain ⟨a, ha, hlt, hle⟩ := Library.Tiling.exists_last hpos (show 0 < c.M by omega)
  have hcount : d.mTiles c = a + 1 := Library.Tiling.count_eq_add_one hpos hlt hle
  rw [hcount]
  have hproduct : 0 ≤ c.M * d.mcf := Int.mul_nonneg (by omega) hmcf.le
  simp only [Dataflow.mOutTiles, Dataflow.mOut, Dataflow.mTileSizeOut, hdf, if_true,
    toInt_of_nonneg hproduct hfits]
  generalize d.mTileSize.tdiv 128 = q at hmul ⊢
  have hq : 0 < q := by omega
  have hqm : 0 < q * d.mcf := Int.mul_pos hq hmcf
  rw [Int.tdiv_eq_ediv_of_nonneg hproduct]
  -- the outputs of the tiles before the last one, and of the last one too
  have hbefore : d.mTileSize * a * d.mcf = 128 * (q * d.mcf * a) := by rw [hmul]; ring
  have hall : d.mTileSize * (a + 1) * d.mcf = 128 * (q * d.mcf * (a + 1)) := by rw [hmul]; ring
  have hupper : c.M * d.mcf ≤ 128 * (q * d.mcf * (a + 1)) :=
    hall ▸ Int.mul_le_mul_of_nonneg_right hle hmcf.le
  have hpositive : 0 < q * d.mcf * (a + 1) := Int.mul_pos hqm (by omega)
  have hsplit : q * d.mcf * (a + 1) = q * d.mcf * a + q * d.mcf := by ring
  refine Library.Tiling.count_eq_add_one hqm ?_ (by omega)
  rcases Int.lt_or_eq_of_le ha with hapos | rfl
  · have hlower : 128 * (q * d.mcf * a) + 128 ≤ c.M * d.mcf := by
      rcases Int.lt_or_eq_of_le hle with hpart | hfull
      · have hmod : c.M % d.mTileSize = c.M - d.mTileSize * a := by
          rw [Int.emod_def, Library.Tiling.div_eq _ hpos hlt.le hpart]
        rcases h with hzero | hshort | hzero | hlong
        · omega
        · have : d.mTileSize * 1 ≤ d.mTileSize * a :=
            Int.mul_le_mul_of_nonneg_left (by omega) hpos.le
          omega
        · omega
        · rw [hmod, Int.sub_mul, hbefore] at hlong
          omega
      · rw [hfull, hall]
        omega
    omega
  · omega

/-- Inputs and outputs have the same number of tiles. -/
theorem outTiles_eq (hd : d.SingleCut) (hsize : 128 < d.mTileSize) (hM : 1 ≤ c.M) (hN : 1 ≤ c.N)
    (hreduced : d.df = 1 → c.N ≤ 128) (hfits : d.df = 1 → c.M * d.mcf < 2 ^ 31)
    (h : d.LastTileGivesOutput c) : d.mOutTiles c * d.nOutTiles c = d.mTiles c * d.nTiles c := by
  rcases hd.df with hdf | hdf
  · simp only [Dataflow.mOutTiles, Dataflow.nOutTiles, Dataflow.mTiles, Dataflow.nTiles,
      Dataflow.mOut, Dataflow.nOut, Dataflow.mTileSizeOut, Dataflow.nTileSizeOut, hdf]
    rfl
  · have hn : d.nTiles c = 1 := by
      rw [Dataflow.nTiles, hd.nTileSize]
      exact Library.Tiling.count_eq_add_one (i := 0) (by decide) (by omega) (by
        have := hreduced hdf
        omega)
    have hnOut : d.nOutTiles c = 1 := by
      simp [Dataflow.nOutTiles, Dataflow.nOut, Dataflow.nTileSizeOut, hdf, Library.Tiling.count]
    rw [mOutTiles_eq hd hsize hM hdf (hfits hdf) h, hn, hnOut]

/-! ## Tiles that are streamed -/

/-- The tiles that have been written, wait to be written or are being worked on. -/
def claimed (c : Cut) (written : Int) : Int :=
  written + c.outputValid + if c.outCnt = -1 then 0 else 1

/-- The first input of the current tile, and of its last `K` tile, has been streamed. -/
def Started (config : Config) (d : Dataflow) (c : Cut) : Prop :=
  c.iwStatus = .streaming ∧ d.lastKTile config c ∧ c.MIt ≠ d.mTileSize * d.mTileIt c

/-- Tiles of outputs are only claimed when their inputs are streamed. -/
inductive Fed (config : Config) (d : Dataflow) (c : Cut) (written : Int) : Prop where
  | before : InNest config d c → claimed c written ≤ d.tileNo c → Fed config d c written
  | started : InNest config d c → Started config d c → claimed c written ≤ d.tileNo c + 1 →
      Fed config d c written
  | ended : Ended c → claimed c written ≤ d.mTiles c * d.nTiles c → Fed config d c written

section

variable (hd : d.SingleCut)

include hd

/-- While the nest goes on, there are tiles left. -/
theorem InNest.tileNo_lt (h : InNest config d c) : d.tileNo c < d.mTiles c * d.nTiles c := by
  have hm : d.mTileIt c < d.mTiles c := by
    refine (Library.Tiling.lt_count_iff hd.mTileSize_pos).mpr (Int.lt_of_le_of_lt ?_ h.MIt_lt)
    rw [mTileIt_eq h.MIt_nonneg]
    exact Library.Tiling.start_le _ hd.mTileSize_pos
  have hn : d.nTileIt c < d.nTiles c :=
    (Library.Tiling.lt_count_iff (by rw [hd.nTileSize]; decide)).mpr h.nTile_lt
  have hnonneg := h.nTileIt_nonneg hd
  have hmul : (d.mTileIt c + 1) * d.nTiles c ≤ d.mTiles c * d.nTiles c :=
    Int.mul_le_mul_of_nonneg_right (by omega) (by omega)
  rw [Int.add_mul, Int.one_mul] at hmul
  unfold Dataflow.tileNo
  omega

/-- The number of the tile that starts at the iterators. -/
theorem tileNo_start {i j : Int} (hM : c.MIt = d.mTileSize * i) (hN : c.NIt = d.nTileSize * j) :
    d.tileNo c = i * d.nTiles c + j := by
  rw [Dataflow.tileNo, Dataflow.mTileIt, Dataflow.nTileIt, hM, hN,
    Int.mul_tdiv_cancel_left _ hd.mTileSize_pos.ne',
    Int.mul_tdiv_cancel_left _ (by rw [hd.nTileSize]; decide)]

omit hd in
/-- The first input of a tile claims it. -/
theorem Fed.startOutput (h : Fed config d c written) (hstatus : c.iwStatus = .streaming) :
    InNest config d (startOutput config d c) ∧ claimed (startOutput config d c) written ≤
      d.tileNo c + if d.lastKTile config c then 1 else 0 := by
  cases h with
  | before hnest hle =>
      refine ⟨hnest.startOutput, ?_⟩
      have hdelay : Dataflow.outDelay config ≠ -1 := by
        unfold Dataflow.outDelay
        omega
      unfold claimed at hle
      unfold JedecDRAMSystem.startOutput claimed
      split_ifs at hle ⊢ <;> simp_all <;> omega
  | started hnest hs hle =>
      refine ⟨hnest.startOutput, ?_⟩
      have hinside : c.MIt.tmod d.mTileSize ≠ 0 := fun hzero => by
        have := Int.tmod_add_mul_tdiv c.MIt d.mTileSize
        rw [hzero, Int.zero_add] at this
        exact hs.2.2 this.symm
      rw [if_pos hs.2.1, JedecDRAMSystem.startOutput, if_neg fun hfirst => hinside hfirst.2]
      exact hle
  | ended hend _ =>
      rw [hend.status] at hstatus
      cases hstatus

/-- An input leads to the next tile when its `K` tiles are complete. -/
theorem Fed.of_streams (h : InNest config d c) (hstatus : c.iwStatus = .streaming)
    (hle : claimed c written ≤ d.tileNo c + if d.lastKTile config c then 1 else 0)
    (hs : Streams config d c c' ended) : Fed config d c' written := by
  have hnest := h.streams hd hstatus hs
  have hpos := hd.mTileSize_pos
  have hweight := h.weight (by simp [hstatus])
  have hno : d.tileNo c = d.mTileIt c * d.nTiles c + d.nTileIt c := rfl
  -- the last tile of a row of tiles
  have hlast (hn : c.N ≤ d.nTileSize * (d.nTileIt c + 1)) : d.nTiles c = d.nTileIt c + 1 :=
    Library.Tiling.count_eq_add_one (by rw [hd.nTileSize]; decide) h.nTile_lt hn
  cases hs with
  | column hmod hne =>
      have hin := (hnest.resolve_right (by simp)).1
      have hsame : d.mTileIt { c with MIt := c.MIt + 1 } = d.mTileIt c := by
        rw [mTileIt_eq h.MIt_nonneg, mTileIt_eq hin.MIt_nonneg]
        rw [Int.tmod_eq_emod_of_nonneg hin.MIt_nonneg] at hmod
        exact Library.Tiling.same_tile _ hpos hmod
      have hsameNo : d.tileNo { c with MIt := c.MIt + 1 } = d.tileNo c := by
        rw [Dataflow.tileNo, hsame]
        rfl
      split_ifs at hle with hk
      · refine .started hin ⟨hstatus, hk, fun hback => hmod ?_⟩ (by rw [hsameNo]; exact hle)
        rw [hsame] at hback
        dsimp only at hback
        rw [hback]
        exact Int.mul_tmod_right ..
      · exact .before hin (by rw [hsameNo]; exact Int.le_trans hle (by omega))
  | kTile hk =>
      rw [if_neg hk, Int.add_zero] at hle
      refine .before (hnest.resolve_right (by simp)).1 (Int.le_trans hle (Int.le_of_eq ?_))
      symm
      exact tileNo_start hd rfl hweight
  | nTile hk hnlt =>
      rw [if_pos hk] at hle
      refine .before (hnest.resolve_right (by simp)).1 ?_
      rw [tileNo_start hd rfl rfl, ← Int.add_assoc]
      exact hle
  | mTile hk hnle hmlt =>
      rw [if_pos hk, hno, Int.add_assoc, ← hlast hnle] at hle
      refine .before (hnest.resolve_right (by simp)).1 ?_
      rw [tileNo_start hd rfl (Int.mul_zero _).symm, Int.add_zero, Int.add_mul, Int.one_mul]
      exact hle
  | all hk hnle hmle =>
      have hrows : d.mTiles c = d.mTileIt c + 1 := by
        refine Library.Tiling.count_eq_add_one hpos (Int.lt_of_le_of_lt ?_ h.MIt_lt) hmle
        rw [mTileIt_eq h.MIt_nonneg]
        exact Library.Tiling.start_le _ hpos
      rw [if_pos hk, hno, Int.add_assoc, ← hlast hnle] at hle
      refine .ended (hnest.resolve_left (by simp)).1 ?_
      change claimed c written ≤ d.mTiles c * d.nTiles c
      rw [hrows, Int.add_mul, Int.one_mul]
      exact hle

omit hd in
theorem Fed.withFlags (h : Fed config d c written) (w i o : Bool) (v : Int) :
    Fed config d { c with wActPlaced := w, inActPlaced := i, outActPlaced := o, vpuCnt := v }
      written := by
  cases h with
  | before hnest hle => exact .before { hnest with } hle
  | started hnest hs hle => exact .started { hnest with } hs hle
  | ended hend hle => exact .ended ⟨hend.inCnt, hend.status⟩ hle

omit hd in
/-- Where no input is streamed, no tile is started. -/
theorem Fed.not_streaming (h : Fed config d c written) (hstatus : c.iwStatus ≠ .streaming) :
    (InNest config d c ∧ claimed c written ≤ d.tileNo c) ∨
      (Ended c ∧ claimed c written ≤ d.mTiles c * d.nTiles c) := by
  cases h with
  | before hnest hle => exact .inl ⟨hnest, hle⟩
  | started _ hs _ => exact absurd hs.1 hstatus
  | ended hend hle => exact .inr ⟨hend, hle⟩

/-- The input stage claims no tile that is not streamed. -/
theorem Fed.feeds (h : Fed config d c written) (hf : Feeds config d c c' ended) :
    Fed config d c' written := by
  cases hf with
  | waits w i v => exact h.withFlags w i c.outActPlaced v
  | weight w hstatus =>
      have hfed := h.withFlags w c.inActPlaced c.outActPlaced c.vpuCnt
      rcases hfed.not_streaming (by simp [hstatus]) with ⟨hnest, hle⟩ | ⟨hend, -⟩
      · refine .before (hnest.nextWeight hd hstatus) ?_
        have hno : d.tileNo (d.nextWeight config { c with wActPlaced := w }) = d.tileNo c := by
          have hm : d.mTileIt (d.nextWeight config { c with wActPlaced := w }) = d.mTileIt c := by
            unfold Dataflow.nextWeight
            split <;> rfl
          have hn : d.nTiles (d.nextWeight config { c with wActPlaced := w }) = d.nTiles c := by
            unfold Dataflow.nextWeight
            split <;> rfl
          rw [Dataflow.tileNo, hm, hn, hnest.nTileIt_nextWeight hd]
          rfl
        have hclaimed : claimed (d.nextWeight config { c with wActPlaced := w }) written =
            claimed c written := by
          unfold Dataflow.nextWeight
          split <;> rfl
        rw [hno, hclaimed]
        exact hle
      · rw [hend.status] at hstatus
        cases hstatus
  | begins hstatus =>
      rcases h.not_streaming (by simp [hstatus]) with ⟨hnest, hle⟩ | ⟨hend, -⟩
      · exact .before ((hnest.feeds hd (.begins hstatus)).resolve_right (by simp)).1 hle
      · rw [hend.status] at hstatus
        cases hstatus
  | input i v hstatus =>
      have hfed := h.withFlags c.wActPlaced i c.outActPlaced v
      obtain ⟨hnest, hle⟩ := hfed.startOutput hstatus
      exact Fed.of_streams hd hnest hstatus hle (nextInput_streams d _)
  | awaits hstatus =>
      have hclaimed : claimed (awaitArray c) written = claimed c written := by
        rw [awaitArray_eq]
        rfl
      rcases h.not_streaming (by simp [hstatus]) with ⟨hnest, hle⟩ | ⟨hend, hle⟩
      · refine .before ((hnest.feeds hd (.awaits hstatus)).resolve_right (by simp)).1 ?_
        rw [hclaimed, awaitArray_eq]
        exact hle
      · refine .ended (hend.feeds (show Feeds config d c _ _ from .awaits hstatus)).1 ?_
        rw [hclaimed, awaitArray_eq]
        exact hle

omit hd in
theorem Fed.countOutput (h : Fed config d c written) : Fed config d (countOutput c) written := by
  have hclaimed : claimed (JedecDRAMSystem.countOutput c) written ≤ claimed c written := by
    rw [countOutput_eq]
    unfold claimed
    dsimp only
    split_ifs <;> omega
  rw [countOutput_eq] at hclaimed ⊢
  cases h with
  | before hnest hle => exact .before { hnest with } (Int.le_trans hclaimed hle)
  | started hnest hs hle => exact .started { hnest with } hs (Int.le_trans hclaimed hle)
  | ended hend hle => exact .ended ⟨hend.inCnt, hend.status⟩ (Int.le_trans hclaimed hle)

end

/-! ## Tiles that are written -/

/-- The output iterators of a cut while there are outputs left. -/
structure InOutputs (d : Dataflow) (c : Cut) : Prop where
  MOutIt_nonneg : 0 ≤ c.MOutIt
  MOutIt_lt : c.MOutIt < d.mOut c
  NOutTileIt_nonneg : 0 ≤ c.NOutTileIt
  nOutTile_lt : d.nTileSizeOut * c.NOutTileIt < d.nOut c

/-- An output moves the output iterators only. -/
theorem nextOutput_eq (d : Dataflow) (c : Cut) :
    ∃ m n, (d.nextOutput c).1 = { c with MOutIt := m, NOutTileIt := n } := by
  unfold Dataflow.nextOutput
  dsimp only
  split_ifs <;> exact ⟨_, _, rfl⟩

/-- Where an output leads. -/
theorem nextOutput_spec (hsize : 0 < d.mTileSizeOut) (hnsize : 0 < d.nTileSizeOut)
    (h : InOutputs d c) :
    match (d.nextOutput c).2 with
    | .column => InOutputs d (d.nextOutput c).1 ∧ d.outTileNo (d.nextOutput c).1 = d.outTileNo c
    | .tile => InOutputs d (d.nextOutput c).1 ∧ d.outTileNo (d.nextOutput c).1 = d.outTileNo c + 1
    | .all => d.outTileNo c + 1 = d.mOutTiles c * d.nOutTiles c := by
  have hm : d.mOutTileIt c = c.MOutIt / d.mTileSizeOut :=
    Int.tdiv_eq_ediv_of_nonneg h.MOutIt_nonneg
  have hnonneg : 0 ≤ d.mOutTileIt c := hm ▸ Int.ediv_nonneg h.MOutIt_nonneg hsize.le
  have hstart : d.mTileSizeOut * d.mOutTileIt c < d.mOut c :=
    Int.lt_of_le_of_lt (hm ▸ Library.Tiling.start_le _ hsize) h.MOutIt_lt
  have htile (i : Int) : (d.mTileSizeOut * i).tdiv d.mTileSizeOut = i :=
    Int.mul_tdiv_cancel_left _ hsize.ne'
  unfold Dataflow.nextOutput
  dsimp only
  by_cases hend : (c.MOutIt + 1).tmod d.mTileSizeOut = 0 ∨ c.MOutIt + 1 = d.mOut c
  · rw [if_pos hend]
    by_cases hn : d.nOut c ≤ (c.NOutTileIt + 1) * d.nTileSizeOut
    · have hcount : d.nOutTiles c = c.NOutTileIt + 1 :=
        Library.Tiling.count_eq_add_one hnsize h.nOutTile_lt (by rw [Int.mul_comm]; exact hn)
      have hnext : (d.mOutTileIt c + 1) * d.nOutTiles c = d.outTileNo c + 1 := by
        rw [Dataflow.outTileNo, Int.add_mul, Int.one_mul]
        omega
      rw [if_pos hn]
      by_cases hall : d.mOut c ≤ d.mTileSizeOut * (d.mOutTileIt c + 1)
      · rw [if_pos hall]
        rw [← hnext, Dataflow.mOutTiles, Library.Tiling.count_eq_add_one hsize hstart hall]
      · rw [if_neg hall]
        refine ⟨⟨Int.mul_nonneg hsize.le (Int.add_nonneg hnonneg (by decide)), Int.not_le.mp hall,
          Int.le_refl 0, ?_⟩, ?_⟩
        · dsimp only
          rw [Int.mul_zero]
          exact Int.lt_of_le_of_lt (Int.mul_nonneg hnsize.le h.NOutTileIt_nonneg) h.nOutTile_lt
        · rw [Dataflow.outTileNo, Dataflow.mOutTileIt, htile, ← hnext, Int.add_zero]
          rfl
    · rw [if_neg hn]
      refine ⟨⟨Int.mul_nonneg hsize.le hnonneg, hstart,
        Int.add_nonneg h.NOutTileIt_nonneg (by decide), ?_⟩, ?_⟩
      · dsimp only
        rw [Int.mul_comm]
        exact Int.not_le.mp hn
      · rw [Dataflow.outTileNo, Dataflow.mOutTileIt, htile, Dataflow.outTileNo, Int.add_assoc]
        rfl
  · rw [if_neg hend]
    rw [not_or, Int.tmod_eq_emod_of_nonneg (Int.add_nonneg h.MOutIt_nonneg (by decide))] at hend
    have hlt := h.MOutIt_lt
    refine ⟨⟨Int.add_nonneg h.MOutIt_nonneg (by decide), ?_, h.NOutTileIt_nonneg,
      h.nOutTile_lt⟩, ?_⟩
    · have hne := hend.2
      change c.MOutIt + 1 < d.mOut c
      omega
    · have hsame : d.mOutTileIt { c with MOutIt := c.MOutIt + 1 } = d.mOutTileIt c := by
        rw [hm, Dataflow.mOutTileIt,
          Int.tdiv_eq_ediv_of_nonneg (Int.add_nonneg h.MOutIt_nonneg (by decide))]
        exact Library.Tiling.same_tile _ hsize hend.1
      rw [Dataflow.outTileNo, hsame]
      rfl

/-! ## A running kernel -/

/-- The tiles that an output completes. -/
def tilesOf : Dataflow.Written → Int
  | .column => 0
  | .tile => 1
  | .all => 1

/-- A cut while its kernel runs, with the number of tiles that have been written. -/
structure Working (config : Config) (d : Dataflow) (c₀ c : Cut) (written : Int) : Prop where
  inPim : c.inPim = true
  M : c.M = c₀.M
  N : c.N = c₀.N
  fed : Fed config d c written
  outputs : InOutputs d c
  count : d.outTileNo c = written

namespace Working

variable {c₀ : Cut} {written : Int}

theorem feeds (hd : d.SingleCut) (h : Working config d c₀ c written)
    (hf : Feeds config d c c' ended) : Working config d c₀ c' written := by
  have hfed := h.fed.feeds hd hf
  obtain ⟨_, _, _, _, _, _, _, _, _, rfl⟩ := hf.eq_with
  exact ⟨h.inPim, h.M, h.N, hfed, ⟨h.outputs.MOutIt_nonneg, h.outputs.MOutIt_lt,
    h.outputs.NOutTileIt_nonneg, h.outputs.nOutTile_lt⟩, h.count⟩

theorem withFlags (h : Working config d c₀ c written) (w i o : Bool) :
    Working config d c₀ { c with wActPlaced := w, inActPlaced := i, outActPlaced := o } written :=
  ⟨h.inPim, h.M, h.N, h.fed.withFlags w i o c.vpuCnt, ⟨h.outputs.MOutIt_nonneg, h.outputs.MOutIt_lt,
    h.outputs.NOutTileIt_nonneg, h.outputs.nOutTile_lt⟩, h.count⟩

theorem countOutput (h : Working config d c₀ c written) :
    Working config d c₀ (countOutput c) written := by
  have hfed := h.fed.countOutput
  rw [countOutput_eq] at hfed ⊢
  exact ⟨h.inPim, h.M, h.N, hfed, ⟨h.outputs.MOutIt_nonneg, h.outputs.MOutIt_lt,
    h.outputs.NOutTileIt_nonneg, h.outputs.nOutTile_lt⟩, h.count⟩

/-- The output stage of a round.  The PIM mode ends with the last tile, when the nest of the
inputs has ended. -/
theorem writes {wrote : Dataflow.Written} (hd : d.SingleCut) (hsize : 0 < d.mTileSizeOut)
    (htiles : d.mOutTiles c₀ * d.nOutTiles c₀ = d.mTiles c₀ * d.nTiles c₀)
    (h : Working config d c₀ c written) (hvalid : 0 < c.outputValid)
    (hstatus : c.iwStatus ≠ .streaming) (hw : Writes d c c' wrote) :
    (wrote ≠ .all ∧ Working config d c₀ (closeTile c' wrote) (written + tilesOf wrote)) ∨
      (wrote = .all ∧ c'.inCnt = -1 ∧ written + tilesOf wrote = d.mTiles c₀ * d.nTiles c₀) := by
  cases hw with
  | waits o =>
      refine .inl ⟨by simp, ?_⟩
      rw [tilesOf, Int.add_zero]
      exact h.withFlags c.wActPlaced c.inActPlaced o
  | output o =>
      have ho := h.withFlags c.wActPlaced c.inActPlaced o
      obtain ⟨m, n, heq⟩ := nextOutput_eq d { c with outActPlaced := o }
      have hspec := nextOutput_spec hsize (by rw [hd.nTileSizeOut]; decide) ho.outputs
      have hcount := ho.count
      rw [heq] at hspec ⊢
      -- the claims do not change: a tile that is written no longer waits
      have hclaimed (v : Int) : Fed config d { c with
          outActPlaced := o, MOutIt := m, NOutTileIt := n, outputValid := c.outputValid - v }
          (written + v) := by
        have hsame : claimed { c with
            outActPlaced := o, MOutIt := m, NOutTileIt := n, outputValid := c.outputValid - v }
            (written + v) = claimed c written := by
          unfold claimed
          dsimp only
          omega
        cases h.fed with
        | before hnest hle => exact .before { hnest with } (hsame ▸ hle)
        | started hnest hs hle => exact .started { hnest with } hs (hsame ▸ hle)
        | ended hend hle => exact .ended ⟨hend.inCnt, hend.status⟩ (hsame ▸ hle)
      generalize (d.nextOutput { c with outActPlaced := o }).2 = wrote at hspec
      cases wrote with
      | column =>
          have hfed := hclaimed 0
          rw [Int.sub_zero] at hfed
          refine .inl ⟨by simp, h.inPim, h.M, h.N, hfed, hspec.1, ?_⟩
          rw [tilesOf, Int.add_zero]
          exact hspec.2.trans hcount
      | tile =>
          obtain ⟨hout, hno⟩ := hspec
          exact .inl ⟨by simp, h.inPim, h.M, h.N, hclaimed 1, ⟨hout.MOutIt_nonneg, hout.MOutIt_lt,
            hout.NOutTileIt_nonneg, hout.nOutTile_lt⟩, hno.trans (by rw [hcount]; rfl)⟩
      | all =>
          have hM := h.M
          have hN := h.N
          have htotal : written + 1 = d.mTiles c₀ * d.nTiles c₀ := by
            rw [← htiles, ← hcount, hspec]
            simp only [Dataflow.mOutTiles, Dataflow.nOutTiles, Dataflow.mOut, Dataflow.nOut, hM, hN]
          refine .inr ⟨rfl, ?_, htotal⟩
          rcases h.fed.not_streaming hstatus with ⟨hnest, hle⟩ | ⟨hend, -⟩
          · have hlt := hnest.tileNo_lt hd
            have hpending : written + c.outputValid ≤ claimed c written := by
              unfold claimed
              split <;> omega
            simp only [Dataflow.mTiles, Dataflow.nTiles, hM, hN] at hlt htotal
            omega
          · exact hend.inCnt

end Working

/-! ## Runs of a kernel -/

end JedecDRAMSystem

/-- A cut that is configured and has not run. -/
structure Cut.Fresh (c : Cut) : Prop where
  MIt : c.MIt = 0
  NIt : c.NIt = 0
  KTileIt : c.KTileIt = 0
  MOutIt : c.MOutIt = 0
  NOutTileIt : c.NOutTileIt = 0
  inPim : c.inPim = false
  iwStatus : c.iwStatus = .loading
  outputValid : c.outputValid = 0
  inCnt : c.inCnt = 0
  outCnt : c.outCnt = -1

/-- The operation adds a PIM word. -/
def SystemOp.isWord : SystemOp → Bool
  | .addPim _ => true
  | _ => false

namespace JedecDRAMSystem

variable {config : Config}

/-- A kernel is configured, and the next PIM word launches it. -/
structure Configured (s : JedecDRAMSystem config) (c : Cut) (launch : Nat) : Prop where
  one : OneCut s
  cuts : s.cuts = [c]
  fresh : c.Fresh
  queue : s.pimTransQueue = [launch]
  isLaunch : isLaunch launch = true

/-- A kernel is fit to run: its dimensions are positive, its `M` tiles are larger than the
array, and its outputs have a single `N` tile if they are reduced.  The end of a tile is an
`int`, and so is the product that the reduced outputs are counted by. -/
structure FitToRun (config : Config) (d : Dataflow) (c : Cut) : Prop where
  M : 1 ≤ c.M
  N : 1 ≤ c.N
  K : 1 ≤ c.K
  mTileSize : 128 < d.mTileSize
  reduced : d.df = 1 → c.N ≤ 128
  product : d.df = 1 → c.M * d.mcf < 2 ^ 31
  mTileEnd : c.M + d.mTileSize ≤ 2 ^ 31
  nTileEnd : c.N + d.nTileSize ≤ 2 ^ 31
  kTileEnd : c.K + d.kTileSize config c ≤ 2 ^ 31

/-- The stages of a kernel that `s₀` is about to launch. -/
inductive Kernel (s₀ : JedecDRAMSystem config) (c₀ : Cut) (launch : Nat)
    (s : JedecDRAMSystem config) (events : List SystemEvent) : Prop where
  | configured {c : Cut} : s.pimTransQueue = [launch] → s.cuts = [c] → c.Fresh →
      c.M = c₀.M → c.N = c₀.N → c.K = c₀.K → events = [] → Kernel s₀ c₀ launch s events
  | running {c : Cut} : s.pimTransQueue = [] → s.cuts = [c] →
      Working config s₀.dataflow c₀ c (events.count (.tileWritten 0)) →
      .outputExhausted 0 ∉ events → Kernel s₀ c₀ launch s events
  | finished {c : Cut} : s.pimTransQueue = [] → s.cuts = [c] → c.inPim = false → c.inCnt = -1 →
      (events.count (.tileWritten 0) : Int) = s₀.dataflow.mTiles c₀ * s₀.dataflow.nTiles c₀ →
      Kernel s₀ c₀ launch s events

namespace Kernel

variable {s₀ s s' : JedecDRAMSystem config} {c₀ : Cut} {launch : Nat} {events : List SystemEvent}

/-- The state of a kernel depends on the words and the cuts only. -/
theorem congr (h : Kernel s₀ c₀ launch s events) (hqueue : s'.pimTransQueue = s.pimTransQueue)
    (hcuts : s'.cuts = s.cuts) : Kernel s₀ c₀ launch s' events := by
  cases h with
  | configured hq hc hfresh hM hN hK hnone =>
      exact .configured (hqueue.trans hq) (hcuts.trans hc) hfresh hM hN hK hnone
  | running hq hc hwork hno => exact .running (hqueue.trans hq) (hcuts.trans hc) hwork hno
  | finished hq hc hpim hcnt htiles =>
      exact .finished (hqueue.trans hq) (hcuts.trans hc) hpim hcnt htiles

theorem settle (h : Kernel s₀ c₀ launch s events) : Kernel s₀ c₀ launch s.settle events := by
  unfold JedecDRAMSystem.settle
  split
  · have hcuts {c : Cut} (hc : s.cuts = [c]) : s.returnAll.clearFlags.cuts =
        [{ c with inActPlaced := false, wActPlaced := false, outActPlaced := false }] := by
      simp only [clearFlags, returnAll, hc, List.map_cons, List.map_nil]
    cases h with
    | configured hq hc hfresh hM hN hK hnone =>
        exact .configured hq (hcuts hc) { hfresh with } hM hN hK hnone
    | running hq hc hwork hno =>
        exact .running hq (hcuts hc) (hwork.withFlags false false false) hno
    | finished hq hc hpim hcnt htiles => exact .finished hq (hcuts hc) hpim hcnt htiles
  · exact h.congr rfl rfl

/-- A fresh cut starts its loop nests. -/
theorem working_fresh {d : Dataflow} {c : Cut} (hd : d.SingleCut) (hfresh : c.Fresh)
    (hfit : FitToRun config d c₀) (hM : c.M = c₀.M) (hN : c.N = c₀.N) (hK : c.K = c₀.K) :
    Working config d c₀ { c with inPim := true } 0 := by
  have hMpos := hfit.M
  have hNpos := hfit.N
  have hKpos := hfit.K
  have hmOut : 0 < d.mOut c := by
    unfold Dataflow.mOut
    split <;> omega
  have hnOut : 0 < d.nOut c := by
    unfold Dataflow.nOut
    split <;> omega
  have hnest : InNest config d { c with inPim := true } :=
    InNest.start hd (Int.le_refl 0) (Int.le_refl 0) (by simp [hfresh.MIt]) (by simp [hfresh.NIt])
      (by simp; omega) (by simp; omega) (by simp; omega) (by simp [hfresh.KTileIt])
      (by simp [hfresh.KTileIt]; omega) (by simp [hfresh.inCnt])
  refine ⟨rfl, hM, hN, .before hnest ?_, ⟨?_, ?_, ?_, ?_⟩, ?_⟩
  · have htile : d.tileNo { c with inPim := true } = 0 := by
      simp [Dataflow.tileNo, Dataflow.mTileIt, Dataflow.nTileIt, hfresh.MIt, hfresh.NIt]
    rw [htile]
    simp [claimed, hfresh.outputValid, hfresh.outCnt]
  · exact hfresh.MOutIt.ge
  · exact hfresh.MOutIt ▸ hmOut
  · exact hfresh.NOutTileIt.ge
  · change d.nTileSizeOut * c.NOutTileIt < d.nOut c
    rw [hfresh.NOutTileIt, Int.mul_zero]
    exact hnOut
  · simp [Dataflow.outTileNo, Dataflow.mOutTileIt, hfresh.MOutIt, hfresh.NOutTileIt]

theorem pops (hd : s.dataflow.SingleCut) (hflow : s.dataflow = s₀.dataflow)
    (hlaunch : isLaunch launch = true) (hfit : FitToRun config s₀.dataflow c₀)
    (h : Kernel s₀ c₀ launch s events) (hs : s.Pops s') :
    s'.dataflow = s.dataflow ∧ s'.log = s.log ∧ Kernel s₀ c₀ launch s' events := by
  cases h with
  | configured hq hc hfresh hM hN hK hnone =>
      cases hs with
      | none hempty => rw [hq] at hempty; cases hempty
      | waits _ _ => exact ⟨rfl, rfl, .configured hq hc hfresh hM hN hK hnone⟩
      | launches hq' _ hall =>
          rw [hq] at hq'
          cases hq'
          obtain ⟨c, hc', hbit, -⟩ := hall 0 (by simp [hd.vcuts, hd.hcuts])
          have hwork := working_fresh (hflow ▸ hd) hfresh hfit hM hN hK
          rw [hnone]
          refine ⟨rfl, rfl, .running rfl ?_ hwork (by simp)⟩
          simp only [hc, List.mapIdx_cons, List.mapIdx_nil, hbit, if_true]
      | flow hq' hdata =>
          rw [hq] at hq'
          cases hq'
          simp [isDataflow, hlaunch] at hdata
      | work hq' hno _ _ _ =>
          rw [hq] at hq'
          cases hq'
          rw [hlaunch] at hno
          cases hno
  | running hq hc hwork hno =>
      cases hs with
      | none _ => exact ⟨rfl, rfl, .running hq hc hwork hno⟩
      | waits hq' _ | launches hq' _ _ | flow hq' _ | work hq' _ _ _ _ => rw [hq] at hq'; cases hq'
  | finished hq hc hpim hcnt htiles =>
      cases hs with
      | none _ => exact ⟨rfl, rfl, .finished hq hc hpim hcnt htiles⟩
      | waits hq' _ | launches hq' _ _ | flow hq' _ | work hq' _ _ _ _ => rw [hq] at hq'; cases hq'

theorem count_roundEvents (clk : Nat) (wCmds inCmds outCmds : List Command) (ended : Bool)
    (wrote : Dataflow.Written) :
    ((roundEvents clk wCmds inCmds outCmds ended wrote).count (.tileWritten 0) : Int) =
      tilesOf wrote := by
  have hsent (stream : Stream) (cmds : List Command) :
      (if cmds = [] then [] else [SystemEvent.dispatched clk 0 stream cmds]).count
        (.tileWritten 0) = 0 := by
    split <;> rfl
  have hended : (if ended then [SystemEvent.endOfComputation 0] else []).count
      (.tileWritten 0) = 0 := by
    cases ended <;> rfl
  simp only [roundEvents, List.count_append, hsent, hended]
  cases wrote <;> rfl

theorem outputExhausted_mem_roundEvents {clk : Nat} {wCmds inCmds outCmds : List Command}
    {ended : Bool} {wrote : Dataflow.Written}
    (h : .outputExhausted 0 ∈ roundEvents clk wCmds inCmds outCmds ended wrote) : wrote = .all := by
  simp only [roundEvents, List.mem_append] at h
  cases wrote with
  | all => rfl
  | column | tile =>
      rcases h with (h | h) | ((h | h) | h)
      · cases ended <;> simp at h
      · simp [tileEvents] at h
      all_goals
        split at h
        · cases h
        · simp at h

/-- A kernel goes on until its last output has been written. -/
theorem goesOn {c : Cut} {new : List SystemEvent} (hq : s.pimTransQueue = []) (hc : s.cuts = [c])
    (hno : .outputExhausted 0 ∉ events) (hnew : .outputExhausted 0 ∉ new)
    (hwork : Working config s₀.dataflow c₀ c
      (events.count (.tileWritten 0) + new.count (.tileWritten 0))) :
    Kernel s₀ c₀ launch s (events ++ new) := by
  refine .running hq hc ?_ fun hmem => ?_
  · rw [List.count_append, Nat.cast_add]
    exact hwork
  · rcases List.mem_append.mp hmem with hold | hmem
    · exact hno hold
    · exact hnew hmem

theorem rounds {wait : Bool} (hflow : s.dataflow = s₀.dataflow)
    (htiles : s₀.dataflow.mOutTiles c₀ * s₀.dataflow.nOutTiles c₀ =
      s₀.dataflow.mTiles c₀ * s₀.dataflow.nTiles c₀)
    (h : Kernel s₀ c₀ launch s events) (hs : s.Rounds wait s') :
    s'.dataflow = s.dataflow ∧
      ∃ new, s'.log = s.log ++ new ∧ Kernel s₀ c₀ launch s' (events ++ new) := by
  cases hs with
  | blank hblank hnone =>
      refine ⟨rfl, [], by simp, ?_⟩
      rw [List.append_nil]
      exact h
  | @cut c' _ hd hc hround =>
      cases hround with
      | rests _ =>
          refine ⟨rfl, [], by simp, ?_⟩
          rw [List.append_nil]
          exact h
      | @works c₁ c₂ wCmds inCmds outCmds ended wrote hpim _ hstage hout =>
          refine ⟨rfl, _, rfl, ?_⟩
          cases h with
          | configured _ hc' hfresh _ _ _ _ =>
              rw [hc] at hc'
              cases hc'
              rw [hfresh.inPim] at hpim
              cases hpim
          | finished _ hc' hoff _ _ =>
              rw [hc] at hc'
              cases hc'
              rw [hoff] at hpim
              cases hpim
          | running hq hc' hwork hno =>
              rw [hc] at hc'
              cases hc'
              have hd₀ : s₀.dataflow.SingleCut := hflow ▸ hd
              have hfed := inputStage_feeds hd.numCuts hc hstage
              rw [hflow] at hfed
              have hwork₁ := (hwork.feeds hd₀ hfed).countOutput
              have hcount := count_roundEvents s.clk wCmds inCmds outCmds ended wrote
              rcases hout.writes with ⟨rfl, rfl, rfl⟩ | ⟨hvalid, hstatus, hne, hwrites⟩
              · refine goesOn hq rfl hno (fun hnew => ?_) (hcount ▸ hwork₁)
                cases outputExhausted_mem_roundEvents hnew
              · have hwaits : (countOutput c₁).iwStatus ≠ .streaming := by
                  rw [(inputStage_streamed hstatus hstage).1, countOutput_eq]
                  exact awaitArray_not_streaming hstatus
                have hsize := hd.mTileSizeOut_nonneg
                rw [hflow] at hsize hne hwrites
                rcases hwork₁.writes hd₀ (by omega) htiles hvalid hwaits hwrites with
                  ⟨hgoes, hwork₂⟩ | ⟨rfl, hcnt, htotal⟩
                · refine goesOn hq rfl hno (fun hnew => ?_) (hcount ▸ hwork₂)
                  exact hgoes (outputExhausted_mem_roundEvents hnew)
                · refine .finished hq rfl rfl hcnt ?_
                  rw [List.count_append, Nat.cast_add, hcount]
                  exact htotal

end Kernel

/-- A kernel in a run, with the events since it was configured. -/
structure KernelRun (s₀ : JedecDRAMSystem config) (c₀ : Cut) (launch : Nat)
    (s : JedecDRAMSystem config) (events : List SystemEvent) : Prop where
  one : OneCut s
  flow : s.dataflow = s₀.dataflow
  log : s.log = s₀.log ++ events
  kernel : Kernel s₀ c₀ launch s events

theorem settle_eq (s : JedecDRAMSystem config) :
    s.settle.dataflow = s.dataflow ∧ s.settle.log = s.log := by
  unfold settle
  split <;> exact ⟨rfl, rfl⟩

theorem KernelRun.step {s₀ s s' : JedecDRAMSystem config} {c₀ : Cut} {launch : Nat}
    {events : List SystemEvent} {op : SystemOp} (hd : s₀.dataflow.SingleCut)
    (hlaunch : isLaunch launch = true) (hfit : FitToRun config s₀.dataflow c₀)
    (htiles : s₀.dataflow.mOutTiles c₀ * s₀.dataflow.nOutTiles c₀ =
      s₀.dataflow.mTiles c₀ * s₀.dataflow.nTiles c₀)
    (h : KernelRun s₀ c₀ launch s events) (hop : op.isWord = false)
    (hs : (memorySystem config).step s op s') : ∃ events', KernelRun s₀ c₀ launch s' events' := by
  cases op with
  | addPim hexAddr => cases hop
  | add hexAddr isWrite =>
      have hone := h.one.step (show (SystemOp.add hexAddr isWrite).oneCut = true from rfl) hs
      obtain ⟨-, rfl⟩ := hs
      exact ⟨events, hone, h.flow, h.log, h.kernel.congr rfl rfl⟩
  | tick =>
      have hone := h.one.step (show SystemOp.tick.oneCut = true from rfl) hs
      obtain ⟨s₁, s₂, htick, -⟩ := h.one.clockTick hs
      obtain ⟨hflow, hlog⟩ := settle_eq s
      obtain ⟨hflow₁, hlog₁, hkernel₁⟩ :=
        h.kernel.settle.pops (by rw [hflow, h.flow]; exact hd) (hflow.trans h.flow) hlaunch hfit
          htick.pops
      obtain ⟨hflow₂, new, hlog₂, hkernel₂⟩ :=
        hkernel₁.rounds (hflow₁.trans (hflow.trans h.flow)) htiles htick.rounds
      refine ⟨events ++ new, hone, ?_, ?_, ?_⟩
      · rw [htick.eq]
        exact hflow₂.trans (hflow₁.trans (hflow.trans h.flow))
      · rw [htick.eq]
        exact hlog₂.trans (by rw [hlog₁, hlog, h.log, List.append_assoc])
      · rw [htick.eq]
        exact hkernel₂.congr rfl rfl

/-- From the launch of a kernel on, and with any ordinary transactions, the PIM mode is only
turned off when the array has finished and all tiles of outputs have been written. -/
theorem off_after_last_tile {s₀ s : JedecDRAMSystem config} {c₀ : Cut} {launch : Nat}
    {ops : List SystemOp} (hconf : s₀.Configured c₀ launch)
    (hfit : FitToRun config s₀.dataflow c₀) (hlast : s₀.dataflow.LastTileGivesOutput c₀)
    (hrun : (((memorySystem config).startingAt s₀).restrict
      fun _ op => op.isWord = false).Run ops s)
    (hoff : .outputExhausted 0 ∈ s.log.drop s₀.log.length) :
    ∃ c, s.cuts = [c] ∧ c.inPim = false ∧ c.inCnt = -1 ∧
      ((s.log.drop s₀.log.length).count (.tileWritten 0) : Int) =
        s₀.dataflow.mTiles c₀ * s₀.dataflow.nTiles c₀ := by
  have hd : s₀.dataflow.SingleCut := by
    have hloaded := hconf.one.loaded
    rw [hconf.cuts] at hloaded
    cases hloaded
    assumption
  have htiles := outTiles_eq hd hfit.mTileSize hfit.M hfit.N hfit.reduced hfit.product hlast
  have hinv : ∃ events, KernelRun s₀ c₀ launch s events := by
    refine hrun.invariant (fun s => ∃ events, KernelRun s₀ c₀ launch s events) ?_ ?_
    · exact ⟨[], hconf.one, rfl, by simp [Library.System.restrict, Library.System.startingAt],
        .configured hconf.queue hconf.cuts hconf.fresh rfl rfl rfl rfl⟩
    · rintro s op s' ⟨events, h⟩ ⟨hs, hop⟩
      exact h.step hd hconf.isLaunch hfit htiles hop hs
  obtain ⟨events, h⟩ := hinv
  rw [h.log, List.drop_left] at hoff ⊢
  cases h.kernel with
  | configured _ _ _ _ _ _ hnone => rw [hnone] at hoff; cases hoff
  | running _ _ _ hno => exact absurd hoff hno
  | finished _ hc hpim hcnt htiles => exact ⟨_, hc, hpim, hcnt, htiles⟩

/-- A kernel of one input and one output, from the cycle before its launch to its end. -/
theorem off_after_last_tile_one :
    ∃ s₀ s : JedecDRAMSystem .oneCycle, ∃ c₀ c : Cut, s₀.Configured c₀ 3 ∧ s₀.cuts = [c₀] ∧
      s.cuts = [c] ∧ c.inPim = false ∧ c.inCnt = -1 ∧
      ((s.log.drop s₀.log.length).count (.tileWritten 0) : Int) =
        s₀.dataflow.mTiles c₀ * s₀.dataflow.nTiles c₀ := by
  have hsome : ((replayWhere .oneCycle (fun _ op => op.oneCut)
      (kernelWords (dataflowWord 0 0 0 8) 1 1 1 0 0 0 ++ List.replicate 4 .tick)).any fun s₀ =>
        (replayFrom (fun _ op => !op.isWord) (List.replicate 30 .tick) s₀).any fun s =>
          s₀.cuts = [{ M := 1, N := 1, K := 1 }] && s₀.pimTransQueue = [3] &&
            s₀.dataflow = { vcuts := 1, hcuts := 1, df := 0, mTileSize := 256 } &&
            (s.log.drop s₀.log.length).contains (.outputExhausted 0)) = true := by
    decide +kernel
  obtain ⟨s₀, hs₀, hrest⟩ := (Option.any_eq_true _ _).mp hsome
  obtain ⟨s, hs, hprops⟩ := (Option.any_eq_true _ _).mp hrest
  simp only [Bool.and_eq_true, decide_eq_true_eq, List.contains_iff_mem] at hprops
  obtain ⟨⟨⟨hcut, hqueue⟩, hflow⟩, hoff⟩ := hprops
  have hfresh : Cut.Fresh { M := 1, N := 1, K := 1 } := by
    constructor <;> rfl
  have hconf : s₀.Configured { M := 1, N := 1, K := 1 } 3 :=
    ⟨OneCut.of_run (fun _ _ h => h) (run_of_replayWhere hs₀), hcut, hfresh, hqueue, rfl⟩
  have hfit : FitToRun .oneCycle s₀.dataflow { M := 1, N := 1, K := 1 } := by
    rw [hflow]
    constructor <;> decide
  have hrun := run_of_replayFrom hs
  simp only [Bool.not_eq_true'] at hrun
  obtain ⟨c, hc⟩ := off_after_last_tile hconf hfit (.inl (by rw [hflow])) hrun hoff
  exact ⟨s₀, s, _, c, hconf, hcut, hc⟩

/-- A reduced output of two tiles of inputs.  `M * mcf / 128 = 2` outputs are one tile, after
which the PIM mode is turned off while the second tile of inputs has not begun. -/
theorem off_before_second_tile :
    ∃ s : JedecDRAMSystem .oneCycle,
      (∃ ops, ((memorySystem .oneCycle).restrict fun _ op => op.oneCut = true).Run ops s) ∧
      s.dataflow.mTileSize = 256 ∧ s.cuts.map Cut.M = [257] ∧
      .outputExhausted 0 ∈ s.log ∧ s.log.count (.tileWritten 0) = 1 ∧
      s.cuts.map Cut.inCnt = [123] := by
  have hsome : ((replayStrict [⟨0, 0, 0⟩] (fun _ op => op.oneCut)
      (kernelWords (dataflowWord 1 0 0 8) 257 1 1 0 0 0 ++ List.replicate 285 .tick)
      ({} : JedecDRAMSystem .oneCycle)).any fun s =>
        s.dataflow.mTileSize = 256 && s.cuts.map Cut.M = [257] &&
        s.log.contains (.outputExhausted 0) && s.log.count (.tileWritten 0) = 1 &&
        s.cuts.map Cut.inCnt = [123]) = true := by
    decide +kernel
  obtain ⟨s, hs, hprops⟩ := (Option.any_eq_true _ _).mp hsome
  simp only [Bool.and_eq_true, decide_eq_true_eq, List.contains_iff_mem] at hprops
  rw [replayStrict_eq] at hs
  exact ⟨s, ⟨_, run_of_replayFrom hs⟩, hprops.1.1.1.1, hprops.1.1.1.2, hprops.1.1.2, hprops.1.2,
    hprops.2⟩

end JedecDRAMSystem

end Dramsim
