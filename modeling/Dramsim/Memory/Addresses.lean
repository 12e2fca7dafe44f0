import Dramsim.Memory.Cuts
import Mathlib.Data.Nat.Prime.Basic
import Mathlib.Tactic.Ring

/-!
# Addresses of the PIM scheduler

Bank numbers come from three formulas.  The banks of the weights are spread over the rank
with a fixed stride, those of the inputs with the stride `banks / mc`, and those of the
outputs add two to the bank within its group.  `targets_inside_iff` says for which
dataflow words all of them lie in the device.
-/

namespace Dramsim

/-- The address names a column of a bank of the device. -/
def Config.HasColumn (config : Config) (addr : Address) : Prop :=
  (0 ≤ addr.channel ∧ addr.channel < config.channels) ∧ config.HasBank addr.bankIndex ∧
    0 ≤ addr.column ∧ addr.column < (config.columns / config.BL : Nat)

namespace Dataflow

variable {config : Config} {d : Dataflow} {c : Cut}

/-- The commands that the scheduler builds for a cut. -/
def targets (config : Config) (d : Dataflow) (i : Nat) (c : Cut) : List Command :=
  d.weightTargets config i c ++ (d.inputTargets config i c).flatten ++ d.outputTargets config i c

end Dataflow

/-! ## Iterators do not become negative -/

/-- The dimensions and the iterators of a cut are not negative. -/
structure Cut.Nonneg (c : Cut) : Prop where
  M : 0 ≤ c.M
  N : 0 ≤ c.N
  K : 0 ≤ c.K
  MIt : 0 ≤ c.MIt
  NIt : 0 ≤ c.NIt
  KTileIt : 0 ≤ c.KTileIt
  MOutIt : 0 ≤ c.MOutIt
  NOutTileIt : 0 ≤ c.NOutTileIt

namespace Cut.Nonneg

open JedecDRAMSystem (Feeds Writes)

variable {config : Config} {d : Dataflow} {c c' : Cut}

theorem nTileIt (hd : d.SingleCut) (h : c.Nonneg) : 0 ≤ d.nTileIt c := by
  rw [Dataflow.nTileIt, hd.nTileSize]
  exact Int.tdiv_nonneg h.NIt (by decide)

theorem mTileIt (hd : d.SingleCut) (h : c.Nonneg) : 0 ≤ d.mTileIt c :=
  Int.tdiv_nonneg h.MIt hd.mTileSize_pos.le

theorem mOutTileIt (hd : d.SingleCut) (h : c.Nonneg) : 0 ≤ d.mOutTileIt c :=
  Int.tdiv_nonneg h.MOutIt hd.mTileSizeOut_nonneg

theorem nextWeight (hd : d.SingleCut) (h : c.Nonneg) : (d.nextWeight config c).Nonneg := by
  unfold Dataflow.nextWeight
  split
  · rw [hd.nTileSize]
    exact { h with NIt := Int.mul_nonneg (by decide) (h.nTileIt hd) }
  · exact { h with NIt := Int.add_nonneg h.NIt (by decide) }

theorem nextTile (hd : d.SingleCut) (h : c.Nonneg) : (d.nextTile config c).1.Nonneg := by
  have hm := h.mTileIt hd
  have hn := h.nTileIt hd
  have hsize := hd.mTileSize_pos.le
  have hk : 0 ≤ c.KTileIt + 1 := Int.add_nonneg h.KTileIt (by decide)
  have hstart : 0 ≤ d.mTileSize * d.mTileIt c := Int.mul_nonneg hsize hm
  have hnext : 0 ≤ d.mTileSize * (d.mTileIt c + 1) :=
    Int.mul_nonneg hsize (Int.add_nonneg hm (by decide))
  unfold Dataflow.nextTile
  rw [hd.nTileSize]
  have hcols : (0 : Int) ≤ 128 * (d.nTileIt c + 1) :=
    Int.mul_nonneg (by decide) (Int.add_nonneg hn (by decide))
  dsimp only
  split
  · split
    · split
      · exact { h with MIt := hnext, NIt := le_refl 0, KTileIt := le_refl 0 }
      · exact { h with MIt := hnext, NIt := le_refl 0, KTileIt := le_refl 0 }
    · exact { h with MIt := hstart, NIt := hcols, KTileIt := le_refl 0 }
  · exact { h with MIt := hstart, KTileIt := hk }

theorem nextInput (hd : d.SingleCut) (h : c.Nonneg) : (d.nextInput config c).1.Nonneg := by
  have hout : Cut.Nonneg (if d.lastKTile config c ∧ c.MIt.tmod d.mTileSize = 0 then
      { c with outCnt := Dataflow.outDelay config } else c) := by
    split
    · exact { h with }
    · exact h
  unfold Dataflow.nextInput
  dsimp only
  split
  · exact nextTile hd hout
  · exact { hout with MIt := Int.add_nonneg h.MIt (by decide) }

theorem nextOutput (hd : d.SingleCut) (h : c.Nonneg) : (d.nextOutput c).1.Nonneg := by
  have hsize := hd.mTileSizeOut_nonneg
  have hit := h.mOutTileIt hd
  unfold Dataflow.nextOutput
  dsimp only
  split
  · split
    · exact { h with
        MOutIt := Int.mul_nonneg hsize (Int.add_nonneg hit (by decide)), NOutTileIt := le_refl 0 }
    · exact { h with
        MOutIt := Int.mul_nonneg hsize hit, NOutTileIt := Int.add_nonneg h.NOutTileIt (by decide) }
  · exact { h with MOutIt := Int.add_nonneg h.MOutIt (by decide) }

theorem awaitArray (h : c.Nonneg) : (JedecDRAMSystem.awaitArray c).Nonneg := by
  rw [JedecDRAMSystem.awaitArray_eq]
  exact { h with }

theorem countOutput (h : c.Nonneg) : (JedecDRAMSystem.countOutput c).Nonneg := by
  rw [JedecDRAMSystem.countOutput_eq]
  exact { h with }

theorem closeTile (h : c.Nonneg) (written : Dataflow.Written) :
    (JedecDRAMSystem.closeTile c written).Nonneg := by
  cases written with
  | column => exact h
  | tile => exact { h with }
  | all => exact { h with }

theorem feeds {ended : Bool} (hd : d.SingleCut) (h : c.Nonneg)
    (hf : Feeds config d c c' ended) : c'.Nonneg := by
  cases hf with
  | waits _ _ _ => exact { h with }
  | weight _ _ => exact nextWeight hd { h with }
  | begins _ => exact { h with }
  | input _ _ _ => exact nextInput hd { h with }
  | awaits _ => exact h.awaitArray

theorem writes {written : Dataflow.Written} (hd : d.SingleCut) (h : c.Nonneg)
    (hw : Writes d c c' written) : c'.Nonneg := by
  cases hw with
  | waits _ => exact { h with }
  | output _ => exact nextOutput hd { h with }

end Cut.Nonneg

/-! ## Runs -/

/-- A dimension among the operations is below `2 ^ 30`, so that it is not negative and the end of
a tile is an `int`. -/
def SystemOp.dimsFit : SystemOp → Bool
  | .addPim hexAddr => JedecDRAMSystem.bits hexAddr 7 32 < 2 ^ 30
  | _ => true

namespace JedecDRAMSystem

variable {config : Config}

/-- The workload of the cut and the workloads to come are not negative. -/
structure Sized (s : JedecDRAMSystem config) : Prop where
  oneCut : OneCut s
  words : ∀ addr ∈ s.pimTransQueue, bits addr 7 32 < 2 ^ 30
  cut : ∀ c ∈ s.cuts, c.Nonneg

namespace Sized

theorem init : Sized ({} : JedecDRAMSystem config) := ⟨.init, by simp, by simp⟩

variable {s s' : JedecDRAMSystem config} (h : Sized s)

include h

theorem settle : Sized s.settle := by
  have hreturn : ∀ c ∈ s.returnAll.cuts, c.Nonneg := h.cut
  have hwords : ∀ addr ∈ s.returnAll.pimTransQueue, bits addr 7 32 < 2 ^ 30 := h.words
  refine ⟨h.oneCut.settle, ?_, ?_⟩ <;> unfold JedecDRAMSystem.settle <;> split
  · exact hwords
  · exact hwords
  · intro c hc
    obtain ⟨c₀, hc₀, rfl⟩ := List.mem_map.mp hc
    exact { hreturn c₀ hc₀ with }
  · exact hreturn

theorem popPim (hs : s.popPim = .ok s') : Sized s' := by
  refine ⟨h.oneCut.popPim hs, ?_, ?_⟩
  · have hrest {addr : Nat} {rest : List Nat} (hq : s.pimTransQueue = addr :: rest) :
        ∀ a ∈ rest, bits a 7 32 < 2 ^ 30 := fun a ha =>
      h.words a (by rw [hq]; exact List.mem_cons_of_mem _ ha)
    cases popPim_spec hs with
    | none _ => exact h.words
    | waits _ _ => exact h.words
    | launches hq _ _ => exact hrest hq
    | flow hq _ => exact hrest hq
    | work hq _ _ _ _ => exact hrest hq
  · cases popPim_spec hs with
    | none _ => exact h.cut
    | waits _ _ => exact h.cut
    | launches _ _ _ =>
        intro c hc
        obtain ⟨i, hi, rfl⟩ := List.mem_mapIdx.mp hc
        have hold := h.cut _ (List.getElem_mem hi)
        split
        · exact { hold with }
        · exact hold
    | flow _ _ =>
        intro c hc
        rw [List.eq_of_mem_replicate hc]
        exact ⟨le_refl 0, le_refl 0, le_refl 0, le_refl 0, le_refl 0, le_refl 0, le_refl 0,
          le_refl 0⟩
    | @work addr rest _ _ hq _ _ hc hload =>
        intro c hmem
        have hdim : 0 ≤ toInt (bits addr 7 32 : Nat) := by
          rw [toInt_of_lt ((h.words addr (by simp [hq])).trans (by decide))]
          exact Int.natCast_nonneg _
        obtain hmem | rfl := List.mem_or_eq_of_mem_set hmem
        · exact h.cut c hmem
        · have hold := h.cut _ (List.mem_of_getElem? hc)
          unfold loadInto at hload
          dsimp only at hload
          generalize toInt _ = dimValue at hload hdim
          split at hload
          · cases hload
            exact { hold with M := hdim }
          · cases hload
            exact { hold with K := hdim }
          · cases hload
            exact { hold with N := hdim }
          · cases hload

theorem rounds {wait : Bool} (hs : s.Rounds wait s') : Sized s' := by
  refine ⟨h.oneCut.of_rounds hs, ?_, ?_⟩
  · cases hs with
    | blank _ _ => exact h.words
    | cut _ _ hround => cases hround with
      | rests _ => exact h.words
      | works _ _ _ _ => exact h.words
  · cases hs with
    | blank _ _ => exact h.cut
    | cut hd hc hround =>
        cases hround with
        | rests _ => exact h.cut
        | works _ _ hstage hout =>
            have hold := h.cut _ (by rw [hc]; exact List.mem_singleton_self _)
            have hfed := (hold.feeds hd (inputStage_feeds hd.numCuts hc hstage)).countOutput
            intro c' hmem
            rw [List.mem_singleton.mp hmem]
            obtain ⟨rfl, _, _⟩ | ⟨_, _, _, hwrites⟩ := hout.writes
            · exact hfed.closeTile _
            · exact (hfed.writes hd hwrites).closeTile _

theorem step {op : SystemOp} (hop : op.oneCut = true) (hdims : op.dimsFit = true)
    (hs : (memorySystem config).step s op s') : Sized s' := by
  cases op with
  | addPim hexAddr =>
      refine ⟨h.oneCut.step hop hs, ?_, ?_⟩ <;> obtain ⟨_, rfl⟩ := hs
      · intro addr hmem
        obtain hmem | rfl := List.mem_append.mp hmem |>.imp_right List.mem_singleton.mp
        · exact h.words addr hmem
        · simpa [SystemOp.dimsFit] using hdims
      · exact h.cut
  | add hexAddr isWrite =>
      refine ⟨h.oneCut.step hop hs, ?_, ?_⟩ <;> obtain ⟨_, rfl⟩ := hs
      · exact h.words
      · exact h.cut
  | tick =>
      obtain ⟨s₁, s₂, ctrls, hpop, hcuts, _, rfl⟩ := clockTick_spec hs
      have h₁ := h.settle.popPim hpop
      have h₂ := h₁.rounds (h₁.oneCut.rounds hcuts)
      exact ⟨h.oneCut.step hop hs, h₂.words, h₂.cut⟩

end Sized

/-- Runs whose words ask for one cut and give dimensions that are not negative. -/
theorem Sized.of_run {ops : List SystemOp} {s : JedecDRAMSystem config}
    (hrun : ((memorySystem config).restrict fun _ op => op.oneCut = true ∧ op.dimsFit = true).Run
      ops s) : Sized s :=
  hrun.invariant Sized .init fun _ _ _ h hs => h.step hs.2.1 hs.2.2 hs.1

end JedecDRAMSystem

/-! ## Columns -/

namespace Cut.Nonneg

variable {config : Config} {d : Dataflow} {c : Cut} (hd : d.SingleCut) (h : c.Nonneg)

include hd h

theorem kTiles : 0 ≤ d.kTiles config c := by
  have hK := h.K
  unfold Dataflow.kTiles Dataflow.kTileSize
  rw [hd.cutHeight]
  have hsize : 0 ≤ min ((config.channels : Int) * 16) c.K := by omega
  rcases hK.lt_or_eq with hpos | hzero
  · exact Int.add_nonneg (Int.tdiv_nonneg (by omega) hsize) (by decide)
  · have hmin : min ((config.channels : Int) * 16) c.K = 0 := by omega
    rw [hmin, Int.tdiv_zero]
    decide

theorem nTileSizePerBank : 0 ≤ d.nTileSizePerBank config c := by
  have hN := h.N
  have hbanks : 0 ≤ d.weightBanks config := by
    unfold Dataflow.weightBanks Dataflow.weightBanksReduce
    rw [hd.cutWidth]
    split <;> exact Int.tdiv_nonneg (by omega) (by decide)
  have hshare : 0 ≤ ((128 : Int) - 1).tdiv (d.weightBanks config) :=
    Int.tdiv_nonneg (by decide) hbanks
  unfold Dataflow.nTileSizePerBank
  rw [hd.nTileSize]
  omega

theorem weightOffset : 0 ≤ d.weightOffset config c := by
  have hshare : 0 ≤ d.nTileSizePerBank config c := h.nTileSizePerBank hd
  exact Int.add_nonneg
    (Int.add_nonneg (Int.mul_nonneg (h.nTileIt hd) (Int.mul_nonneg hshare (h.kTiles hd)))
      (Int.mul_nonneg h.KTileIt hshare))
    (Int.tmod_nonneg _ h.NIt)

theorem mCurrentTileSize : 0 ≤ d.mCurrentTileSize c := by
  unfold Dataflow.mCurrentTileSize
  split
  · exact Int.tmod_nonneg _ h.M
  · exact hd.mTileSize_pos.le

theorem inputOffset : 0 ≤ d.inputOffset config c :=
  Int.add_nonneg
    (Int.add_nonneg
      (Int.mul_nonneg (h.mTileIt hd) (Int.mul_nonneg hd.mTileSize_pos.le (h.kTiles hd)))
      (Int.mul_nonneg h.KTileIt (h.mCurrentTileSize hd)))
    (Int.tmod_nonneg _ h.MIt)

theorem mOutCurrentTileSize : 0 ≤ d.mOutCurrentTileSize c := by
  have hM := h.M
  unfold Dataflow.mOutCurrentTileSize
  split
  · refine Int.tmod_nonneg _ ?_
    unfold Dataflow.mOut
    split <;> omega
  · exact hd.mTileSizeOut_nonneg

theorem nTileNumCh : 0 ≤ d.nTileNumCh c := by
  have hN := h.N
  have hnum : -1 ≤ (c.N - 1).tdiv 128 := by
    rcases hN.lt_or_eq with hpos | hzero
    · exact le_trans (by decide) (Int.tdiv_nonneg (by omega) (by decide))
    · rw [← hzero]
      decide
  unfold Dataflow.nTileNumCh
  dsimp only
  rw [hd.nTileSizeOut, hd.vcuts, Int.tdiv_one]
  split <;> omega

theorem outputOffset : 0 ≤ d.outputOffset c := by
  refine Int.add_nonneg (Int.add_nonneg ?_ ?_) (Int.tmod_nonneg _ h.MOutIt)
  · exact Int.mul_nonneg (h.mOutTileIt hd) (Int.mul_nonneg hd.mTileSizeOut_nonneg (h.nTileNumCh hd))
  · rw [hd.vcuts, Int.tdiv_one]
    exact Int.mul_nonneg h.NOutTileIt (h.mOutCurrentTileSize hd)

end Cut.Nonneg

/-! ## Banks -/

namespace Dataflow

variable {config : Config} {d : Dataflow} {c : Cut}

/-- The column offsets of the three streams are values of `int`. -/
def OffsetsFit (config : Config) (d : Dataflow) (c : Cut) : Prop :=
  d.weightOffset config c < 2 ^ 31 ∧ d.inputOffset config c < 2 ^ 31 ∧ d.outputOffset c < 2 ^ 31

instance : Decidable (d.OffsetsFit config c) := inferInstanceAs (Decidable (_ ∧ _ ∧ _))

/-- An address that the scheduler builds lies in the device when its bank does. -/
theorem hasColumn_address {channel bk bankOffset baseRow colOffset : Int}
    (hrow : 0 < config.columns / config.BL) (hch : 0 ≤ channel ∧ channel < config.channels)
    (hbk : 0 ≤ bk) (hoff : 0 ≤ bankOffset) (hcol : 0 ≤ colOffset) (hfits : colOffset < 2 ^ 31) :
    config.HasColumn (address config channel bk bankOffset baseRow (toInt colOffset)) ↔
      bk < config.banks ∧ bk % config.banksPerGroup + bankOffset < config.banksPerGroup := by
  have hgroup : (0 : Int) < config.banksPerGroup := Int.natCast_pos.mpr config.banksPerGroup_pos
  have hcolumns : 0 < rowColumns config := Int.natCast_pos.mpr hrow
  have hranks := config.ranks_pos
  have hmod := Int.emod_nonneg bk hgroup.ne'
  have hdiv : bk / config.banksPerGroup < config.bankgroups ↔ bk < config.banks := by
    rw [Int.ediv_lt_iff_lt_mul hgroup, Config.banks, Int.natCast_mul]
  simp only [Config.HasColumn, Config.HasBank, address, Address.bankIndex,
    Int.tdiv_eq_ediv_of_nonneg hbk, Int.tmod_eq_emod_of_nonneg hbk, toInt_of_nonneg hcol hfits,
    Int.tmod_eq_emod_of_nonneg hcol, hdiv]
  constructor
  · rintro ⟨-, ⟨-, ⟨-, hlt⟩, -, hbank⟩, -⟩
    exact ⟨hlt, hbank⟩
  · rintro ⟨hlt, hbank⟩
    exact ⟨hch, ⟨⟨le_refl 0, by omega⟩, ⟨Int.ediv_nonneg hbk hgroup.le, hlt⟩, by omega, hbank⟩,
      Int.emod_nonneg _ hcolumns.ne', Int.emod_lt_of_pos _ hcolumns⟩

theorem mem_loop {bound : Int} {k : Nat} : k ∈ loop bound ↔ (k : Int) < bound := by
  rw [loop, List.mem_range]
  omega

theorem emod_banksPerGroup_lt (bk : Int) :
    bk % config.banksPerGroup + 0 < config.banksPerGroup := by
  rw [Int.add_zero]
  exact Int.emod_lt_of_pos _ (Int.natCast_pos.mpr config.banksPerGroup_pos)

/-- The banks of the weights are spread over the rank. -/
theorem hasColumn_weightAddress (hd : d.SingleCut) (hc : c.Nonneg) (hfits : d.OffsetsFit config c)
    (hrow : 0 < config.columns / config.BL) {j k : Nat} (hj : (j : Int) < config.channels)
    (hk : (k : Int) < d.weightBanks config) :
    config.HasColumn (d.weightAddress config 0 c j k) := by
  have hreduce : d.weightBanksReduce = 8 ∨ d.weightBanksReduce = 16 := by
    unfold weightBanksReduce
    split <;> simp
  rw [weightBanks, hd.cutWidth, Int.tdiv_eq_ediv_of_nonneg (by omega)] at hk
  rw [weightAddress, weightColOffset, hd.hcutNo, hd.vcutNo, Int.zero_mul, Int.zero_add,
    Int.zero_mul, Int.zero_add,
    hasColumn_address hrow ⟨by omega, hj⟩ (by rcases hreduce with h | h <;> rw [h] <;> omega)
      (le_refl 0) (hc.weightOffset hd) hfits.1]
  refine ⟨?_, emod_banksPerGroup_lt _⟩
  rcases hreduce with h | h <;> rw [h] at hk ⊢ <;> omega

/-- The banks of the inputs, and those of the outputs before two is added. -/
def columnBank (config : Config) (d : Dataflow) (k : Nat) : Int :=
  k * (config.banks : Int).tdiv d.mc + if d.df = 0 then 1 else 0

theorem columnBank_nonneg (hd : d.SingleCut) (k : Nat) : 0 ≤ columnBank config d k := by
  have hstride := Int.tdiv_nonneg (Int.natCast_nonneg config.banks) hd.mc_pos.le
  have hmul := Int.mul_nonneg (Int.natCast_nonneg k) hstride
  unfold columnBank
  split <;> omega

theorem hasColumn_inputAddress (hd : d.SingleCut) (hc : c.Nonneg) (hfits : d.OffsetsFit config c)
    (hrow : 0 < config.columns / config.BL) {j k : Nat} (hj : (j : Int) < config.channels) :
    config.HasColumn (d.inputAddress config 0 c j k) ↔ columnBank config d k < config.banks := by
  rw [inputAddress, inputColOffset, hd.hcutNo, hd.vcutNo, hd.cutWidth, Int.zero_mul, Int.zero_add,
    Int.zero_mul, Int.zero_add]
  change config.HasColumn (address config j (columnBank config d k) 0 _ _) ↔ _
  rw [hasColumn_address hrow ⟨by omega, hj⟩ (columnBank_nonneg hd k) (le_refl 0)
    (hc.inputOffset hd) hfits.2.1]
  exact and_iff_left (emod_banksPerGroup_lt _)

theorem hasColumn_outputAddress (hd : d.SingleCut) (hc : c.Nonneg) (hfits : d.OffsetsFit config c)
    (hrow : 0 < config.columns / config.BL) {j k : Nat} (hj : (j : Int) < config.channels) :
    config.HasColumn (d.outputAddress config 0 c j k) ↔
      columnBank config d k < config.banks ∧
        columnBank config d k % config.banksPerGroup + (if d.df = 0 then 2 else 0) <
          config.banksPerGroup := by
  have hout : d.vcutOutNo 0 c = 0 := by
    unfold vcutOutNo
    rw [hd.vcutNo, hd.vcuts]
    simp
  have hone : (if d.df ≠ 1 then (1 : Int) else 0) = if d.df = 0 then 1 else 0 := by
    rcases hd.df with h | h <;> rw [h] <;> rfl
  rw [outputAddress, hd.hcutNo, hd.vcutNo, hd.cutWidth, hout, hone, Int.zero_mul, Int.zero_mul,
    Int.zero_mul, Int.zero_add, Int.zero_add, Int.zero_add]
  change config.HasColumn (address config j (columnBank config d k) _ _ _) ↔ _
  exact hasColumn_address hrow ⟨by omega, hj⟩ (columnBank_nonneg hd k) (by split <;> decide)
    (hc.outputOffset hd) hfits.2.2

/-! ## All targets -/

/-- The targets of a cut lie in the device when their banks do. -/
theorem targets_hasColumn (hd : d.SingleCut) (hc : c.Nonneg) (hfits : d.OffsetsFit config c)
    (hrow : 0 < config.columns / config.BL) (hch : 0 < config.channels) :
    (∀ cmd ∈ targets config d 0 c, config.HasColumn cmd.addr) ↔
      (∀ k : Nat, (k : Int) < d.mc → columnBank config d k < config.banks) ∧
        ∀ k : Nat, (k : Int) < (if d.df = 1 then 1 else d.mc) →
          columnBank config d k < config.banks ∧
            columnBank config d k % config.banksPerGroup + (if d.df = 0 then 2 else 0) <
              config.banksPerGroup := by
  have hfirst : ((0 : Nat) : Int) < config.channels := by omega
  have hheight : d.cutHeightOut config = config.channels := by
    rw [cutHeightOut, hd.cutHeight, hd.vcuts, if_neg (by omega), Int.tdiv_one]
  rw [targets, List.forall_mem_append, List.forall_mem_append]
  constructor
  · rintro ⟨⟨-, hin⟩, hout⟩
    constructor
    · intro k hk
      refine (hasColumn_inputAddress hd hc hfits hrow hfirst).mp
        (hin (command config (d.inputType config c) _) ?_)
      refine List.mem_flatten.mpr ⟨_, List.mem_map.mpr ⟨0, ?_, rfl⟩,
        List.mem_map.mpr ⟨k, mem_loop.mpr hk, rfl⟩⟩
      exact mem_loop.mpr (hd.cutHeight ▸ hfirst)
    · intro k hk
      refine (hasColumn_outputAddress hd hc hfits hrow hfirst).mp
        (hout (command config (d.outputType config c) _) ?_)
      refine List.mem_flatMap.mpr ⟨0, ?_, List.mem_map.mpr ⟨k, mem_loop.mpr hk, rfl⟩⟩
      exact mem_loop.mpr (hheight ▸ hfirst)
  · rintro ⟨hin, hout⟩
    refine ⟨⟨?_, ?_⟩, ?_⟩
    · intro cmd hcmd
      obtain ⟨j, hj, hcmd⟩ := List.mem_flatMap.mp hcmd
      obtain ⟨k, hk, rfl⟩ := List.mem_map.mp hcmd
      exact hasColumn_weightAddress hd hc hfits hrow (hd.cutHeight ▸ mem_loop.mp hj)
        (mem_loop.mp hk)
    · intro cmd hcmd
      obtain ⟨cmds, hcmds, hcmd⟩ := List.mem_flatten.mp hcmd
      obtain ⟨j, hj, rfl⟩ := List.mem_map.mp hcmds
      obtain ⟨k, hk, rfl⟩ := List.mem_map.mp hcmd
      exact (hasColumn_inputAddress hd hc hfits hrow (hd.cutHeight ▸ mem_loop.mp hj)).mpr
        (hin k (mem_loop.mp hk))
    · intro cmd hcmd
      obtain ⟨j, hj, hcmd⟩ := List.mem_flatMap.mp hcmd
      obtain ⟨k, hk, rfl⟩ := List.mem_map.mp hcmd
      exact (hasColumn_outputAddress hd hc hfits hrow (hheight ▸ mem_loop.mp hj)).mpr
        (hout k (mem_loop.mp hk))

/-! ## Strides -/

/-- A power of two is small or a multiple of four. -/
theorem two_pow_cases (n : Nat) : 2 ^ n = 1 ∨ 2 ^ n = 2 ∨ 4 ∣ 2 ^ n := by
  rcases n with _ | _ | n
  · exact .inl rfl
  · exact .inr (.inl rfl)
  · exact .inr (.inr ⟨2 ^ n, by ring⟩)

theorem stride_cases (n m : Nat) :
    (2 ^ n < 2 ^ m ∧ 2 ^ n / 2 ^ m = 0) ∨
      (2 ^ m * (2 ^ n / 2 ^ m) = 2 ^ n ∧
        (2 ^ n / 2 ^ m = 1 ∨ 2 ^ n / 2 ^ m = 2 ∨ 4 ∣ 2 ^ n / 2 ^ m)) := by
  rcases Nat.lt_or_ge n m with hlt | hge
  · have hpow : 2 ^ n < 2 ^ m := Nat.pow_lt_pow_right (by decide) hlt
    exact .inl ⟨hpow, Nat.div_eq_of_lt hpow⟩
  · rw [Nat.pow_div hge (by decide)]
    exact .inr ⟨by rw [← Nat.pow_add, Nat.add_sub_cancel' hge], two_pow_cases (n - m)⟩

/-- Banks with a stride, moved by one bank and then by two within their group, stay in
the device exactly when the stride is zero or a multiple of four. -/
theorem shifted_inside_iff {n m p : Nat} (hn : 1 ≤ n) (hp : p ≤ n) :
    (∀ k < 2 ^ m, k * (2 ^ n / 2 ^ m) + 1 < 2 ^ n ∧
        (k * (2 ^ n / 2 ^ m) + 1) % 2 ^ p + 2 < 2 ^ p) ↔
      4 ≤ 2 ^ p ∧ (4 * 2 ^ m ≤ 2 ^ n ∨ 2 ^ n < 2 ^ m) := by
  have hC : 0 < 2 ^ m := Nat.two_pow_pos m
  have hP : 0 < 2 ^ p := Nat.two_pow_pos p
  have hB : 2 ^ 1 ≤ 2 ^ n := Nat.pow_le_pow_right (by decide) hn
  have hPB : 2 ^ p ≤ 2 ^ n := Nat.pow_le_pow_right (by decide) hp
  have hgroup := two_pow_cases p
  have hstride := stride_cases n m
  generalize 2 ^ n = B at *
  generalize 2 ^ m = C at *
  generalize 2 ^ p = P at *
  constructor
  · intro h
    have hfirst := (h 0 hC).2
    rw [Nat.zero_mul, Nat.zero_add] at hfirst
    have hfour : 4 ≤ P := by
      rcases hgroup with rfl | rfl | ⟨q, rfl⟩ <;> simp at hfirst ⊢
      omega
    refine ⟨hfour, ?_⟩
    rcases hstride with ⟨hlt, -⟩ | ⟨hmul, hone | htwo | ⟨q, hq⟩⟩
    · exact .inr hlt
    · -- every bank holds inputs, and the last one is followed by none
      have hlast := (h (C - 1) (by omega)).1
      rw [hone] at hmul hlast
      omega
    · -- the last odd bank of the first group
      have hlast := (h (P / 2 - 1) (by rw [htwo] at hmul; omega)).2
      rw [htwo, Nat.mod_eq_of_lt (by omega)] at hlast
      omega
    · refine .inl ?_
      rcases q with _ | q
      · rw [hq] at hmul
        omega
      · rw [hq] at hmul
        have : C * (4 * (q + 1)) = 4 * C + 4 * (C * q) := by ring
        omega
  · rintro ⟨hfour, hcond⟩ k hk
    rcases hstride with ⟨hlt, hzero⟩ | ⟨hmul, hone | htwo | ⟨q, hq⟩⟩
    · rw [hzero, Nat.mul_zero, Nat.zero_add, Nat.mod_eq_of_lt (by omega)]
      omega
    · rw [hone] at hmul
      omega
    · rw [htwo] at hmul
      omega
    · obtain ⟨r, hr⟩ : 4 ∣ P := by omega
      have hroom : (k + 1) * (B / C) ≤ C * (B / C) := Nat.mul_le_mul_right _ hk
      rw [hmul, Nat.succ_mul] at hroom
      have hpos : q ≠ 0 := by
        rintro rfl
        rw [hq] at hmul
        omega
      refine ⟨by omega, ?_⟩
      have hmul4 : k * (B / C) = 4 * (k * q) := by
        rw [hq]
        ring
      have hmod := Nat.mod_mod_of_dvd (4 * (k * q) + 1) (Dvd.intro r hr.symm)
      have hlt := Nat.mod_lt (4 * (k * q) + 1) hP
      rw [hmul4]
      omega

/-- Banks with a stride stay in the device. -/
theorem spread_lt {banks mc k : Nat} (hbanks : 0 < banks) (hk : k < mc) :
    k * (banks / mc) < banks := by
  rcases Nat.eq_zero_or_pos (banks / mc) with hzero | hpos
  · rwa [hzero, Nat.mul_zero]
  · exact Nat.lt_of_lt_of_le (Nat.mul_lt_mul_of_pos_right hk hpos) (Nat.mul_div_le banks mc)

/-- The dataflow words whose banks lie in the device. -/
def FitsDevice (config : Config) (d : Dataflow) : Prop :=
  d.df = 1 ∨ (4 ≤ config.banksPerGroup ∧ (4 * d.mc ≤ config.banks ∨ config.banks < d.mc))

theorem columnBank_eq {n m : Nat} (hn : config.banks = 2 ^ n) (hm : d.mc = 2 ^ m) (k : Nat) :
    columnBank config d k = (k * (2 ^ n / 2 ^ m) + if d.df = 0 then 1 else 0 : Nat) := by
  rw [columnBank, hn, hm, Int.tdiv_eq_ediv_of_nonneg (by omega)]
  push_cast
  rfl

/-- The targets of a cut lie in the device exactly when the dataflow word fits it. -/
theorem targets_hasColumn_iff (hd : d.SingleCut) (hc : c.Nonneg) (hfits : d.OffsetsFit config c)
    {n : Nat} (hn : config.banks = 2 ^ n) (hpos : 1 ≤ n) (hrow : 0 < config.columns / config.BL)
    (hch : 0 < config.channels) :
    (∀ cmd ∈ targets config d 0 c, config.HasColumn cmd.addr) ↔ d.FitsDevice config := by
  obtain ⟨m, hm⟩ := hd.mc_pow
  obtain ⟨p, hp, hgroup⟩ := (Nat.dvd_prime_pow Nat.prime_two).mp
    (hn ▸ Dvd.intro_left config.bankgroups rfl : config.banksPerGroup ∣ 2 ^ n)
  have hbanks : 0 < 2 ^ n := Nat.two_pow_pos n
  have hmc (k : Nat) : (k : Int) < d.mc ↔ k < 2 ^ m := by
    rw [hm]
    exact_mod_cast Iff.rfl
  rw [targets_hasColumn hd hc hfits hrow hch, FitsDevice]
  simp only [columnBank_eq hn hm]
  rcases hd.df with hdf | hdf
  · have hfits : (4 ≤ config.banksPerGroup ∧ (4 * d.mc ≤ config.banks ∨ config.banks < d.mc)) ↔
        4 ≤ 2 ^ p ∧ (4 * 2 ^ m ≤ 2 ^ n ∨ 2 ^ n < 2 ^ m) := by
      rw [hgroup, hn, hm]
      exact_mod_cast Iff.rfl
    rw [hfits, ← shifted_inside_iff hpos hp]
    simp only [hdf, if_true, zero_ne_one, if_false, false_or, hmc, hn, hgroup]
    constructor
    · rintro ⟨-, hout⟩ k hk
      exact_mod_cast hout k hk
    · intro h
      exact ⟨fun k hk => by exact_mod_cast (h k hk).1, fun k hk => by exact_mod_cast h k hk⟩
  · have hP : 0 < 2 ^ p := Nat.two_pow_pos p
    simp only [hdf, one_ne_zero, if_true, if_false, true_or, iff_true, hn, hgroup, Nat.add_zero]
    refine ⟨fun k hk => by exact_mod_cast spread_lt hbanks ((hmc k).mp hk), fun k hk => ?_⟩
    obtain rfl : k = 0 := by omega
    rw [Nat.zero_mul]
    exact ⟨by exact_mod_cast hbanks, by exact_mod_cast hP⟩

end Dataflow

/-! ## Reachable states -/

namespace JedecDRAMSystem

/-- In every state that a run with one cut and dimensions below `2 ^ 30` reaches, and while the
column offsets are values of `int`, the scheduler's commands for weights, inputs and outputs lie
in the device exactly when the dataflow word fits it. -/
theorem targets_inside_iff (config : Config) {n : Nat} (hbanks : config.banks = 2 ^ n)
    (hsixteen : 4 ≤ n) (hchannels : 0 < config.channels) (hrow : 0 < config.columns / config.BL)
    {ops : List SystemOp} {s : JedecDRAMSystem config}
    (hrun : ((memorySystem config).restrict fun _ op => op.oneCut = true ∧ op.dimsFit = true).Run
      ops s) {c : Cut} (hc : c ∈ s.cuts) (hfits : s.dataflow.OffsetsFit config c) :
    (∀ cmd ∈ s.dataflow.targets config 0 c, config.HasColumn cmd.addr) ↔
      s.dataflow.FitsDevice config := by
  have hsized := Sized.of_run hrun
  have hcut := hsized.cut c hc
  have hloaded := hsized.oneCut.loaded
  generalize s.cuts = cuts at hloaded hc
  cases hloaded with
  | blank _ => cases hc
  | cut _ hd => exact Dataflow.targets_hasColumn_iff hd hcut hfits hbanks (by omega) hrow hchannels

/-- A launched kernel on four groups of four banks with `mcf * ucf = 4`. -/
theorem targets_inside_iff_four :
    ∃ s : JedecDRAMSystem .hbm2Rank, ∃ c ∈ s.cuts, c.inPim = true ∧
      ∀ cmd ∈ s.dataflow.targets .hbm2Rank 0 c, Config.hbm2Rank.HasColumn cmd.addr := by
  have hsome : ((replayWhere .hbm2Rank (fun _ op => op.oneCut && op.dimsFit)
      (kernelWords (dataflowWord 0 1 1 8) 1 1 1 0 0 0 ++ List.replicate 5 .tick)).any fun s =>
      s.dataflow.mc = 4 && s.cuts.any fun c =>
        c.inPim && s.dataflow.OffsetsFit .hbm2Rank c) = true := by
    decide +kernel
  obtain ⟨s, hs, hflow⟩ := (Option.any_eq_true _ _).mp hsome
  simp only [Bool.and_eq_true, decide_eq_true_eq, List.any_eq_true] at hflow
  obtain ⟨hmc, c, hc, hpim, hfits⟩ := hflow
  refine ⟨s, c, hc, hpim, ?_⟩
  have hrun := run_of_replayWhere hs
  simp only [Bool.and_eq_true] at hrun
  refine (targets_inside_iff .hbm2Rank (n := 4) (by decide) (by decide) (by decide) (by decide) hrun
    hc hfits).mpr (.inr ⟨by decide, .inl ?_⟩)
  rw [hmc]
  decide

/-- A kernel with `mcf * ucf = 16` activates a bank of the bankgroup after the last
one. -/
theorem input_bank_outside :
    ∃ s : JedecDRAMSystem .hbm2Rank, (∃ ops, (memorySystem .hbm2Rank).Run ops s) ∧
      ∃ cmd ∈ (s.pushed .inputs).flatten, cmd.cmdType = .pimActivate ∧
        Config.hbm2Rank.bankgroups = cmd.addr.bankgroup := by
  have hsome : ((replayWhere .hbm2Rank (fun _ _ => true)
      (kernelWords (dataflowWord 0 2 2 8) 1 1 1 0 0 0 ++ List.replicate 53 .tick)).any
      fun s => (s.pushed .inputs).flatten.any fun cmd => cmd.cmdType = .pimActivate &&
        Config.hbm2Rank.bankgroups = cmd.addr.bankgroup) = true := by
    decide +kernel
  obtain ⟨s, hs, hany⟩ := (Option.any_eq_true _ _).mp hsome
  obtain ⟨cmd, hcmd, hbank⟩ := List.any_eq_true.mp hany
  refine ⟨s, ⟨_, (run_of_replayWhere hs).of_restrict⟩, cmd, hcmd, ?_⟩
  simpa using hbank

end JedecDRAMSystem

end Dramsim
