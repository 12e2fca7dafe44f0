import Dramsim.Model.Common
import Mathlib.Data.List.Nodup
import Mathlib.Data.Nat.Log

/-!
# Configuration

The part of `configuration.h` that a controller reads.  Sizes are natural
numbers and the timing parameters are the signed integers of the file.
Quantities the source computes once, such as `banks`, `RL` or `write_delay`,
are functions of the others, so their defining equations hold by definition.

A device without ranks, bankgroups or banks has no bank to address, so the
three sizes carry their positivity.
-/

namespace Dramsim

/-- `enum class DRAMProtocol`. -/
inductive DRAMProtocol where
  | ddr3 | ddr4 | gddr5 | gddr5x | gddr6 | lpddr | lpddr3 | lpddr4 | hbm | hbm2 | hmc
deriving DecidableEq, Repr

/-- `enum class RefreshPolicy`. -/
inductive RefreshPolicy where
  | rankLevelSimultaneous
  | rankLevelStaggered
  | bankLevelStaggered
deriving DecidableEq, Repr

/-- `enum class QueueStructure`, the accepted values of `queue_structure`. -/
inductive QueueStructure where
  | perRank
  | perBank
deriving DecidableEq, Repr

/-- `enum class RowBufPolicy`. -/
inductive RowBufPolicy where
  | openPage
  | closePage
deriving DecidableEq, Repr

/-- The configuration of one memory system.  Defaults are those of
`configuration.cc`. -/
structure Config where
  protocol : DRAMProtocol := .ddr3
  channels : Nat := 1
  ranks : Nat := 1
  bankgroups : Nat := 2
  banksPerGroup : Nat := 2
  rows : Nat := 65536
  columns : Nat := 1024
  BL : Nat := 8
  shiftBits : Nat := 6
  chPos : Nat
  raPos : Nat
  bgPos : Nat
  baPos : Nat
  roPos : Nat
  coPos : Nat
  burstCycle : Int := 4
  AL : Int := 0
  CL : Int := 12
  CWL : Int := 12
  tCCD_L : Int := 6
  tCCD_S : Int := 4
  tRTRS : Int := 2
  tRTP : Int := 5
  tWTR_L : Int := 5
  tWTR_S : Int := 5
  tWR : Int := 10
  tRP : Int := 10
  tRRD_L : Int := 4
  tRRD_S : Int := 4
  tRAS : Int := 24
  tRCD : Int := 10
  tRFC : Int := 74
  tCKESR : Int := 12
  tXS : Int := 432
  tRFCb : Int := 20
  tREFI : Int := 7800
  tREFIb : Int := 1950
  tFAW : Int := 50
  tPPD : Int := 0
  t32AW : Int := 330
  tRCDRD : Int := 24
  tRCDWR : Int := 20
  queueStructure : QueueStructure := .perBank
  rowBufPolicy : RowBufPolicy := .openPage
  refreshPolicy : RefreshPolicy := .rankLevelStaggered
  cmdQueueSize : Nat := 16
  unifiedQueue : Bool := false
  transQueueSize : Nat := 32
  enableSelfRefresh : Bool := false
  srefThreshold : Int := 1000
  /-- The entry `hbm_dual_cmd` of the file. -/
  hbmDualCmd : Bool := true
  ranks_pos : 0 < ranks := by decide
  bankgroups_pos : 0 < bankgroups := by decide
  banksPerGroup_pos : 0 < banksPerGroup := by decide

namespace Config

/-- The configuration that the defaults give, with one rank and the address
mapping `chrobabgraco`. -/
def defaults : Config where
  chPos := 25
  raPos := 7
  bgPos := 7
  baPos := 8
  roPos := 9
  coPos := 0

/-- The defaults with channels of 4096 MB, which are two ranks. -/
def dualRank : Config :=
  { defaults with
    ranks := 2, ranks_pos := Nat.two_pos, bgPos := 8, baPos := 9, roPos := 10, chPos := 26 }

/-- The defaults with `BL = 2`. -/
def shortBurst : Config :=
  { defaults with
    BL := 2, burstCycle := 1, shiftBits := 4
    raPos := 9, bgPos := 9, baPos := 10, roPos := 11, chPos := 27 }

/-- `HBM2_8Gb_x128.ini` with one channel.  HBM has twice the 128 columns of the file, so that a
channel of 256 MB is one rank. -/
def hbm2Rank : Config where
  protocol := .hbm
  bankgroups := 4
  banksPerGroup := 4
  rows := 8192
  columns := 256
  BL := 4
  shiftBits := 5
  chPos := 0
  coPos := 0
  baPos := 6
  bgPos := 8
  raPos := 10
  roPos := 10
  burstCycle := 2
  CL := 14
  CWL := 4
  tRCDRD := 14
  tRCDWR := 14
  tRP := 14
  tRAS := 34
  tRFC := 260
  tREFI := 3900
  tREFIb := 128
  tRRD_S := 4
  tRRD_L := 6
  tWTR_S := 6
  tWTR_L := 8
  tFAW := 30
  tWR := 16
  tCCD_S := 1
  tCCD_L := 2
  tXS := 268
  cmdQueueSize := 8

/-- `HBM2_8Gb_x128.ini` with `columns = 64`.  A channel of 256 MB has two ranks of 128 MB. -/
def hbm2 : Config :=
  { hbm2Rank with
    channels := 8, ranks := 2, ranks_pos := Nat.two_pos, columns := 128
    coPos := 3, baPos := 8, bgPos := 10, raPos := 12, roPos := 13 }

/-! ## Derived parameters -/

/-- `Config::IsGDDR`. -/
def isGDDR (config : Config) : Bool :=
  config.protocol = .gddr5 || config.protocol = .gddr5x || config.protocol = .gddr6

/-- `Config::IsHBM`. -/
def isHBM (config : Config) : Bool := config.protocol = .hbm || config.protocol = .hbm2

/-- `enable_hbm_dual_cmd &= IsHBM()`: only HBM issues two commands a cycle. -/
def enableHbmDualCmd (config : Config) : Bool := config.hbmDualCmd && config.isHBM

def banks (config : Config) : Nat := config.bankgroups * config.banksPerGroup
def tRC (config : Config) : Int := config.tRAS + config.tRP
def RL (config : Config) : Int := config.AL + config.CL
def WL (config : Config) : Int := config.AL + config.CWL
def readDelay (config : Config) : Int := config.RL + config.burstCycle
def writeDelay (config : Config) : Int := config.WL + config.burstCycle

/-- `num_queues_` of the command queue. -/
def numQueues (config : Config) : Nat :=
  match config.queueStructure with
  | .perBank => config.banks * config.ranks
  | .perRank => config.ranks

/-! ## Banks of the device -/

/-- The index names a bank of the device. -/
def HasBank (config : Config) (ix : BankIndex) : Prop :=
  (0 ≤ ix.rank ∧ ix.rank < config.ranks) ∧ (0 ≤ ix.bankgroup ∧ ix.bankgroup < config.bankgroups) ∧
    0 ≤ ix.bank ∧ ix.bank < config.banksPerGroup

instance (config : Config) (ix : BankIndex) : Decidable (config.HasBank ix) :=
  inferInstanceAs (Decidable (_ ∧ _))

/-- The banks of a rank, in the order in which the nested loops over bankgroups
and banks visit them. -/
def rankBanks (config : Config) (rank : Int) : List BankIndex :=
  (List.range config.bankgroups).flatMap fun (j : Nat) =>
    (List.range config.banksPerGroup).map fun (k : Nat) => ⟨rank, j, k⟩

theorem mem_rankBanks {config : Config} {rank : Int} {ix : BankIndex} :
    ix ∈ config.rankBanks rank ↔
      ix.rank = rank ∧ (0 ≤ ix.bankgroup ∧ ix.bankgroup < config.bankgroups) ∧
        0 ≤ ix.bank ∧ ix.bank < config.banksPerGroup := by
  obtain ⟨r, j, k⟩ := ix
  simp only [rankBanks, List.mem_flatMap, List.mem_range, List.mem_map, BankIndex.mk.injEq]
  constructor
  · rintro ⟨j', hj', k', hk', rfl, rfl, rfl⟩
    omega
  · rintro ⟨rfl, ⟨hj0, hj⟩, hk0, hk⟩
    exact ⟨j.toNat, by omega, k.toNat, by omega, rfl, by omega, by omega⟩

theorem length_rankBanks (config : Config) (rank : Int) :
    (config.rankBanks rank).length = config.banks := by
  simp [rankBanks, banks, List.length_flatMap]

theorem nodup_rankBanks (config : Config) (rank : Int) : (config.rankBanks rank).Nodup := by
  unfold rankBanks
  rw [List.nodup_flatMap]
  constructor
  · intro j _
    refine List.Nodup.map ?_ List.nodup_range
    intro a b hab
    injection hab with _ _ hk
    exact Int.ofNat_inj.mp hk
  · refine List.nodup_range.imp ?_
    intro j j' hne ix hj hj'
    obtain ⟨k, _, rfl⟩ := List.mem_map.mp hj
    obtain ⟨k', _, he⟩ := List.mem_map.mp hj'
    injection he with _ hjj' _
    exact hne (Int.ofNat_inj.mp hjj').symm

/-- A bank of a rank of the device is a bank of the device. -/
theorem hasBank_of_mem_rankBanks {config : Config} {rank : Int} {ix : BankIndex}
    (hrank : 0 ≤ rank ∧ rank < config.ranks) (h : ix ∈ config.rankBanks rank) :
    config.HasBank ix := by
  obtain ⟨rfl, hjk⟩ := Config.mem_rankBanks.mp h
  exact ⟨hrank, hjk⟩

/-- Every rank has a bank. -/
theorem exists_mem_rankBanks (config : Config) (rank : Int) :
    (⟨rank, 0, 0⟩ : BankIndex) ∈ config.rankBanks rank := by
  have hj := config.bankgroups_pos
  have hk := config.banksPerGroup_pos
  exact Config.mem_rankBanks.mpr ⟨rfl, by simp; omega, by simp; omega⟩

/-! ## Address mapping -/

/-- `LogBase2`: the number of halvings that bring a size down to one. -/
def logBase2 (size : Nat) : Nat := Nat.log2 size

/-- A bit field of the shifted address, `(hex_addr >> pos) & mask`, with the mask
of a field that counts up to `size`. -/
def field (hexAddr pos width : Nat) : Int := ((hexAddr >>> pos) &&& (2 ^ width - 1) : Nat)

/-- `Config::AddressMapping`. -/
def addressMapping (config : Config) (hexAddr : Nat) : Address :=
  let hexAddr := hexAddr >>> config.shiftBits
  { channel := field hexAddr config.chPos (logBase2 config.channels)
    rank := field hexAddr config.raPos (logBase2 config.ranks)
    bankgroup := field hexAddr config.bgPos (logBase2 config.bankgroups)
    bank := field hexAddr config.baPos (logBase2 config.banksPerGroup)
    row := field hexAddr config.roPos (logBase2 config.rows)
    column := field hexAddr config.coPos (logBase2 config.columns - logBase2 config.BL) }

/-- `BaseDRAMSystem::GetChannel`. -/
def getChannel (config : Config) (hexAddr : Nat) : Nat :=
  ((hexAddr >>> config.shiftBits) >>> config.chPos) &&& (2 ^ logBase2 config.channels - 1)

/-- `Config::AddressUnmapping`.  The fields are combined as an `int`. -/
def addressUnmapping (config : Config) (addr : Address) : Nat :=
  let fields : BitVec 32 :=
    BitVec.ofInt 32 addr.column <<< config.coPos ||| BitVec.ofInt 32 addr.row <<< config.roPos |||
      BitVec.ofInt 32 addr.bank <<< config.baPos |||
      BitVec.ofInt 32 addr.bankgroup <<< config.bgPos |||
      BitVec.ofInt 32 addr.rank <<< config.raPos ||| BitVec.ofInt 32 addr.channel <<< config.chPos
  (fields.signExtend 64 <<< config.shiftBits).toNat

theorem field_nonneg (hexAddr pos width : Nat) : 0 ≤ field hexAddr pos width := by
  exact Int.natCast_nonneg _

/-- A field of the mapping stays below the size it counts. -/
theorem field_lt {hexAddr pos size : Nat} (h : 0 < size) :
    field hexAddr pos (logBase2 size) < size := by
  have hpow : 2 ^ logBase2 size ≤ size := Nat.log2_self_le (by omega)
  have hmod : (hexAddr >>> pos) &&& (2 ^ logBase2 size - 1) < 2 ^ logBase2 size := by
    rw [Nat.and_two_pow_sub_one_eq_mod]
    exact Nat.mod_lt _ (Nat.two_pow_pos _)
  exact Int.ofNat_lt.mpr (Nat.lt_of_lt_of_le hmod hpow)

/-- Every transaction address maps to a bank of the device. -/
theorem hasBank_addressMapping (config : Config) (hexAddr : Nat) :
    config.HasBank (config.addressMapping hexAddr).bankIndex :=
  ⟨⟨field_nonneg _ _ _, field_lt config.ranks_pos⟩,
    ⟨field_nonneg _ _ _, field_lt config.bankgroups_pos⟩,
    field_nonneg _ _ _, field_lt config.banksPerGroup_pos⟩

end Config

end Dramsim
