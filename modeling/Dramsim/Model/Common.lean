import Mathlib.Data.Nat.Bitwise
import Mathlib.Data.Int.Notation

/-!
# Addresses, commands and transactions

The data of `common.h`.  An `Address` holds six signed fields, of which the
commands built for a refresh leave some at `-1`.  A `Command` has one of
seventeen types.  The source marks the absence of a command by an eighteenth
type `SIZE`, and the model writes `none` for it, so that `Command::IsValid` is
`Option.isSome`.

Every place where the source ends the process, by `AbruptExit` or by `exit(1)`,
is a constructor of `Exit`.  Code that can reach one returns `Except Exit`.
-/

namespace Dramsim

/-! ## Machine integers -/

/-- The value an `int` takes when it is converted to `uint64_t`. -/
def toU64 (i : Int) : Nat := (i % 2 ^ 64).toNat

/-- The value that a wider integer takes when it is converted to `int`. -/
def toInt (i : Int) : Int := Int.bmod i (2 ^ 32)

theorem toU64_of_nonneg {i : Int} (h : 0 ≤ i) (hlt : i < 2 ^ 64) : (toU64 i : Int) = i := by
  rw [toU64, Int.emod_eq_of_lt h hlt, Int.toNat_of_nonneg h]

theorem toInt_of_nonneg {i : Int} (h : 0 ≤ i) (hlt : i < 2 ^ 31) : toInt i = i := by
  rw [toInt, Int.bmod_eq_of_le (by omega) (by omega)]

theorem toInt_of_lt {n : Nat} (h : n < 2 ^ 31) : toInt n = n :=
  toInt_of_nonneg (by omega) (by omega)

/-- `clk + gap` for an unsigned clock and a signed number of cycles.  A sum
below zero wraps.  The clock itself is a counter that starts at zero and is
taken as a natural number, so a sum never wraps upwards. -/
def addClk (clk : Nat) (gap : Int) : Nat :=
  if 0 ≤ (clk : Int) + gap then ((clk : Int) + gap).toNat else toU64 ((clk : Int) + gap)

theorem addClk_of_nonneg {clk : Nat} {gap : Int} (h : 0 ≤ (clk : Int) + gap) :
    (addClk clk gap : Int) = clk + gap := by
  rw [addClk, if_pos h, Int.toNat_of_nonneg h]

/-- The sum the code stores is never below the sum of integers. -/
theorem le_addClk (clk : Nat) (gap : Int) : (clk : Int) + gap ≤ addClk clk gap := by
  by_cases h : 0 ≤ (clk : Int) + gap
  · exact Int.le_of_eq (addClk_of_nonneg h).symm
  · omega

/-! ## Exits -/

/-- The ways the simulator ends abnormally. -/
inductive Exit where
  /-- `Unknown type!` of `BankState::GetReadyCommand`. -/
  | unknownType
  /-- `In unknown state` of `BankState::GetReadyCommand`. -/
  | unknownState
  /-- The `AbruptExit` of `BankState::UpdateState`. -/
  | illegalUpdate
  /-- ` not in read queue! ` of `Controller::IssueCommand`. -/
  | notInReadQueue
  /-- ` not in write queue!` of `Controller::IssueCommand`. -/
  | notInWriteQueue
  /-- `cannot find cmd!` of `CommandQueue::EraseRWCommand`. -/
  | cannotFindCmd
  /-- A division by a refresh interval, a tile size or a number of columns that is
  zero. -/
  | divisionByZero
  /-- A read past the end of `release_time`, or an index past the cuts or the
  controllers of a system. -/
  | outOfRange
  /-- `Invalid load type!` of `JedecDRAMSystem::ClockTick`. -/
  | invalidLoadType
deriving DecidableEq, Repr

/-! ## Addresses -/

/-- `struct Address`. -/
structure Address where
  channel : Int := -1
  rank : Int := -1
  bankgroup : Int := -1
  bank : Int := -1
  row : Int := -1
  column : Int := -1
deriving DecidableEq, Repr

/-- The three indices of `bank_states_[rank][bankgroup][bank]`. -/
structure BankIndex where
  rank : Int
  bankgroup : Int
  bank : Int
deriving DecidableEq, Repr

/-- The bank an address lies in. -/
def Address.bankIndex (addr : Address) : BankIndex := ⟨addr.rank, addr.bankgroup, addr.bank⟩

@[simp] theorem Address.bankIndex_rank (addr : Address) : addr.bankIndex.rank = addr.rank := rfl

@[simp] theorem Address.bankIndex_bankgroup (addr : Address) :
    addr.bankIndex.bankgroup = addr.bankgroup := rfl

@[simp] theorem Address.bankIndex_bank (addr : Address) : addr.bankIndex.bank = addr.bank := rfl

/-! ## Commands -/

/-- `enum class CommandType`, without the marker `SIZE`. -/
inductive CommandType where
  | read
  | readPrecharge
  | write
  | writePrecharge
  | activate
  | precharge
  | refreshBank
  | refresh
  | srefEnter
  | srefExit
  | lhRead
  | lhReadPrecharge
  | ghRead
  | ghReadPrecharge
  | pimWrite
  | pimWritePrecharge
  | pimActivate
deriving DecidableEq, Repr

namespace CommandType

/-- `Command::IsRefresh`. -/
def isRefresh : CommandType → Bool
  | .refresh | .refreshBank => true
  | _ => false

/-- `Command::IsRead`. -/
def isRead : CommandType → Bool
  | .read | .readPrecharge => true
  | _ => false

/-- `Command::IsWrite`. -/
def isWrite : CommandType → Bool
  | .write | .writePrecharge => true
  | _ => false

/-- `Command::IsReadWrite`. -/
def isReadWrite (ty : CommandType) : Bool := ty.isRead || ty.isWrite

/-- `Command::IsRankCMD`. -/
def isRankCMD : CommandType → Bool
  | .refresh | .srefEnter | .srefExit => true
  | _ => false

/-- The two commands that open a row. -/
def isActivate : CommandType → Bool
  | .activate | .pimActivate => true
  | _ => false

/-- The column commands of the PIM streams. -/
def isPimColumn : CommandType → Bool
  | .lhRead | .lhReadPrecharge | .ghRead | .ghReadPrecharge | .pimWrite
  | .pimWritePrecharge => true
  | _ => false

/-- The commands that only a PIM kernel asks for. -/
def isPim (ty : CommandType) : Bool := ty.isPimColumn || ty == .pimActivate

/-- The column commands, ordinary or PIM. -/
def isColumn (ty : CommandType) : Bool := ty.isReadWrite || ty.isPimColumn

/-- The column commands that leave the row open. -/
def keepsRow : CommandType → Bool
  | .read | .write | .lhRead | .ghRead | .pimWrite => true
  | _ => false

/-- The commands that close the row, by themselves or after a column access. -/
def closesRow : CommandType → Bool
  | .readPrecharge | .writePrecharge | .lhReadPrecharge | .ghReadPrecharge
  | .pimWritePrecharge | .precharge => true
  | _ => false

/-- The maintenance commands that are asked for, and not only answered. -/
def isMaintenance : CommandType → Bool
  | .refresh | .refreshBank | .srefEnter => true
  | _ => false

/-- The types a request can have: those of the queues, of the PIM streams and of
the refresh logic. -/
def isRequest (ty : CommandType) : Bool := ty.isColumn || ty.isMaintenance

theorem isColumn_of_isReadWrite {ty : CommandType} (h : ty.isReadWrite = true) :
    ty.isColumn = true := by
  rw [isColumn, h, Bool.true_or]

theorem isColumn_of_isPimColumn {ty : CommandType} (h : ty.isPimColumn = true) :
    ty.isColumn = true := by
  rw [isColumn, h, Bool.or_true]

/-- No command of a whole rank is a column command. -/
theorem isColumn_of_isRankCMD {ty : CommandType} (h : ty.isRankCMD = true) :
    ty.isColumn = false := by
  cases ty <;> first | rfl | cases h

theorem isRankCMD_of_isReadWrite {ty : CommandType} (h : ty.isReadWrite = true) :
    ty.isRankCMD = false := by
  cases ty <;> first | rfl | cases h

theorem isPimColumn_of_isReadWrite {ty : CommandType} (h : ty.isReadWrite = true) :
    ty.isPimColumn = false := by
  cases ty <;> first | rfl | cases h

theorem closesRow_of_isReadWrite {ty : CommandType} (h : ty.isReadWrite = true)
    (hkeep : ty.keepsRow = false) : ty.closesRow = true := by
  cases ty <;> simp [isReadWrite, isRead, isWrite, keepsRow, closesRow] at h hkeep ⊢

theorem eq_activate_of_ne {ty : CommandType} (h : ty.isActivate = true)
    (hne : ty ≠ .pimActivate) : ty = .activate := by
  cases ty <;> simp [isActivate] at h hne ⊢

end CommandType

/-- `struct Command`.  `hexAddr` is the `uint64_t` address of the transaction. -/
structure Command where
  cmdType : CommandType
  addr : Address
  hexAddr : Nat
deriving DecidableEq, Repr

namespace Command

def isRefresh (cmd : Command) : Bool := cmd.cmdType.isRefresh
def isRead (cmd : Command) : Bool := cmd.cmdType.isRead
def isWrite (cmd : Command) : Bool := cmd.cmdType.isWrite
def isReadWrite (cmd : Command) : Bool := cmd.cmdType.isReadWrite
def isRankCMD (cmd : Command) : Bool := cmd.cmdType.isRankCMD

/-- The bank a command of one bank goes to. -/
def bankIndex (cmd : Command) : BankIndex := cmd.addr.bankIndex

theorem isReadWrite_eq (cmd : Command) : cmd.isReadWrite = (cmd.isRead || cmd.isWrite) := rfl

theorem isReadWrite_eq_false {cmd : Command} :
    cmd.isReadWrite = false ↔ cmd.isRead = false ∧ cmd.isWrite = false := by
  rw [isReadWrite_eq, Bool.or_eq_false_iff]

theorem not_isWrite_of_isRead {cmd : Command} (h : cmd.isRead = true) : cmd.isWrite = false := by
  cases hty : cmd.cmdType <;> simp [isRead, isWrite, hty, CommandType.isRead,
    CommandType.isWrite] at h ⊢

end Command

/-! ## Transactions -/

/-- `struct Transaction`, with the fields a controller uses. -/
structure Transaction where
  addr : Nat
  isWrite : Bool
  addedCycle : Nat := 0
  completeCycle : Nat := 0
deriving DecidableEq, Repr

end Dramsim
