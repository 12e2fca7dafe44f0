import Dramsim.Library.Fields
import Dramsim.Library.InputStream
import Dramsim.Model.Common

/-!
# Command traces

`IssueCommand` prints every command to a trace, `operator<<` of `common.cc`, and `ThermalReplay`
parses the lines of a trace, `thermal_replay.cc`.  Rows and columns are printed in base sixteen
with `0x`, and `std::stoi` reads them in base ten.
-/

namespace Dramsim

open Library.Fields (padLeft padRight fields)
open Library.InputStream (isSpace)
open Library.Numerals (scan value)

/-! ## Printing -/

/-- `command_string`. -/
def CommandType.text : CommandType → List Char
  | .read => ['r', 'e', 'a', 'd']
  | .readPrecharge => ['r', 'e', 'a', 'd', '_', 'p']
  | .write => ['w', 'r', 'i', 't', 'e']
  | .writePrecharge => ['w', 'r', 'i', 't', 'e', '_', 'p']
  | .activate => ['a', 'c', 't', 'i', 'v', 'a', 't', 'e']
  | .precharge => ['p', 'r', 'e', 'c', 'h', 'a', 'r', 'g', 'e']
  | .refreshBank => ['r', 'e', 'f', 'r', 'e', 's', 'h', '_', 'b', 'a', 'n', 'k']
  | .refresh => ['r', 'e', 'f', 'r', 'e', 's', 'h']
  | .srefEnter =>
      ['s', 'e', 'l', 'f', '_', 'r', 'e', 'f', 'r', 'e', 's', 'h', '_', 'e', 'n', 't', 'e', 'r']
  | .srefExit =>
      ['s', 'e', 'l', 'f', '_', 'r', 'e', 'f', 'r', 'e', 's', 'h', '_', 'e', 'x', 'i', 't']
  | .lhRead => ['l', 'h', '_', 'r', 'e', 'a', 'd']
  | .lhReadPrecharge => ['l', 'h', '_', 'r', 'e', 'a', 'd', '_', 'p']
  | .ghRead => ['g', 'h', '_', 'r', 'e', 'a', 'd']
  | .ghReadPrecharge => ['g', 'h', '_', 'r', 'e', 'a', 'd', '_', 'p']
  | .pimWrite => ['p', 'i', 'm', '_', 'w', 'r', 'i', 't', 'e']
  | .pimWritePrecharge => ['p', 'i', 'm', '_', 'w', 'r', 'i', 't', 'e', '_', 'p']
  | .pimActivate => ['p', 'i', 'm', '_', 'a', 'c', 't', 'i', 'v', 'a', 't', 'e']

/-- An `int` in base ten. -/
def formatInt (i : Int) : List Char :=
  (if i < 0 then ['-'] else []) ++ Nat.toDigits 10 i.natAbs

/-- An `int` in base sixteen, with the sign before `0x`. -/
def formatHex (i : Int) : List Char :=
  (if i < 0 then ['-'] else []) ++ '0' :: 'x' :: Nat.toDigits 16 i.natAbs

/-- `operator<<` for a command. -/
def Command.text (cmd : Command) : List Char :=
  padRight 20 cmd.cmdType.text ++ ' ' :: (padLeft 3 (formatInt cmd.addr.channel) ++
    ' ' :: (padLeft 3 (formatInt cmd.addr.rank) ++
      ' ' :: (padLeft 3 (formatInt cmd.addr.bankgroup) ++
    ' ' :: (padLeft 3 (formatInt cmd.addr.bank) ++ ' ' :: (padLeft 8 (formatHex cmd.addr.row) ++
    ' ' :: padLeft 8 (formatHex cmd.addr.column))))))

/-- The line that `IssueCommand` prints. -/
def traceLine (clk : Nat) (cmd : Command) : List Char :=
  padRight 18 (Nat.toDigits 10 clk) ++ ' ' :: cmd.text

/-! ## Parsing -/

/-- The ways in which a line is not accepted: the exit after `Check trace format!`, and the
exceptions of `std::stoi` and `std::stoull`. -/
inductive TraceError where
  | format
  | invalidArgument
  | outOfRange
deriving DecidableEq, Repr

/-- `std::stoull`. -/
def stoull (text : List Char) : Except TraceError Nat :=
  let (negative, digits, _) := scan 10 (text.dropWhile isSpace)
  let n := value 10 digits
  if digits = [] then .error .invalidArgument
  else if 2 ^ 64 ≤ n then .error .outOfRange
  else .ok (if negative then (2 ^ 64 - n) % 2 ^ 64 else n)

/-- `std::stoi`. -/
def stoi (text : List Char) : Except TraceError Int :=
  let (negative, digits, _) := scan 10 (text.dropWhile isSpace)
  let n : Int := if negative then -(value 10 digits : Int) else value 10 digits
  if digits = [] then .error .invalidArgument
  else if n < -2 ^ 31 ∨ 2 ^ 31 ≤ n then .error .outOfRange
  else .ok n

/-- `cmd_map`. -/
def cmdMap : List (List Char × CommandType) :=
  [(['r', 'e', 'a', 'd'], .read),
    (['r', 'e', 'a', 'd', '_', 'p'], .readPrecharge),
    (['w', 'r', 'i', 't', 'e'], .write),
    (['w', 'r', 'i', 't', 'e', '_', 'p'], .writePrecharge),
    (['a', 'c', 't', 'i', 'v', 'a', 't', 'e'], .activate),
    (['p', 'r', 'e', 'c', 'h', 'a', 'r', 'g', 'e'], .precharge),
    (['r', 'e', 'f', 'r', 'e', 's', 'h', '_', 'b', 'a', 'n', 'k'], .refreshBank),
    (['r', 'e', 'f', 'r', 'e', 's', 'h'], .refresh),
    (['s', 'e', 'l', 'f', '_', 'r', 'e', 'f', 'r', 'e', 's', 'h', '_', 'e', 'n', 't', 'e', 'r'],
      .srefEnter),
    (['s', 'e', 'l', 'f', '_', 'r', 'e', 'f', 'r', 'e', 's', 'h', '_', 'e', 'x', 'i', 't'],
      .srefExit)]

/-- `cmd_map[name]`.  A name that is not in the map is added to it with the first type. -/
def commandTypeOf (name : List Char) : CommandType := (cmdMap.lookup name).getD .read

/-- `ThermalReplay::ParseLine`: the clock, and the type and the address of the command. -/
def parseLine (line : List Char) : Except TraceError (Nat × CommandType × Address) :=
  match fields line with
  | [clk, name, channel, rank, bankgroup, bank, row, column] => do
      let clk ← stoull clk
      let channel ← stoi channel
      let rank ← stoi rank
      let bankgroup ← stoi bankgroup
      let bank ← stoi bank
      let row ← stoi row
      let column ← stoi column
      .ok (clk, commandTypeOf name, { channel, rank, bankgroup, bank, row, column })
  | _ => .error .format

end Dramsim
