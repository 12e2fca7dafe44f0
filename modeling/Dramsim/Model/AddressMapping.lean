import Dramsim.Model.Config

/-!
# Setting the address mapping

`Config::SetAddressMapping` reads the entry `address_mapping` of the file, six tokens of two
characters, and gives each field of an address its bits: the last token stands for the lowest
bits.  The masks follow from the widths, see `Config.field`.
-/

namespace Dramsim

/-- The fields of an address, the keys of `field_widths`. -/
inductive MappingField where
  | channel | rank | bankgroup | bank | row | column
deriving DecidableEq, Repr

namespace MappingField

/-- The keys in the order in which they are entered. -/
def all : List MappingField := [.channel, .rank, .bankgroup, .bank, .row, .column]

def token : MappingField → List Char
  | .channel => ['c', 'h']
  | .rank => ['r', 'a']
  | .bankgroup => ['b', 'g']
  | .bank => ['b', 'a']
  | .row => ['r', 'o']
  | .column => ['c', 'o']

/-- `field_widths.find(token)`. -/
def find (token : List Char) : Option MappingField := all.find? fun f => f.token = token

end MappingField

/-- The ways in which `SetAddressMapping` ends the process. -/
inductive MappingExit where
  /-- `Unknown address mapping (6 fields each 2 chars required)`. -/
  | unknownMapping
  /-- `Unrecognized field: `, followed by the token. -/
  | unrecognizedField (token : List Char)
  /-- `std::map::at` does not find a field. -/
  | outOfRange
deriving DecidableEq, Repr

namespace Config

/-- `field_widths`. -/
def fieldWidths (config : Config) : MappingField → Int
  | .channel => logBase2 config.channels
  | .rank => logBase2 config.ranks
  | .bankgroup => logBase2 config.bankgroups
  | .bank => logBase2 config.banksPerGroup
  | .row => logBase2 config.rows
  | .column => logBase2 config.columns - logBase2 config.BL

/-- `address_mapping.substr(i, 2)` for the even positions `i`. -/
def mappingTokens : List Char → List (List Char)
  | [] => []
  | [c] => [[c]]
  | c :: c' :: rest => [c, c'] :: mappingTokens rest

/-- The loop that takes the tokens from the back and fills `field_pos`. -/
def placeFields (config : Config) : List (List Char) → Int → (MappingField → Option Int) →
    Except MappingExit (MappingField → Option Int)
  | [], _, fieldPos => .ok fieldPos
  | token :: rest, pos, fieldPos =>
      match MappingField.find token with
      | none => .error (.unrecognizedField token)
      | some f =>
          config.placeFields rest (pos + config.fieldWidths f)
            (Function.update fieldPos f (some pos))

/-- `field_pos.at(...)`. -/
def fieldAt (fieldPos : MappingField → Option Int) (f : MappingField) : Except MappingExit Int :=
  match fieldPos f with
  | some pos => .ok pos
  | none => .error .outOfRange

/-- `Config::SetAddressMapping`, with the entries `bus_width` and `address_mapping`. -/
def setAddressMapping (config : Config) (busWidth : Nat) (addressMapping : List Char) :
    Except MappingExit Config :=
  let requestSizeBytes := busWidth / 8 * config.BL
  if addressMapping.length ≠ 12 then .error .unknownMapping
  else do
    let fields := mappingTokens addressMapping
    let fieldPos ← config.placeFields fields.reverse 0 fun _ => none
    let chPos ← fieldAt fieldPos .channel
    let raPos ← fieldAt fieldPos .rank
    let bgPos ← fieldAt fieldPos .bankgroup
    let baPos ← fieldAt fieldPos .bank
    let roPos ← fieldAt fieldPos .row
    let coPos ← fieldAt fieldPos .column
    .ok { config with
      shiftBits := logBase2 requestSizeBytes
      chPos := chPos.toNat
      raPos := raPos.toNat
      bgPos := bgPos.toNat
      baPos := baPos.toNat
      roPos := roPos.toNat
      coPos := coPos.toNat }

end Config

end Dramsim
