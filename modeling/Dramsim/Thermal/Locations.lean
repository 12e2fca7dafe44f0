import Dramsim.Library.BitPlacement
import Dramsim.Library.Except
import Dramsim.Memory.AddressMapping
import Dramsim.Model.Thermal
import Mathlib.Data.Fintype.Pi
import Mathlib.Order.Interval.Finset.Nat

/-!
# Location mapping

`SetPhyAddressMapping` reads a position for each bit of an address, and the function it stores
writes the bits there and reads the fields back side by side, the column lowest.

A mapping is described by the items of its fields (`LocationItem`), apart from the parser.  Where
the entry `loc_mapping` spells such items the parser finds their positions
(`setPhyAddressMapping_eq`), and where these are a permutation of the bits of an address the stored
function moves the bits accordingly (`MovesBits`), which is a permutation of the addresses
(`location_mapping_bijective`).
-/

namespace Dramsim

open Library
open Library.Numerals Library.BitFields Library.BitPlacement

/-! ## The positions of a mapping -/

/-- An item of a field: a bit, or the bits from one position to another. -/
inductive LocationItem where
  | bit (pos : Nat)
  | range (startPos endPos : Nat)
deriving DecidableEq, Repr

/-- A string of decimal digits for a number. -/
def IsNumeral (n : Nat) (text : List Char) : Prop :=
  text ≠ [] ∧ text.all (isDigit 10) = true ∧ value 10 text = n

namespace LocationItem

/-- The positions in the order in which they are listed. -/
def positions : LocationItem → List Nat
  | .bit pos => [pos]
  | .range startPos endPos =>
      if endPos < startPos then (List.range' endPos (startPos + 1 - endPos)).reverse
      else List.range' startPos (endPos + 1 - startPos)

/-- A text that stands for an item. -/
def Written : LocationItem → List Char → Prop
  | .bit pos, text => IsNumeral pos text
  | .range startPos endPos, text =>
      ∃ before after, text = before ++ ':' :: after ∧ IsNumeral startPos before ∧
        IsNumeral endPos after

end LocationItem

/-- A text of six fields, separated by commas, whose items are separated by dashes. -/
def Spells (items : MappingField → List LocationItem) (text : List Char) : Prop :=
  List.Forall₂ (fun f field => List.Forall₂ LocationItem.Written (items f) (stringSplit field '-'))
    MappingField.all (stringSplit text ',')

/-- The positions of the bits of a field, the highest bit first. -/
def fieldBits (items : List LocationItem) : List Nat := items.flatMap LocationItem.positions

/-! ## Reading a mapping -/

theorem IsNumeral.isDigit {n : Nat} {text : List Char} (h : IsNumeral n text) :
    ∀ c ∈ text, isDigit 10 c = true :=
  List.all_eq_true.mp h.2.1

theorem IsNumeral.stoi_eq {n : Nat} {text : List Char} (h : IsNumeral n text) (hn : n < 2 ^ 31) :
    stoi text = .ok (n : Int) := by
  rw [stoi, InputStream.scan_digits (by decide) h.isDigit h.1]
  dsimp only
  rw [if_neg h.1, h.2.2, if_neg Bool.false_ne_true, if_neg (by omega)]

/-- The digits of a number end at a colon. -/
theorem IsNumeral.span_eq {n : Nat} {text : List Char} (h : IsNumeral n text) (rest : List Char)
    (hrest : ∀ c ∈ rest.head?, c = ':') : (text ++ rest).span (· ≠ ':') = (text, rest) := by
  have hne : ∀ c ∈ text, decide (c ≠ ':') = true := fun c hc =>
    decide_eq_true (ne_of_isDigit (by decide) (h.isDigit c hc) (by decide))
  rw [List.span_eq_takeWhile_dropWhile, List.takeWhile_append_of_pos hne,
    List.dropWhile_append_of_pos hne]
  cases rest with
  | nil => simp
  | cons c rest =>
      obtain rfl := hrest c rfl
      simp

/-- Positions as the parser stores them. -/
def asInts (positions : List Nat) : List Int := positions.map fun (pos : Nat) => (pos : Int)

theorem expandRange_eq (startPos endPos : Nat) :
    expandRange startPos endPos = asInts (LocationItem.range startPos endPos).positions := by
  rw [expandRange, LocationItem.positions, asInts]
  by_cases h : endPos < startPos
  · rw [if_pos (Int.ofNat_lt.mpr h), if_pos h]
    apply List.ext_getElem
    · simp
      omega
    · intro k hk hk'
      simp at hk hk' ⊢
      omega
  · rw [if_neg (fun h' => h (Int.ofNat_lt.mp h')), if_neg h, List.range'_eq_map_range, List.map_map]
    have hlength : ((endPos : Int) - startPos + 1).toNat = endPos + 1 - startPos := by omega
    rw [hlength]
    rfl

theorem mem_positions_range (startPos endPos : Nat) :
    startPos ∈ (LocationItem.range startPos endPos).positions ∧
      endPos ∈ (LocationItem.range startPos endPos).positions := by
  rw [LocationItem.positions]
  split
  · simp only [List.mem_reverse, List.mem_range'_1]
    omega
  · simp only [List.mem_range'_1]
    omega

theorem itemPositions_eq {item : LocationItem} {text : List Char} (h : item.Written text)
    (hbound : ∀ pos ∈ item.positions, pos < 2 ^ 31) :
    itemPositions text = .ok (asInts item.positions) := by
  cases item with
  | bit pos =>
      have hspan := IsNumeral.span_eq h [] (fun _ hc => absurd hc nofun)
      rw [List.append_nil] at hspan
      rw [itemPositions, hspan]
      dsimp only
      rw [IsNumeral.stoi_eq h (hbound pos (List.mem_singleton_self pos))]
      rfl
  | range startPos endPos =>
      obtain ⟨before, after, rfl, hbefore, hafter⟩ := h
      obtain ⟨hstart, hend⟩ := mem_positions_range startPos endPos
      rw [itemPositions, hbefore.span_eq (':' :: after) (fun _ hc => (Option.some.inj hc).symm)]
      dsimp only
      rw [hbefore.stoi_eq (hbound _ hstart), hafter.stoi_eq (hbound _ hend), ← expandRange_eq]
      rfl

theorem mapM_itemPositions {items : List LocationItem} {texts : List (List Char)}
    (h : List.Forall₂ LocationItem.Written items texts)
    (hbound : ∀ pos ∈ fieldBits items, pos < 2 ^ 31) :
    texts.mapM itemPositions = .ok (items.map fun item => asInts item.positions) := by
  induction h with
  | nil => rfl
  | @cons item text items texts hitem _ ih =>
      rw [fieldBits, List.flatMap_cons] at hbound
      rw [List.mapM_cons,
        itemPositions_eq hitem fun pos hpos => hbound pos (List.mem_append_left _ hpos),
        ih fun pos hpos => hbound pos (List.mem_append_right _ hpos)]
      rfl

theorem fieldPositions_eq {items : List LocationItem} {field : List Char}
    (h : List.Forall₂ LocationItem.Written items (stringSplit field '-'))
    (hbound : ∀ pos ∈ fieldBits items, pos < 2 ^ 31) :
    fieldPositions field = .ok (asInts (fieldBits items)) := by
  rw [fieldPositions, mapM_itemPositions h hbound]
  simp [asInts, fieldBits, List.flatMap, Function.comp_def]

/-- The positions of all fields as the parser stores them. -/
abbrev storedBits (items : MappingField → List LocationItem) (f : MappingField) : List Int :=
  asInts (fieldBits (items f))

/-- The parser finds the positions of the mapping that the entry spells. -/
theorem setPhyAddressMapping_eq {config : ThermalConfig} {items : MappingField → List LocationItem}
    (h : Spells items config.locMapping)
    (hbound : ∀ f, ∀ pos ∈ fieldBits (items f), pos < 2 ^ 31) :
    config.setPhyAddressMapping =
      .ok (getPhyAddress (storedBits items) (Config.logBase2 config.BL)) := by
  rw [Spells, MappingField.all] at h
  have hne : config.locMapping ≠ [] := by
    intro hnil
    rw [hnil] at h
    cases h
  rw [ThermalConfig.setPhyAddressMapping, if_neg hne]
  generalize stringSplit config.locMapping ',' = fields at h
  cases h with
  | cons hchannel h =>
  cases h with
  | cons hrank h =>
  cases h with
  | cons hbankgroup h =>
  cases h with
  | cons hbank h =>
  cases h with
  | cons hrow h =>
  cases h with
  | cons hcolumn h =>
  cases h with
  | nil =>
      dsimp only
      rw [fieldPositions_eq hchannel (hbound _), fieldPositions_eq hrank (hbound _),
        fieldPositions_eq hbankgroup (hbound _), fieldPositions_eq hbank (hbound _),
        fieldPositions_eq hrow (hbound _), fieldPositions_eq hcolumn (hbound _)]
      have hpositions : storedBits items =
          positionsOf (storedBits items .channel) (storedBits items .rank)
            (storedBits items .bankgroup) (storedBits items .bank) (storedBits items .row)
            (storedBits items .column) := by
        funext f
        cases f <;> rfl
      rw [hpositions]
      rfl

/-! ## Writing and reading the bits -/

theorem testBit_getBitInPos (bits k p b : Nat) :
    (getBitInPos bits k <<< p).testBit b = true ↔ p = b ∧ bits.testBit k = true := by
  have hbit : getBitInPos bits k = (bits.testBit k).toNat := by
    rw [getBitInPos, Nat.and_one_is_mod, Nat.shiftRight_eq_div_pow, Nat.toNat_testBit]
  rw [hbit]
  cases bits.testBit k with
  | false => simp
  | true => simp [Nat.shiftLeft_eq, Nat.testBit_two_pow]

/-- The place of a bit of a field whose positions are listed from the highest bit on. -/
def place (positions : List Nat) (k : Nat) : Nat := positions.reverse.getD k 0

theorem place_sub {positions : List Nat} {j : Nat} (hj : j < positions.length) :
    place positions (positions.length - j - 1) = positions[j] := by
  have hlt : positions.length - j - 1 < positions.reverse.length := by
    rw [List.length_reverse]
    omega
  have hsub : positions.length - 1 - (positions.length - j - 1) = j := by omega
  rw [place, List.getD_eq_getElem _ _ hlt, List.getElem_reverse]
  simp only [hsub]

theorem testBit_scatterField (newHex : Nat) (positions : List Nat) (v : Int) (b : Nat) :
    (scatterField newHex (asInts positions) v).testBit b = true ↔
      newHex.testBit b = true ∨
        ∃ k < positions.length, place positions k = b ∧ (toUInt64 v).testBit k = true := by
  rw [scatterField, asInts, List.length_map,
    testBit_foldl fun p : Int × Nat =>
      p.1.toNat = b ∧ (toUInt64 v).testBit (positions.length - p.2 - 1) = true]
  · refine or_congr_right ⟨?_, ?_⟩
    · rintro ⟨⟨p, j⟩, hmem, rfl, hbit⟩
      obtain ⟨hj, hget⟩ := List.getElem?_eq_some_iff.mp (List.mem_zipIdx_iff_getElem?.mp hmem)
      rw [List.length_map] at hj
      rw [List.getElem_map] at hget
      exact ⟨positions.length - j - 1, by omega, (place_sub hj).trans (hget ▸ rfl), hbit⟩
    · rintro ⟨k, hk, rfl, hbit⟩
      have hj : positions.length - k - 1 < positions.length := by omega
      have hsub : positions.length - (positions.length - k - 1) - 1 = k := by omega
      have hplace := place_sub hj
      rw [hsub] at hplace
      refine ⟨((place positions k : Int), positions.length - k - 1), ?_, rfl, by rwa [hsub]⟩
      rw [List.mem_zipIdx_iff_getElem?, List.getElem?_map, List.getElem?_eq_getElem hj, hplace]
      rfl
  · intro a p
    rw [Nat.testBit_or, Bool.or_eq_true, testBit_getBitInPos]

theorem testBit_scatter (bits : MappingField → List Nat) (addr : Address) (b : Nat) :
    (scatter (fun f => asInts (bits f)) addr).testBit b = true ↔
      ∃ f ∈ MappingField.all, ∃ k < (bits f).length,
        place (bits f) k = b ∧ (toUInt64 (originPos addr f)).testBit k = true := by
  rw [scatter, testBit_foldl _ fun a f => testBit_scatterField a (bits f) (originPos addr f) b]
  simp

theorem moduloWidth_eq {w : Nat} (hw : w ≤ 32) (a pos : Nat) :
    moduloWidth a w pos = a / 2 ^ pos % 2 ^ w := by
  have hxor : (a >>> pos) ^^^ ((a >>> pos >>> w) <<< w) = (a >>> pos) % 2 ^ w := by
    apply Nat.eq_of_testBit_eq
    intro b
    rw [Nat.testBit_xor, Nat.testBit_shiftLeft, Nat.testBit_shiftRight, Nat.testBit_mod_two_pow]
    by_cases hb : b < w
    · simp [hb, Nat.not_le.mpr hb]
    · have hle : w ≤ b := Nat.not_lt.mp hb
      simp [hb, hle]
  have hle : 2 ^ w ≤ 2 ^ 32 := Nat.pow_le_pow_right Nat.two_pos hw
  have hlt : (a >>> pos) % 2 ^ w < 2 ^ 32 := lt_of_lt_of_le (Nat.mod_lt _ (Nat.two_pow_pos w)) hle
  rw [moduloWidth, hxor, Nat.mod_eq_of_lt hlt, Nat.shiftRight_eq_div_pow]

theorem gatherField_eq {positions : List Nat} (hw : positions.length ≤ 31) (a pos : Nat) :
    gatherField a (asInts positions) pos = ((a / 2 ^ pos % 2 ^ positions.length : Nat) : Int) := by
  have hle : 2 ^ positions.length ≤ 2 ^ 31 := Nat.pow_le_pow_right Nat.two_pos hw
  have hlt : a / 2 ^ pos % 2 ^ positions.length < 2 ^ 31 :=
    lt_of_lt_of_le (Nat.mod_lt _ (Nat.two_pow_pos _)) hle
  rw [gatherField, asInts, List.length_map, moduloWidth_eq (by omega), toInt32, if_pos hlt]

/-! ## The permutation of the addresses -/

/-- The fields from the lowest bits on, as they are read back. -/
def readOrder : List MappingField := [.column, .row, .bank, .bankgroup, .rank, .channel]

theorem mem_readOrder (f : MappingField) : f ∈ readOrder := by
  cases f <;> decide

theorem nodup_readOrder : readOrder.Nodup := by decide

/-- The fields of an address as the numbers that they hold. -/
def locationValues (addr : Address) (f : MappingField) : Nat := (originPos addr f).toNat

section

variable (items : MappingField → List LocationItem)

/-- The number of positions in a field. -/
def locationWidth (f : MappingField) : Nat := (fieldBits (items f)).length

/-- The number of positions in all fields. -/
def locationBits : Nat := total (locationWidth items) readOrder

/-- The addresses whose fields have no more bits than there are positions. -/
def locations : Set Address :=
  {addr | ∀ f, 0 ≤ originPos addr f ∧ originPos addr f < 2 ^ locationWidth items f}

/-- The bits that a field is read back from, from high to low. -/
def ownBits (columnOffset : Nat) (f : MappingField) : List Nat :=
  (List.range' (columnOffset + position (locationWidth items) readOrder f)
    (locationWidth items f)).reverse

/-- A bit of an address goes to the bit that is read back from the position listed for it. -/
def MovesBits (columnOffset : Nat) (phyAddress : Address → Address) : Prop :=
  ∀ addr ∈ locations items, ∀ f, ∀ k < locationWidth items f, ∀ f', ∀ k' < locationWidth items f',
    place (fieldBits (items f)) k = place (ownBits items columnOffset f') k' →
      (locationValues (phyAddress addr) f').testBit k' = (locationValues addr f).testBit k

/-- The positions of all fields together are the bits of an address. -/
def IsBitPermutation (columnOffset : Nat) : Prop :=
  (MappingField.all.flatMap fun f => fieldBits (items f)).Perm
    (List.range' columnOffset (locationBits items))

end

variable {items : MappingField → List LocationItem} {offset : Nat} {addr addr' : Address}

theorem originPos_ext (h : ∀ f, originPos addr f = originPos addr' f) : addr = addr' :=
  Address.ext_get fun f => by
    have hf := h f
    cases f <;> exact hf

theorem locationWidth_le (f : MappingField) : locationWidth items f ≤ locationBits items :=
  (Nat.le_add_left _ _).trans (position_add_width_le (mem_readOrder f))

theorem IsBitPermutation.mem_iff (h : IsBitPermutation items offset) {b : Nat} :
    (∃ f, b ∈ fieldBits (items f)) ↔ offset ≤ b ∧ b < offset + locationBits items := by
  rw [← List.mem_range'_1, ← List.Perm.mem_iff h, List.mem_flatMap]
  exact ⟨fun ⟨f, hf⟩ => ⟨f, MappingField.mem_all f, hf⟩, fun ⟨f, _, hf⟩ => ⟨f, hf⟩⟩

theorem place_mem {positions : List Nat} {k : Nat} (hk : k < positions.length) :
    place positions k ∈ positions := by
  have hk' : k < positions.reverse.length := by rwa [List.length_reverse]
  rw [place, List.getD_eq_getElem _ _ hk', ← List.mem_reverse]
  exact List.getElem_mem hk'

theorem place_inj {positions : List Nat} (hnodup : positions.Nodup) {k k' : Nat}
    (hk : k < positions.length) (hk' : k' < positions.length)
    (h : place positions k = place positions k') : k = k' := by
  rw [← List.length_reverse] at hk hk'
  rw [place, place, List.getD_eq_getElem _ _ hk, List.getD_eq_getElem _ _ hk'] at h
  exact (List.nodup_reverse.mpr hnodup).getElem_inj_iff.mp h

/-- The place of a bit above the offset. -/
def locationPlace (items : MappingField → List LocationItem) (offset : Nat) (f : MappingField)
    (k : Nat) : Nat :=
  place (fieldBits (items f)) k - offset

theorem IsBitPermutation.permutes (h : IsBitPermutation items offset) :
    Permutes (locationWidth items) readOrder (locationPlace items offset) := by
  have hbounds : ∀ f, ∀ k < locationWidth items f, offset ≤ place (fieldBits (items f)) k ∧
      place (fieldBits (items f)) k < offset + locationBits items :=
    fun f k hk => h.mem_iff.mp ⟨f, place_mem hk⟩
  have hnodup := (List.Perm.nodup_iff h).mpr List.nodup_range'
  obtain ⟨hfield, hapart⟩ := List.nodup_flatMap.mp hnodup
  constructor
  · intro f _ k hk
    have := hbounds f k hk
    rw [← locationBits, locationPlace]
    omega
  · intro f _ k hk f' _ k' hk' heq
    have := hbounds f k hk
    have := hbounds f' k' hk'
    rw [locationPlace, locationPlace] at heq
    have hplace : place (fieldBits (items f)) k = place (fieldBits (items f')) k' := by omega
    have hsame : f = f' := by
      by_contra hne
      have : Std.Symm (Function.onFun List.Disjoint fun f => fieldBits (items f)) :=
        ⟨fun _ _ h => List.Disjoint.symm h⟩
      have hdisjoint := hapart.forall (MappingField.mem_all f) (MappingField.mem_all f') hne
      exact hdisjoint (place_mem hk) (hplace ▸ place_mem hk')
    subst hsame
    exact ⟨rfl, place_inj (hfield f (MappingField.mem_all f)) hk hk' hplace⟩

theorem place_ownBits {f : MappingField} {k : Nat} (hk : k < locationWidth items f) :
    place (ownBits items offset f) k =
      offset + position (locationWidth items) readOrder f + k := by
  rw [place, ownBits, List.reverse_reverse, List.getD_eq_getElem _ _ (by rwa [List.length_range']),
    List.getElem_range'_1]

theorem locationValues_lt (h : addr ∈ locations items) (f : MappingField) :
    locationValues addr f < 2 ^ locationWidth items f := by
  have := h f
  rw [locationValues, Int.toNat_lt this.1]
  push_cast
  exact this.2

theorem toUInt64_eq (h : addr ∈ locations items) (hwidth : locationBits items ≤ 31)
    (f : MappingField) : toUInt64 (originPos addr f) = locationValues addr f := by
  have hle : 2 ^ locationWidth items f ≤ 2 ^ 31 :=
    Nat.pow_le_pow_right Nat.two_pos ((locationWidth_le f).trans hwidth)
  have hlt := lt_of_lt_of_le (locationValues_lt h f) hle
  have hnonneg := (h f).1
  rw [locationValues] at hlt ⊢
  rw [toUInt64, Int.emod_eq_of_lt hnonneg (by omega)]

/-- The number from which the fields are read back holds the bits of the address. -/
theorem holds_scatter (hperm : IsBitPermutation items offset) (hwidth : locationBits items ≤ 31)
    (h : addr ∈ locations items) :
    Holds (locationWidth items) readOrder (locationPlace items offset) (locationValues addr)
      (scatter (storedBits items) addr / 2 ^ offset) := by
  intro b
  rw [Nat.testBit_div_two_pow, testBit_scatter]
  constructor
  · rintro ⟨f, _, k, hk, hplace, hbit⟩
    rw [toUInt64_eq h hwidth] at hbit
    refine ⟨f, mem_readOrder f, k, hk, ?_, hbit⟩
    rw [locationPlace, hplace, Nat.add_sub_cancel]
  · rintro ⟨f, _, k, hk, rfl, hbit⟩
    have hle := (hperm.mem_iff.mp ⟨f, place_mem hk⟩).1
    rw [← toUInt64_eq h hwidth] at hbit
    exact ⟨f, MappingField.mem_all f, k, hk, (Nat.sub_add_cancel hle).symm, hbit⟩

theorem originPos_getPhyAddress (hwidth : locationBits items ≤ 31) (addr : Address)
    (f : MappingField) :
    originPos (getPhyAddress (storedBits items) offset addr) f =
      (part (locationWidth items) readOrder
        (scatter (storedBits items) addr / 2 ^ offset) f : Nat) := by
  have hlength : ∀ f, (storedBits items f).length = locationWidth items f :=
    fun f => List.length_map ..
  have hgather : ∀ f a pos, gatherField a (storedBits items f) (offset + pos) =
      ((a / 2 ^ offset / 2 ^ pos % 2 ^ locationWidth items f : Nat) : Int) := by
    intro f a pos
    rw [gatherField_eq ((locationWidth_le f).trans hwidth), Nat.div_div_eq_div_mul, ← Nat.pow_add]
    rfl
  rw [part, ← hgather]
  cases f
  all_goals simp [getPhyAddress, originPos, hlength, position, readOrder, Nat.add_assoc]

theorem locationValues_getPhyAddress (hwidth : locationBits items ≤ 31) (addr : Address)
    (f : MappingField) :
    locationValues (getPhyAddress (storedBits items) offset addr) f =
      part (locationWidth items) readOrder (scatter (storedBits items) addr / 2 ^ offset) f := by
  rw [locationValues, originPos_getPhyAddress hwidth, Int.toNat_natCast]

theorem movesBits_getPhyAddress (hperm : IsBitPermutation items offset)
    (hwidth : locationBits items ≤ 31) :
    MovesBits items offset (getPhyAddress (storedBits items) offset) := by
  intro addr haddr f k hk f' k' hk' hplace
  have hread : locationPlace items offset f k =
      position (locationWidth items) readOrder f' + k' := by
    rw [locationPlace, hplace, place_ownBits hk']
    omega
  rw [locationValues_getPhyAddress hwidth, testBit_part hk', ← hread]
  exact (holds_scatter hperm hwidth haddr).testBit_place hperm.permutes (mem_readOrder f) hk

theorem getPhyAddress_mem (hwidth : locationBits items ≤ 31) (addr : Address) :
    getPhyAddress (storedBits items) offset addr ∈ locations items := by
  intro f
  rw [originPos_getPhyAddress hwidth]
  refine ⟨Int.natCast_nonneg _, ?_⟩
  exact_mod_cast part_lt _ f

theorem locationValues_injOn : Set.InjOn locationValues (locations items) := by
  intro addr haddr addr' haddr' h
  apply originPos_ext
  intro f
  have hvalue := congrFun h f
  have := (haddr f).1
  have := (haddr' f).1
  rw [locationValues, locationValues] at hvalue
  omega

instance : Fintype MappingField := ⟨⟨MappingField.all, by decide⟩, MappingField.mem_all⟩

theorem finite_locations : (locations items).Finite := by
  have hbox : {v : MappingField → Nat | ∀ f, v f ∈ Set.Iio (2 ^ locationWidth items f)}.Finite :=
    Set.Finite.pi' fun f => Set.finite_Iio _
  refine Set.Finite.of_finite_image (hbox.subset ?_) locationValues_injOn
  rintro v ⟨addr, haddr, rfl⟩ f
  exact locationValues_lt haddr f

theorem getPhyAddress_injOn (hperm : IsBitPermutation items offset)
    (hwidth : locationBits items ≤ 31) :
    Set.InjOn (getPhyAddress (storedBits items) offset) (locations items) := by
  intro addr haddr addr' haddr' h
  apply locationValues_injOn haddr haddr'
  funext f
  apply eq_of_part_eq nodup_readOrder hperm.permutes (holds_scatter hperm hwidth haddr)
    (holds_scatter hperm hwidth haddr') ?_ (mem_readOrder f) (locationValues_lt haddr f)
    (locationValues_lt haddr' f)
  intro f
  have hf := congrArg (locationValues · f) h
  rwa [locationValues_getPhyAddress hwidth, locationValues_getPhyAddress hwidth] at hf

theorem getPhyAddress_eq_self (hperm : IsBitPermutation items offset)
    (hwidth : locationBits items ≤ 31) (hown : ∀ f, fieldBits (items f) = ownBits items offset f)
    (h : addr ∈ locations items) : getPhyAddress (storedBits items) offset addr = addr := by
  have hplace : ∀ f ∈ readOrder, ∀ k < locationWidth items f,
      locationPlace items offset f k = position (locationWidth items) readOrder f + k := by
    intro f _ k hk
    rw [locationPlace, hown, place_ownBits hk]
    omega
  apply originPos_ext
  intro f
  have hpart := ((holds_scatter hperm hwidth h).congr hplace).part_eq nodup_readOrder
    (fun f _ => locationValues_lt h f) (mem_readOrder f)
  rw [originPos_getPhyAddress hwidth, hpart]
  exact Int.toNat_of_nonneg (h f).1

/-- A mapping that spells a permutation of the bits of an address gives a permutation of the
addresses, which moves every bit to where its position is read back, and the identity when every
field keeps its bits. -/
theorem location_mapping_bijective (config : ThermalConfig)
    (items : MappingField → List LocationItem) (hBL : config.BL < 2 ^ 31)
    (hspells : Spells items config.locMapping)
    (hperm : IsBitPermutation items (Config.logBase2 config.BL))
    (hwidth : locationBits items ≤ 31) :
    ∃ phyAddress, config.setPhyAddressMapping = .ok phyAddress ∧
      Set.BijOn phyAddress (locations items) (locations items) ∧
      MovesBits items (Config.logBase2 config.BL) phyAddress ∧
      ((∀ f, fieldBits (items f) = ownBits items (Config.logBase2 config.BL) f) →
        ∀ addr ∈ locations items, phyAddress addr = addr) := by
  have hoffset : Config.logBase2 config.BL < 31 := by
    rcases Nat.eq_zero_or_pos config.BL with hzero | hpos
    · rw [hzero]
      decide
    · exact (Nat.log2_lt (Nat.ne_of_gt hpos)).mpr hBL
  have hbound : ∀ f, ∀ pos ∈ fieldBits (items f), pos < 2 ^ 31 := by
    intro f pos hpos
    have := hperm.mem_iff.mp ⟨f, hpos⟩
    omega
  refine ⟨_, setPhyAddressMapping_eq hspells hbound, ?_, movesBits_getPhyAddress hperm hwidth, ?_⟩
  · have hmaps : Set.MapsTo (getPhyAddress (storedBits items) (Config.logBase2 config.BL))
        (locations items) (locations items) :=
      fun addr _ => getPhyAddress_mem hwidth addr
    exact (finite_locations.injOn_iff_bijOn_of_mapsTo hmaps).mp (getPhyAddress_injOn hperm hwidth)
  · intro hown addr haddr
    exact getPhyAddress_eq_self hperm hwidth hown haddr

/-- The entry `9,-,7:8,6,3-5,4`, with a field of no bits and a range that goes up. -/
def mixedMapping : ThermalConfig :=
  { ThermalConfig.defaults with
    locMapping := ['9', ',', '-', ',', '7', ':', '8', ',', '6', ',', '3', '-', '5', ',', '4'] }

def mixedItems : MappingField → List LocationItem
  | .channel => [.bit 9]
  | .rank => []
  | .bankgroup => [.range 7 8]
  | .bank => [.bit 6]
  | .row => [.bit 3, .bit 5]
  | .column => [.bit 4]

theorem isNumeral_digit {c : Char} {n : Nat} (hc : isDigit 10 c = true) (hn : value 10 [c] = n) :
    IsNumeral n [c] :=
  ⟨List.cons_ne_nil _ _, by rw [List.all_cons, hc]; rfl, hn⟩

theorem spells_mixedItems : Spells mixedItems mixedMapping.locMapping := by
  have hfields : stringSplit mixedMapping.locMapping ',' =
      [['9'], ['-'], ['7', ':', '8'], ['6'], ['3', '-', '5'], ['4']] := by decide
  rw [Spells, hfields]
  refine .cons ?_ (.cons ?_ (.cons ?_ (.cons ?_ (.cons ?_ (.cons ?_ .nil)))))
  · exact .cons (isNumeral_digit rfl rfl) .nil
  · exact .nil
  · refine .cons ⟨['7'], ['8'], rfl, ?_, ?_⟩ .nil
    · exact isNumeral_digit rfl rfl
    · exact isNumeral_digit rfl rfl
  · exact .cons (isNumeral_digit rfl rfl) .nil
  · exact .cons (isNumeral_digit rfl rfl) (.cons (isNumeral_digit rfl rfl) .nil)
  · exact .cons (isNumeral_digit rfl rfl) .nil

theorem location_mapping_bijective_mixed :
    mixedMapping.BL < 2 ^ 31 ∧ Spells mixedItems mixedMapping.locMapping ∧
      IsBitPermutation mixedItems (Config.logBase2 mixedMapping.BL) ∧
      locationBits mixedItems ≤ 31 ∧
      ∃ phyAddress, mixedMapping.setPhyAddressMapping = .ok phyAddress ∧
        Set.BijOn phyAddress (locations mixedItems) (locations mixedItems) ∧
        ∀ addr ∈ locations mixedItems, (locationValues (phyAddress addr) .column).testBit 0 =
          (locationValues addr .row).testBit 1 := by
  have hperm : IsBitPermutation mixedItems (Config.logBase2 mixedMapping.BL) := by
    rw [IsBitPermutation]
    decide +kernel
  obtain ⟨phyAddress, hset, hbij, hmoves, _⟩ := location_mapping_bijective mixedMapping mixedItems
    (by decide) spells_mixedItems hperm (by decide)
  refine ⟨by decide, spells_mixedItems, hperm, by decide, phyAddress, hset, hbij, ?_⟩
  intro addr haddr
  exact hmoves addr haddr .row 1 (by decide) .column 0 (by decide) (by decide +kernel)

end Dramsim
