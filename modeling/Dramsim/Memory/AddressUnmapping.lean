import Dramsim.Memory.AddressMapping

/-!
# Unmapping addresses

`AddressUnmapping` shifts the fields of an address to their positions and combines them as an
`int`, which is widened to 64 bits and shifted.  Up to 31 bits this is the number whose fields
were given (`packed`), and the inverse of `AddressMapping`.  A bit beyond the 32nd is lost, and the
32nd is the sign, which fills the bits above it (`address_unmapping_inverts`).
-/

namespace Dramsim

open Library

namespace Config

variable {config c : Config} {fs : List MappingField} {addr : Address}

/-- The fields at their positions, without a limit on the width. -/
def packed (config : Config) (addr : Address) : Nat :=
  addr.column.toNat <<< config.coPos ||| addr.row.toNat <<< config.roPos |||
    addr.bank.toNat <<< config.baPos ||| addr.bankgroup.toNat <<< config.bgPos |||
    addr.rank.toNat <<< config.raPos ||| addr.channel.toNat <<< config.chPos

theorem testBit_packed (config : Config) (addr : Address) (b : Nat) :
    (config.packed addr).testBit b = true ↔
      ∃ f, config.pos f ≤ b ∧ ((addr.get f).toNat).testBit (b - config.pos f) = true := by
  simp only [packed, Nat.testBit_or, Nat.testBit_shiftLeft, Bool.or_eq_true, Bool.and_eq_true,
    decide_eq_true_eq]
  constructor
  · rintro (((((h | h) | h) | h) | h) | h)
    · exact ⟨.column, h⟩
    · exact ⟨.row, h⟩
    · exact ⟨.bank, h⟩
    · exact ⟨.bankgroup, h⟩
    · exact ⟨.rank, h⟩
    · exact ⟨.channel, h⟩
  · rintro ⟨f, h⟩
    cases f with
    | column => exact .inl (.inl (.inl (.inl (.inl h))))
    | row => exact .inl (.inl (.inl (.inl (.inr h))))
    | bank => exact .inl (.inl (.inl (.inr h)))
    | bankgroup => exact .inl (.inl (.inr h))
    | rank => exact .inl (.inr h)
    | channel => exact .inr h

/-! ## Arithmetic of `int` -/

/-- The value of the low 32 bits as an `int`, widened to 64 bits. -/
def widened (m : Nat) : Nat := m % 2 ^ 32 + if 2 ^ 31 ≤ m % 2 ^ 32 then 2 ^ 64 - 2 ^ 32 else 0

theorem ofInt_shiftLeft {x : Int} (h : 0 ≤ x) (p : Nat) :
    BitVec.ofInt 32 x <<< p = BitVec.ofNat 32 (x.toNat <<< p) := by
  obtain ⟨n, rfl⟩ := Int.eq_ofNat_of_zero_le h
  rw [BitVec.ofInt_natCast, Int.toNat_natCast]
  refine BitVec.eq_of_getLsbD_eq fun i hi => ?_
  rw [BitVec.getLsbD_shiftLeft, BitVec.getLsbD_ofNat, BitVec.getLsbD_ofNat, Nat.testBit_shiftLeft]
  have hlt : i - p < 32 := by omega
  by_cases hp : i < p
  · simp [hp]
  · simp [hp, hi, hlt, Nat.le_of_not_lt hp]

theorem toNat_signExtend_ofNat (m : Nat) :
    ((BitVec.ofNat 32 m).signExtend 64).toNat = widened m := by
  have hlt := Nat.mod_lt m (Nat.two_pow_pos 32)
  have hmsb : (BitVec.ofNat 32 m).msb = true ↔ 2 ^ 31 ≤ m % 2 ^ 32 := by
    rw [← Bool.not_eq_false, BitVec.msb_eq_false_iff_two_mul_lt, BitVec.toNat_ofNat]
    omega
  rw [BitVec.toNat_signExtend, BitVec.toNat_setWidth, BitVec.toNat_ofNat, widened,
    Nat.mod_eq_of_lt (hlt.trans (by decide))]
  simp only [hmsb]

/-- `AddressUnmapping` in terms of numbers. -/
theorem addressUnmapping_eq (h : ∀ f, 0 ≤ addr.get f) :
    config.addressUnmapping addr =
      widened (config.packed addr) * 2 ^ config.shiftBits % 2 ^ 64 := by
  unfold addressUnmapping
  dsimp only
  rw [ofInt_shiftLeft (x := addr.column) (h .column), ofInt_shiftLeft (x := addr.row) (h .row),
    ofInt_shiftLeft (x := addr.bank) (h .bank),
    ofInt_shiftLeft (x := addr.bankgroup) (h .bankgroup),
    ofInt_shiftLeft (x := addr.rank) (h .rank), ofInt_shiftLeft (x := addr.channel) (h .channel),
    ← BitVec.ofNat_or, ← BitVec.ofNat_or, ← BitVec.ofNat_or, ← BitVec.ofNat_or, ← BitVec.ofNat_or,
    BitVec.toNat_shiftLeft, Nat.shiftLeft_eq]
  exact congrArg (fun n => n * 2 ^ config.shiftBits % 2 ^ 64) (toNat_signExtend_ofNat _)

/-! ## Round trips -/

theorem fieldWidths_of_le (h : logBase2 config.BL ≤ logBase2 config.columns) (f : MappingField) :
    config.fieldWidths f = config.width f := by
  cases f with
  | column =>
      simp only [fieldWidths, width]
      omega
  | _ => rfl

namespace Layout

variable (h : Layout config c fs)
include h

/-- The packed fields are the number that the layout assembles from them. -/
theorem packed_eq (haddr : addr ∈ config.fieldRanges) :
    c.packed addr = BitFields.assemble config.width fs fun f => (addr.get f).toNat := by
  have hfits (f : MappingField) : (addr.get f).toNat < 2 ^ config.width f := by
    have := haddr f
    omega
  refine Nat.eq_of_testBit_eq fun b => ?_
  rw [Bool.eq_iff_iff, testBit_packed, BitFields.testBit_assemble h.nodup fun f _ => hfits f]
  simp only [h.pos, h.mem, true_and]

theorem packed_lt (haddr : addr ∈ config.fieldRanges) : c.packed addr < 2 ^ config.totalWidth := by
  rw [h.packed_eq haddr, ← h.total]
  refine BitFields.assemble_lt fun f _ => ?_
  have := haddr f
  omega

theorem addressMapping_mem (x : Nat) : c.addressMapping x ∈ config.fieldRanges := h.get_lt x

/-- Packing undoes the mapping of the addresses that have only the bits of the fields. -/
theorem packed_addressMapping {a : Nat} (ha : a < 2 ^ config.totalWidth) :
    c.packed (c.addressMapping (a * 2 ^ c.shiftBits)) = a := by
  rw [h.packed_eq (h.addressMapping_mem _)]
  have hparts (f : MappingField) : ((c.addressMapping (a * 2 ^ c.shiftBits)).get f).toNat =
      BitFields.part config.width fs a f := by
    rw [h.get_eq_part, Nat.mul_div_cancel a (Nat.two_pow_pos _), Int.toNat_natCast]
  simp only [hparts]
  exact BitFields.assemble_part h.nodup (h.total.symm ▸ ha)

/-- The mapping undoes packing. -/
theorem addressMapping_packed (haddr : addr ∈ config.fieldRanges) {x : Nat}
    (hx : x / 2 ^ c.shiftBits % 2 ^ config.totalWidth = c.packed addr) :
    c.addressMapping x = addr := by
  have hfits (f : MappingField) : (addr.get f).toNat < 2 ^ config.width f := by
    have := haddr f
    omega
  refine Address.ext_get fun f => ?_
  rw [h.get_eq_part, ← BitFields.part_mod_total (h.mem f), h.total, hx, h.packed_eq haddr,
    BitFields.part_assemble (fun f _ => hfits f) (h.mem f)]
  exact Int.toNat_of_nonneg (haddr f).1

/-- `AddressUnmapping` packs the fields if all of them fit into the 31 bits below the sign, or
if the shift drops the bits that the sign fills. -/
theorem addressUnmapping_eq_packed (hfit : config.totalWidth + c.shiftBits ≤ 64)
    (hwidth : config.totalWidth ≤ 31 ∨ (config.totalWidth = 32 ∧ c.shiftBits = 32))
    (haddr : addr ∈ config.fieldRanges) :
    c.addressUnmapping addr = c.packed addr * 2 ^ c.shiftBits := by
  have hpacked := h.packed_lt haddr
  rw [addressUnmapping_eq fun f => (haddr f).1, widened]
  rcases hwidth with hle | ⟨hwidth, hshift⟩
  · have h31 : c.packed addr < 2 ^ 31 :=
      hpacked.trans_le (Nat.pow_le_pow_right (by decide) hle)
    have h64 : c.packed addr * 2 ^ c.shiftBits < 2 ^ 64 := by
      refine Nat.lt_of_lt_of_le ?_ (Nat.pow_le_pow_right (by decide) hfit)
      rw [Nat.pow_add]
      exact Nat.mul_lt_mul_of_pos_right hpacked (Nat.two_pow_pos _)
    rw [Nat.mod_eq_of_lt (h31.trans (by decide)), if_neg (Nat.not_le.mpr h31), Nat.add_zero,
      Nat.mod_eq_of_lt h64]
  · rw [hwidth] at hpacked
    rw [hshift, Nat.mod_eq_of_lt hpacked]
    split <;> omega

end Layout

/-- `AddressUnmapping` and `AddressMapping` are inverse to each other exactly if the fields have
at most 31 bits, or 32 bits that are shifted by another 32. -/
theorem address_unmapping_inverts {busWidth : Nat} {mapping : List Char}
    (hc : config.setAddressMapping busWidth mapping = .ok c)
    (hcolumn : logBase2 config.BL ≤ logBase2 config.columns)
    (hfit : config.totalWidth + c.shiftBits ≤ 64) :
    ((∀ addr ∈ config.fieldRanges, c.addressMapping (c.addressUnmapping addr) = addr) ∧
      ∀ x, 2 ^ c.shiftBits ∣ x → x < 2 ^ (config.totalWidth + c.shiftBits) →
        c.addressUnmapping (c.addressMapping x) = x) ↔
    config.totalWidth ≤ 31 ∨ (config.totalWidth = 32 ∧ c.shiftBits = 32) := by
  obtain ⟨fs, -, h⟩ := setAddressMapping_layout (fieldWidths_of_le hcolumn) hc
  constructor
  · rintro ⟨-, hback⟩
    by_contra hwidth
    -- the address of one bit, the 33rd or the sign
    have hbit (a : Nat) (ha : a < 2 ^ config.totalWidth) :
        widened a * 2 ^ c.shiftBits % 2 ^ 64 = a * 2 ^ c.shiftBits := by
      have hlt : a * 2 ^ c.shiftBits < 2 ^ (config.totalWidth + c.shiftBits) := by
        rw [Nat.pow_add]
        exact Nat.mul_lt_mul_of_pos_right ha (Nat.two_pow_pos _)
      have hx := hback _ (Nat.dvd_mul_left _ a) hlt
      rwa [addressUnmapping_eq fun f => (h.get_lt _ f).1, h.packed_addressMapping ha] at hx
    have hpos := Nat.two_pow_pos c.shiftBits
    by_cases hmore : 33 ≤ config.totalWidth
    · have hlost := hbit (2 ^ 32) (Nat.pow_lt_pow_right (by decide) hmore)
      rw [show widened (2 ^ 32) = 0 from rfl, Nat.zero_mul] at hlost
      omega
    · have hshift : 2 ^ c.shiftBits ≤ 2 ^ 31 := Nat.pow_le_pow_right (by decide) (by omega)
      have hsign := hbit (2 ^ 31) (Nat.pow_lt_pow_right (by decide) (by omega))
      rw [show widened (2 ^ 31) = 2 ^ 64 - 2 ^ 31 from rfl] at hsign
      omega
  · intro hwidth
    have hpack {addr : Address} (haddr : addr ∈ config.fieldRanges) :=
      h.addressUnmapping_eq_packed hfit hwidth haddr
    refine ⟨fun addr haddr => ?_, fun x hx hlt => ?_⟩
    · refine h.addressMapping_packed haddr ?_
      rw [hpack haddr, Nat.mul_div_cancel _ (Nat.two_pow_pos _),
        Nat.mod_eq_of_lt (h.packed_lt haddr)]
    · obtain ⟨a, rfl⟩ := hx
      rw [Nat.mul_comm] at hlt ⊢
      have ha : a < 2 ^ config.totalWidth := by
        rw [Nat.pow_add] at hlt
        exact Nat.lt_of_mul_lt_mul_right hlt
      rw [hpack (h.addressMapping_mem _), h.packed_addressMapping ha]

/-- The default mapping of the default device is inverted. -/
theorem address_unmapping_inverts_defaults :
    ∃ c, Config.defaults.setAddressMapping 64
        ['c', 'h', 'r', 'o', 'b', 'a', 'b', 'g', 'r', 'a', 'c', 'o'] = .ok c ∧
      Config.defaults.totalWidth + c.shiftBits ≤ 64 ∧
      (∀ addr ∈ Config.defaults.fieldRanges, c.addressMapping (c.addressUnmapping addr) = addr) ∧
      ∀ x, 2 ^ c.shiftBits ∣ x → x < 2 ^ (Config.defaults.totalWidth + c.shiftBits) →
        c.addressUnmapping (c.addressMapping x) = x := by
  obtain ⟨c, hc, hfit⟩ : ∃ c, Config.defaults.setAddressMapping 64
      ['c', 'h', 'r', 'o', 'b', 'a', 'b', 'g', 'r', 'a', 'c', 'o'] = .ok c ∧
      Config.defaults.totalWidth + c.shiftBits ≤ 64 := ⟨_, rfl, by decide⟩
  exact ⟨c, hc, hfit, (address_unmapping_inverts hc (by decide) hfit).mpr (.inl (by decide))⟩

theorem wide_banks_pos : 0 < 4 := Nat.succ_pos 3

/-- Sixteen channels of two ranks with the bank groups, banks and rows of
`DDR4_8Gb_x8_2400.ini`. -/
def wide : Config :=
  { Config.defaults with
    channels := 16, ranks := 2, bankgroups := 4, banksPerGroup := 4, rows := 65536
    ranks_pos := Nat.two_pos, bankgroups_pos := wide_banks_pos
    banksPerGroup_pos := wide_banks_pos }

/-- With 32 bits the highest bit of an address comes back with all bits above it. -/
theorem address_unmapping_sign :
    ∃ c, wide.setAddressMapping 64
        ['c', 'h', 'r', 'o', 'b', 'a', 'b', 'g', 'r', 'a', 'c', 'o'] = .ok c ∧
      wide.totalWidth = 32 ∧ c.shiftBits = 6 ∧
      c.addressUnmapping (c.addressMapping (2 ^ 37)) = 2 ^ 64 - 2 ^ 37 :=
  ⟨_, rfl, by decide, by decide, by decide⟩

end Config

end Dramsim
