import Dramsim.Library.BitFields
import Dramsim.Library.Except
import Dramsim.Model.AddressMapping
import Mathlib.Algebra.BigOperators.Group.List.Basic
import Mathlib.Data.List.Perm.Subperm
import Mathlib.Data.Set.List

/-!
# The address mapping is a bijection

`SetAddressMapping` comes to an end exactly for the orders of the six fields
(`setAddressMapping_iff`).  The loop then lays the fields out in the order in which the tokens
are taken from the back (`placeFields_spec`), so that their positions are those of a list of bit
fields.

`address_mapping_bijective` collects what follows for `AddressMapping`.
-/

namespace Dramsim

open Library

/-! ## Fields and tokens -/

namespace MappingField

theorem mem_all (f : MappingField) : f ∈ all := by
  cases f <;> decide

theorem nodup_all : all.Nodup := by decide

theorem find_token (f : MappingField) : find f.token = some f := by
  cases f <;> rfl

theorem eq_token_of_find {t : List Char} {f : MappingField} (h : find t = some f) :
    t = f.token := by
  have := List.find?_some h
  exact (of_decide_eq_true this).symm

theorem token_injective : Function.Injective token := by
  intro f f' h
  have := find_token f
  rw [h, find_token] at this
  exact (Option.some.inj this).symm

/-- Six tokens that name all fields name each of them once. -/
theorem perm_all {fs : List MappingField} (hlen : fs.length = 6) (hmem : ∀ f, f ∈ fs) :
    fs.Perm all :=
  ((List.subperm_of_subset nodup_all fun f _ => hmem f).perm_of_length_le
    (Nat.le_of_eq hlen)).symm

end MappingField

/-- A field of an address. -/
def Address.get (addr : Address) : MappingField → Int
  | .channel => addr.channel
  | .rank => addr.rank
  | .bankgroup => addr.bankgroup
  | .bank => addr.bank
  | .row => addr.row
  | .column => addr.column

theorem Address.ext_get {addr addr' : Address} (h : ∀ f, addr.get f = addr'.get f) :
    addr = addr' := by
  cases addr
  cases addr'
  rw [Address.mk.injEq]
  exact ⟨h .channel, h .rank, h .bankgroup, h .bank, h .row, h .column⟩

namespace Config

variable {config c : Config}

theorem length_mappingTokens :
    ∀ (n : Nat) (l : List Char), l.length = 2 * n → (mappingTokens l).length = n
  | 0, l, h => by
      rw [List.eq_nil_of_length_eq_zero h]
      rfl
  | n + 1, [], h => by
      rw [List.length_nil] at h
      omega
  | n + 1, [_], h => by
      rw [List.length_singleton] at h
      omega
  | n + 1, _ :: _ :: rest, h => by
      rw [List.length_cons, List.length_cons] at h
      rw [mappingTokens, List.length_cons, length_mappingTokens n rest (by omega)]

/-! ## Positions -/

/-- The number of bits of a field. -/
def width (config : Config) : MappingField → Nat
  | .channel => logBase2 config.channels
  | .rank => logBase2 config.ranks
  | .bankgroup => logBase2 config.bankgroups
  | .bank => logBase2 config.banksPerGroup
  | .row => logBase2 config.rows
  | .column => logBase2 config.columns - logBase2 config.BL

/-- The lowest bit of a field. -/
def pos (config : Config) : MappingField → Nat
  | .channel => config.chPos
  | .rank => config.raPos
  | .bankgroup => config.bgPos
  | .bank => config.baPos
  | .row => config.roPos
  | .column => config.coPos

/-- The number of bits of all fields. -/
def totalWidth (config : Config) : Nat := BitFields.total config.width MappingField.all

theorem logBase2_mono {m n : Nat} (hm : m ≠ 0) (h : m ≤ n) : logBase2 m ≤ logBase2 n :=
  (Nat.le_log2 (by omega)).mpr ((Nat.log2_self_le hm).trans h)

/-- With a burst no longer than a row the width of the column is no truncated difference. -/
theorem fieldWidths_eq (hBL : config.BL ≠ 0) (hle : config.BL ≤ config.columns)
    (f : MappingField) : config.fieldWidths f = config.width f := by
  cases f with
  | column =>
      have := logBase2_mono hBL hle
      simp only [fieldWidths, width]
      omega
  | _ => rfl

/-- The loop knows the fields, puts each of them behind those before it, and leaves the
others. -/
theorem placeFields_spec (hw : ∀ f, config.fieldWidths f = config.width f) :
    ∀ (tokens : List (List Char)) (pos : Nat) (fieldPos : MappingField → Option Int)
      {fieldPos' : MappingField → Option Int},
      config.placeFields tokens pos fieldPos = .ok fieldPos' →
      ∃ fs : List MappingField, tokens = fs.map MappingField.token ∧
        (∀ f, f ∉ fs → fieldPos' f = fieldPos f) ∧
        (fs.Nodup → ∀ f ∈ fs, fieldPos' f =
          some ((pos + BitFields.position config.width fs f : Nat) : Int))
  | [], pos, fieldPos, _, h => by
      cases h
      exact ⟨[], rfl, fun _ _ => rfl, fun _ _ hf => absurd hf List.not_mem_nil⟩
  | token :: rest, pos, fieldPos, fieldPos', h => by
      rw [placeFields] at h
      split at h
      · cases h
      · rename_i g hg
        rw [hw, ← Int.natCast_add] at h
        obtain ⟨fs, rfl, hother, hplaced⟩ := placeFields_spec hw rest _ _ h
        refine ⟨g :: fs, by rw [List.map_cons, MappingField.eq_token_of_find hg], fun f hf => ?_,
          fun hnodup f hf => ?_⟩
        · obtain ⟨hne, hf⟩ := not_or.mp fun h => hf (List.mem_cons.mpr h)
          rw [hother f hf, Function.update_of_ne hne]
        · obtain ⟨hg', hnodup⟩ := List.nodup_cons.mp hnodup
          by_cases hfg : f = g
          · subst hfg
            rw [hother f hg', Function.update_self, BitFields.position_cons_self, Nat.add_zero]
          · rw [hplaced hnodup f ((List.mem_cons.mp hf).resolve_left hfg),
              BitFields.position_cons_of_ne hfg, Nat.add_assoc]

theorem exists_placeFields (config : Config) :
    ∀ (fs : List MappingField) (pos : Int) (fieldPos : MappingField → Option Int),
      ∃ fieldPos', config.placeFields (fs.map MappingField.token) pos fieldPos = .ok fieldPos'
  | [], _, fieldPos => ⟨fieldPos, rfl⟩
  | f :: fs, pos, fieldPos => by
      rw [List.map_cons, placeFields, MappingField.find_token]
      exact exists_placeFields config fs _ _

theorem fieldAt_eq_ok {fieldPos : MappingField → Option Int} {f : MappingField} {p : Int} :
    fieldAt fieldPos f = .ok p ↔ fieldPos f = some p := by
  unfold fieldAt
  cases fieldPos f <;> simp

/-- What `SetAddressMapping` has done when it comes to an end. -/
theorem setAddressMapping_eq_ok {busWidth : Nat} {mapping : List Char} :
    config.setAddressMapping busWidth mapping = .ok c ↔
      mapping.length = 12 ∧ ∃ fieldPos : MappingField → Option Int,
        config.placeFields (mappingTokens mapping).reverse 0 (fun _ => none) = .ok fieldPos ∧
        ∃ p : MappingField → Int, (∀ f, fieldPos f = some (p f)) ∧
          c = { config with
            shiftBits := logBase2 (busWidth / 8 * config.BL)
            chPos := (p .channel).toNat
            raPos := (p .rank).toNat
            bgPos := (p .bankgroup).toNat
            baPos := (p .bank).toNat
            roPos := (p .row).toNat
            coPos := (p .column).toNat } := by
  unfold setAddressMapping
  dsimp only
  constructor
  · intro h
    split at h
    · cases h
    · rename_i hlen
      simp only [bind_eq_ok, fieldAt_eq_ok] at h
      obtain ⟨fieldPos, hplace, ch, hch, ra, hra, bg, hbg, ba, hba, ro, hro, co, hco, h⟩ := h
      cases h
      refine ⟨not_not.mp hlen, fieldPos, hplace, fun f => match f with
        | .channel => ch | .rank => ra | .bankgroup => bg
        | .bank => ba | .row => ro | .column => co,
        ?_, rfl⟩
      intro f
      cases f <;> assumption
  · rintro ⟨hlen, fieldPos, hplace, p, hp, rfl⟩
    rw [if_neg (not_not.mpr hlen)]
    simp only [bind_eq_ok, fieldAt_eq_ok]
    exact ⟨fieldPos, hplace, _, hp _, _, hp _, _, hp _, _, hp _, _, hp _, _, hp _, rfl⟩

/-- The six fields of `c` are laid out in the order of a list, with the widths of `config`. -/
structure Layout (config c : Config) (fs : List MappingField) : Prop where
  perm : fs.Perm MappingField.all
  pos : ∀ f, c.pos f = BitFields.position config.width fs f
  width : c.width = config.width

section Tokens

variable {busWidth : Nat} {mapping : List Char}
  (hw : ∀ f, config.fieldWidths f = config.width f)
include hw

theorem setAddressMapping_layout (h : config.setAddressMapping busWidth mapping = .ok c) :
    ∃ fs : List MappingField, (mappingTokens mapping).reverse = fs.map MappingField.token ∧
      Layout config c fs := by
  obtain ⟨hlen, fieldPos, hplace, p, hp, rfl⟩ := setAddressMapping_eq_ok.mp h
  obtain ⟨fs, hfs, hother, hplaced⟩ := placeFields_spec hw _ 0 _ hplace
  have hmem (f : MappingField) : f ∈ fs := by
    by_contra hf
    have hnone := hother f hf
    rw [hp f] at hnone
    cases hnone
  have hsix : fs.length = 6 := by
    rw [← List.length_map (f := MappingField.token), ← hfs, List.length_reverse]
    exact length_mappingTokens 6 mapping hlen
  have hperm := MappingField.perm_all hsix hmem
  have hpos (f : MappingField) : (p f).toNat = BitFields.position config.width fs f := by
    have hf := hplaced (hperm.nodup_iff.mpr MappingField.nodup_all) f (hmem f)
    rw [hp f, Nat.zero_add] at hf
    rw [Option.some.inj hf, Int.toNat_natCast]
  refine ⟨fs, hfs, hperm, fun f => ?_, funext fun f => ?_⟩
  · cases f <;> exact hpos _
  · cases f <;> rfl

/-- The tokens have to be the six fields in some order. -/
theorem setAddressMapping_iff (hlen : mapping.length = 12) :
    (∃ c, config.setAddressMapping busWidth mapping = .ok c) ↔
      (mappingTokens mapping).Perm (MappingField.all.map MappingField.token) := by
  constructor
  · rintro ⟨c, hc⟩
    obtain ⟨fs, hfs, hlayout⟩ := setAddressMapping_layout hw hc
    exact (List.reverse_perm _).symm.trans (hfs ▸ hlayout.perm.map _)
  · intro hperm
    have hreverse := (List.reverse_perm (mappingTokens mapping)).trans hperm
    obtain ⟨fs, hfs⟩ : (mappingTokens mapping).reverse ∈
        Set.range (List.map MappingField.token) := by
      rw [Set.range_list_map]
      intro token htoken
      obtain ⟨f, _, rfl⟩ := List.mem_map.mp (hreverse.mem_iff.mp htoken)
      exact ⟨f, rfl⟩
    rw [← hfs, List.map_perm_map_iff MappingField.token_injective] at hreverse
    obtain ⟨fieldPos, hplace⟩ := config.exists_placeFields fs 0 fun _ => none
    obtain ⟨fs', hfs', _, hplaced⟩ := placeFields_spec hw _ 0 _ hplace
    obtain rfl := List.map_injective_iff.mpr MappingField.token_injective hfs'
    have hall (f : MappingField) : fieldPos f =
        some ((0 + BitFields.position config.width fs f : Nat) : Int) :=
      hplaced (hreverse.nodup_iff.mpr MappingField.nodup_all) f
        (hreverse.mem_iff.mpr f.mem_all)
    exact ⟨_, setAddressMapping_eq_ok.mpr ⟨hlen, fieldPos, hfs ▸ hplace, _, hall, rfl⟩⟩

end Tokens

/-! ## The mapping -/

/-- The bit belongs to the field. -/
def Holds (config : Config) (f : MappingField) (b : Nat) : Prop :=
  config.pos f ≤ b ∧ b < config.pos f + config.width f

/-- The addresses whose fields have as many bits as the mapping gives them. -/
def fieldRanges (config : Config) : Set Address :=
  {addr | ∀ f, 0 ≤ addr.get f ∧ addr.get f < (2 ^ config.width f : Nat)}

/-- What a field counts. -/
def fieldSize (config : Config) : MappingField → Nat
  | .channel => config.channels
  | .rank => config.ranks
  | .bankgroup => config.bankgroups
  | .bank => config.banksPerGroup
  | .row => config.rows
  | .column => config.columns / config.BL

theorem field_eq (a p w : Nat) : field a p w = (a / 2 ^ p % 2 ^ w : Nat) := by
  rw [field, Nat.shiftRight_eq_div_pow, Nat.and_two_pow_sub_one_eq_mod]

theorem get_addressMapping (c : Config) (x : Nat) (f : MappingField) :
    (c.addressMapping x).get f = (x / 2 ^ c.shiftBits / 2 ^ c.pos f % 2 ^ c.width f : Nat) := by
  rw [← Nat.shiftRight_eq_div_pow x, ← field_eq]
  cases f <;> rfl

/-- A field does not outgrow what it counts, also if that is no power of two. -/
theorem two_pow_width_le (hchannels : 0 < config.channels) (hrows : 0 < config.rows)
    (hBL : ∃ k, config.BL = 2 ^ k) (hcolumns : ∃ k, config.columns = 2 ^ k)
    (hle : config.BL ≤ config.columns) (f : MappingField) :
    2 ^ config.width f ≤ config.fieldSize f := by
  have hlog {size : Nat} (hsize : 0 < size) : 2 ^ logBase2 size ≤ size :=
    Nat.log2_self_le (Nat.ne_of_gt hsize)
  cases f with
  | channel => exact hlog hchannels
  | rank => exact hlog config.ranks_pos
  | bankgroup => exact hlog config.bankgroups_pos
  | bank => exact hlog config.banksPerGroup_pos
  | row => exact hlog hrows
  | column =>
      obtain ⟨k, hk⟩ := hBL
      obtain ⟨n, hn⟩ := hcolumns
      rw [hk, hn] at hle
      have hkn : k ≤ n := (Nat.pow_le_pow_iff_right (by decide)).mp hle
      simp only [width, fieldSize, hk, hn, logBase2, Nat.log2_two_pow]
      rw [Nat.pow_div hkn (by decide)]

namespace Layout

variable {fs : List MappingField} (h : Layout config c fs)
include h

theorem nodup : fs.Nodup := h.perm.nodup_iff.mpr MappingField.nodup_all

theorem mem (f : MappingField) : f ∈ fs := h.perm.mem_iff.mpr f.mem_all

theorem total : BitFields.total config.width fs = config.totalWidth :=
  (h.perm.map config.width).sum_eq

theorem holds_iff {f : MappingField} {b : Nat} : c.Holds f b ↔
    BitFields.position config.width fs f ≤ b ∧
      b < BitFields.position config.width fs f + config.width f := by
  rw [Holds, h.pos, h.width]

/-- The fields leave no gap. -/
theorem lt_totalWidth_iff {b : Nat} : b < config.totalWidth ↔ ∃ f, c.Holds f b := by
  rw [← h.total]
  constructor
  · intro hb
    obtain ⟨f, _, hf⟩ := BitFields.exists_field h.nodup hb
    exact ⟨f, h.holds_iff.mpr hf⟩
  · rintro ⟨f, hf⟩
    have hend : BitFields.position config.width fs f + config.width f ≤
        BitFields.total config.width fs := BitFields.position_add_width_le (h.mem f)
    have := h.holds_iff.mp hf
    omega

/-- The fields do not overlap. -/
theorem holds_unique {f f' : MappingField} {b : Nat} (hf : c.Holds f b) (hf' : c.Holds f' b) :
    f = f' :=
  BitFields.field_unique (h.mem f) (h.mem f') (h.holds_iff.mp hf) (h.holds_iff.mp hf')

theorem get_eq_part (x : Nat) (f : MappingField) : (c.addressMapping x).get f =
    (BitFields.part config.width fs (x / 2 ^ c.shiftBits) f : Nat) := by
  rw [get_addressMapping, h.pos, h.width, BitFields.part]

theorem get_lt (x : Nat) (f : MappingField) : 0 ≤ (c.addressMapping x).get f ∧
    (c.addressMapping x).get f < (2 ^ config.width f : Nat) := by
  rw [h.get_eq_part]
  exact ⟨Int.natCast_nonneg _, Int.ofNat_lt.mpr (BitFields.part_lt _ f)⟩

theorem bijOn_addressMapping :
    Set.BijOn (fun a => c.addressMapping (a * 2 ^ c.shiftBits)) {a | a < 2 ^ config.totalWidth}
      config.fieldRanges := by
  have hbij : Set.BijOn (BitFields.part config.width fs)
      {a | a < 2 ^ BitFields.total config.width fs} {v | ∀ f, v f < 2 ^ config.width f} :=
    BitFields.bijOn_part h.nodup h.mem
  rw [h.total] at hbij
  have haligned (a : Nat) : a * 2 ^ c.shiftBits / 2 ^ c.shiftBits = a :=
    Nat.mul_div_cancel a (Nat.two_pow_pos _)
  refine ⟨fun a _ f => h.get_lt _ f, fun a ha a' ha' he => ?_, fun addr haddr => ?_⟩
  · refine hbij.injOn ha ha' (funext fun f => Int.ofNat_inj.mp ?_)
    have hf := congrArg (fun addr : Address => addr.get f) he
    simpa only [h.get_eq_part, haligned] using hf
  · have hfits (f : MappingField) : (addr.get f).toNat < 2 ^ config.width f := by
      have := haddr f
      omega
    obtain ⟨a, ha, hv⟩ := hbij.surjOn (a := fun f => (addr.get f).toNat) hfits
    refine ⟨a, ha, Address.ext_get fun f => ?_⟩
    rw [h.get_eq_part, haligned, hv]
    exact Int.toNat_of_nonneg (haddr f).1

/-- Only the bits of the fields matter. -/
theorem addressMapping_congr {x y : Nat} (hxy : ∀ b < config.totalWidth,
    x.testBit (c.shiftBits + b) = y.testBit (c.shiftBits + b)) :
    c.addressMapping x = c.addressMapping y := by
  have hmod : x / 2 ^ c.shiftBits % 2 ^ config.totalWidth =
      y / 2 ^ c.shiftBits % 2 ^ config.totalWidth := by
    refine Nat.eq_of_testBit_eq fun b => ?_
    rw [Nat.testBit_mod_two_pow, Nat.testBit_mod_two_pow, Nat.testBit_div_two_pow,
      Nat.testBit_div_two_pow]
    by_cases hb : b < config.totalWidth
    · rw [Nat.add_comm b, hxy b hb]
    · simp [hb]
  refine Address.ext_get fun f => ?_
  rw [h.get_eq_part, h.get_eq_part, ← BitFields.part_mod_total (h.mem f) (x / _),
    ← BitFields.part_mod_total (h.mem f) (y / _), h.total, hmod]

end Layout

/-- `SetAddressMapping` accepts exactly the orders of the six fields.  They then tile the low
bits of the shifted address, `AddressMapping` is a bijection between the addresses that have
only these bits and the values of the fields, depends on no other bit and stays within the
device, and `GetChannel` agrees with it. -/
theorem address_mapping_bijective (config : Config) (busWidth : Nat) (mapping : List Char)
    (hlen : mapping.length = 12) (hchannels : 0 < config.channels) (hrows : 0 < config.rows)
    (hBL : ∃ k, config.BL = 2 ^ k) (hcolumns : ∃ k, config.columns = 2 ^ k)
    (hle : config.BL ≤ config.columns) :
    ((∃ c, config.setAddressMapping busWidth mapping = .ok c) ↔
      (mappingTokens mapping).Perm (MappingField.all.map MappingField.token)) ∧
    ∀ c, config.setAddressMapping busWidth mapping = .ok c →
      (∀ b, b < config.totalWidth ↔ ∃ f, c.Holds f b) ∧
      (∀ b f f', c.Holds f b → c.Holds f' b → f = f') ∧
      Set.BijOn (fun a => c.addressMapping (a * 2 ^ c.shiftBits)) {a | a < 2 ^ config.totalWidth}
        config.fieldRanges ∧
      (∀ x y : Nat, (∀ b < config.totalWidth,
        x.testBit (c.shiftBits + b) = y.testBit (c.shiftBits + b)) →
        c.addressMapping x = c.addressMapping y) ∧
      ∀ x, (∀ f, 0 ≤ (c.addressMapping x).get f ∧
          (c.addressMapping x).get f < config.fieldSize f) ∧
        (c.getChannel x : Int) = (c.addressMapping x).channel := by
  have hpos : config.BL ≠ 0 := by
    obtain ⟨k, hk⟩ := hBL
    rw [hk]
    exact Nat.ne_of_gt (Nat.two_pow_pos k)
  have hw := fieldWidths_eq hpos hle
  refine ⟨setAddressMapping_iff hw hlen, fun c hc => ?_⟩
  obtain ⟨fs, _, h⟩ := setAddressMapping_layout hw hc
  refine ⟨fun b => h.lt_totalWidth_iff, fun b f f' => h.holds_unique, h.bijOn_addressMapping,
    fun x y => h.addressMapping_congr, fun x => ⟨fun f => ?_, rfl⟩⟩
  have hsize := two_pow_width_le hchannels hrows hBL hcolumns hle f
  exact ⟨(h.get_lt x f).1, (h.get_lt x f).2.trans_le (Int.ofNat_le.mpr hsize)⟩

/-- The default mapping of the default device. -/
theorem address_mapping_bijective_defaults :
    ∃ c, Config.defaults.setAddressMapping 64
        ['c', 'h', 'r', 'o', 'b', 'a', 'b', 'g', 'r', 'a', 'c', 'o'] = .ok c ∧
      Set.BijOn (fun a => c.addressMapping (a * 2 ^ c.shiftBits))
        {a | a < 2 ^ Config.defaults.totalWidth} Config.defaults.fieldRanges := by
  obtain ⟨hiff, hok⟩ := address_mapping_bijective .defaults 64
    ['c', 'h', 'r', 'o', 'b', 'a', 'b', 'g', 'r', 'a', 'c', 'o'] rfl (by decide) (by decide)
    ⟨3, rfl⟩ ⟨10, rfl⟩ (by decide)
  obtain ⟨c, hc⟩ := hiff.mpr (by decide)
  exact ⟨c, hc, (hok c hc).2.2.1⟩

end Config

end Dramsim
