import Mathlib.Algebra.GroupWithZero.Nat
import Mathlib.Data.List.Nodup
import Mathlib.Data.Nat.Log
import Mathlib.Data.Set.Function

/-!
# Bit fields

Fields of given widths are laid out in the order of a list, from bit 0 on.  `position` says
where a field starts, `part` reads it out of a number, and `assemble` puts a number together
from the values of its fields.

The fields of a list without repetition tile the bits below their total width
(`exists_field`, `field_unique`), and reading them is a bijection from the numbers of that
width to the values that fit (`bijOn_part`).
-/

namespace Library.BitFields

variable {ι : Type} {width : ι → Nat} {l rest : List ι} {i j : ι}

/-- The width of all fields together. -/
def total (width : ι → Nat) (l : List ι) : Nat := (l.map width).sum

@[simp] theorem total_cons : total width (j :: rest) = width j + total width rest := by
  simp [total]

/-- The number whose fields have the given values. -/
def assemble (width : ι → Nat) : List ι → (ι → Nat) → Nat
  | [], _ => 0
  | j :: rest, v => v j + 2 ^ width j * assemble width rest v

theorem assemble_congr {v v' : ι → Nat} (h : ∀ i ∈ l, v i = v' i) :
    assemble width l v = assemble width l v' := by
  induction l with
  | nil => rfl
  | cons j rest ih =>
      obtain ⟨hj, hrest⟩ := List.forall_mem_cons.mp h
      rw [assemble, assemble, hj, ih hrest]

theorem assemble_lt {v : ι → Nat} (h : ∀ i ∈ l, v i < 2 ^ width i) :
    assemble width l v < 2 ^ total width l := by
  induction l with
  | nil => exact Nat.two_pow_pos _
  | cons j rest ih =>
      obtain ⟨hj, hrest⟩ := List.forall_mem_cons.mp h
      have hstep : 2 ^ width j * (assemble width rest v + 1) ≤ 2 ^ width j * 2 ^ total width rest :=
        Nat.mul_le_mul_left _ (ih hrest)
      rw [Nat.mul_add, Nat.mul_one] at hstep
      rw [assemble, total_cons, Nat.pow_add]
      omega

variable [DecidableEq ι]

/-- The bit with which a field starts. -/
def position (width : ι → Nat) : List ι → ι → Nat
  | [], _ => 0
  | j :: rest, i => if i = j then 0 else width j + position width rest i

/-- The value of a field. -/
def part (width : ι → Nat) (l : List ι) (a : Nat) (i : ι) : Nat :=
  a / 2 ^ position width l i % 2 ^ width i

@[simp] theorem position_cons_self : position width (j :: rest) j = 0 := if_pos rfl

theorem position_cons_of_ne (h : i ≠ j) :
    position width (j :: rest) i = width j + position width rest i := if_neg h

theorem testBit_part {a k : Nat} (hk : k < width i) :
    (part width l a i).testBit k = a.testBit (position width l i + k) := by
  rw [part, Nat.testBit_mod_two_pow, Nat.testBit_div_two_pow, decide_eq_true hk, Bool.true_and,
    Nat.add_comm]

/-! ## The fields tile their bits -/

theorem position_add_width_le (h : i ∈ l) : position width l i + width i ≤ total width l := by
  induction l with
  | nil => cases h
  | cons j rest ih =>
      rw [total_cons]
      by_cases hij : i = j
      · subst hij
        rw [position_cons_self]
        omega
      · rw [position_cons_of_ne hij]
        have := ih ((List.mem_cons.mp h).resolve_left hij)
        omega

/-- There is no gap. -/
theorem exists_field (hl : l.Nodup) {b : Nat} (hb : b < total width l) :
    ∃ i ∈ l, position width l i ≤ b ∧ b < position width l i + width i := by
  induction l generalizing b with
  | nil => exact absurd hb (Nat.not_lt_zero b)
  | cons j rest ih =>
      obtain ⟨hj, hrest⟩ := List.nodup_cons.mp hl
      by_cases hfirst : b < width j
      · refine ⟨j, List.mem_cons_self .., ?_⟩
        rw [position_cons_self]
        omega
      · rw [total_cons] at hb
        obtain ⟨i, hi, hle, hlt⟩ := ih hrest (b := b - width j) (by omega)
        have hij : i ≠ j := fun he => hj (he ▸ hi)
        refine ⟨i, List.mem_cons_of_mem _ hi, ?_⟩
        rw [position_cons_of_ne hij]
        omega

/-- There is no overlap. -/
theorem field_unique {i' : ι} {b : Nat} (hi : i ∈ l) (hi' : i' ∈ l)
    (h : position width l i ≤ b ∧ b < position width l i + width i)
    (h' : position width l i' ≤ b ∧ b < position width l i' + width i') : i = i' := by
  induction l generalizing b with
  | nil => cases hi
  | cons j rest ih =>
      by_cases hij : i = j
      · by_cases hij' : i' = j
        · rw [hij, hij']
        · rw [hij, position_cons_self] at h
          rw [position_cons_of_ne hij'] at h'
          omega
      · rw [position_cons_of_ne hij] at h
        by_cases hij' : i' = j
        · rw [hij', position_cons_self] at h'
          omega
        · rw [position_cons_of_ne hij'] at h'
          exact ih ((List.mem_cons.mp hi).resolve_left hij)
            ((List.mem_cons.mp hi').resolve_left hij')
            (b := b - width j) (by omega) (by omega)

/-! ## Reading and writing -/

theorem part_lt (a : Nat) (i : ι) : part width l a i < 2 ^ width i :=
  Nat.mod_lt _ (Nat.two_pow_pos _)

theorem part_cons_self (a : Nat) : part width (j :: rest) a j = a % 2 ^ width j := by
  rw [part, position_cons_self, Nat.pow_zero, Nat.div_one]

theorem part_cons_of_ne (h : i ≠ j) (a : Nat) :
    part width (j :: rest) a i = part width rest (a / 2 ^ width j) i := by
  rw [part, part, position_cons_of_ne h, Nat.pow_add, Nat.div_div_eq_div_mul]

/-- A field does not depend on the bits above all fields. -/
theorem part_mod_total (h : i ∈ l) (a : Nat) :
    part width l (a % 2 ^ total width l) i = part width l a i := by
  induction l generalizing a with
  | nil => cases h
  | cons j rest ih =>
      rw [total_cons, Nat.pow_add]
      by_cases hij : i = j
      · subst hij
        rw [part_cons_self, part_cons_self, Nat.mod_mul_right_mod]
      · rw [part_cons_of_ne hij, part_cons_of_ne hij, Nat.mod_mul_right_div_self,
          ih ((List.mem_cons.mp h).resolve_left hij)]

theorem part_assemble {v : ι → Nat} (h : ∀ i ∈ l, v i < 2 ^ width i) (hi : i ∈ l) :
    part width l (assemble width l v) i = v i := by
  induction l with
  | nil => cases hi
  | cons j rest ih =>
      obtain ⟨hj, hrest⟩ := List.forall_mem_cons.mp h
      rw [assemble]
      by_cases hij : i = j
      · subst hij
        rw [part_cons_self, Nat.add_mul_mod_self_left, Nat.mod_eq_of_lt hj]
      · rw [part_cons_of_ne hij, Nat.add_mul_div_left _ _ (Nat.two_pow_pos _),
          Nat.div_eq_of_lt hj, Nat.zero_add]
        exact ih hrest ((List.mem_cons.mp hi).resolve_left hij)

theorem assemble_part (hl : l.Nodup) {a : Nat} (ha : a < 2 ^ total width l) :
    assemble width l (part width l a) = a := by
  induction l generalizing a with
  | nil =>
      have hzero : a = 0 := by simpa [total] using ha
      rw [hzero]
      rfl
  | cons j rest ih =>
      obtain ⟨hj, hrest⟩ := List.nodup_cons.mp hl
      have htail : assemble width rest (part width (j :: rest) a) = a / 2 ^ width j := by
        have hne (i : ι) (hi : i ∈ rest) : i ≠ j := fun he => hj (he ▸ hi)
        rw [assemble_congr fun i hi => part_cons_of_ne (hne i hi) a]
        refine ih hrest (Nat.div_lt_of_lt_mul ?_)
        rwa [total_cons, Nat.pow_add] at ha
      rw [assemble, part_cons_self, htail, Nat.mod_add_div]

/-- The bits of an assembled number are those of its fields. -/
theorem testBit_assemble {v : ι → Nat} (hl : l.Nodup) (h : ∀ i ∈ l, v i < 2 ^ width i) (b : Nat) :
    (assemble width l v).testBit b = true ↔
      ∃ i ∈ l, position width l i ≤ b ∧ (v i).testBit (b - position width l i) = true := by
  induction l generalizing b with
  | nil => simp [assemble]
  | cons j rest ih =>
      obtain ⟨hj, hrest⟩ := List.nodup_cons.mp hl
      obtain ⟨hvj, hvrest⟩ := List.forall_mem_cons.mp h
      have hne (i : ι) (hi : i ∈ rest) : i ≠ j := fun he => hj (he ▸ hi)
      rw [assemble, Nat.add_comm, Nat.testBit_two_pow_mul_add _ hvj]
      split
      · rename_i hlow
        constructor
        · intro hbit
          exact ⟨j, List.mem_cons_self .., by simpa using hbit⟩
        · rintro ⟨i, hi, hle, hbit⟩
          rcases List.mem_cons.mp hi with rfl | hi
          · simpa using hbit
          · rw [position_cons_of_ne (hne i hi)] at hle
            omega
      · rename_i hhigh
        rw [ih hrest hvrest]
        constructor
        · rintro ⟨i, hi, hle, hbit⟩
          refine ⟨i, List.mem_cons_of_mem _ hi, ?_⟩
          rw [position_cons_of_ne (hne i hi), Nat.sub_add_eq]
          exact ⟨by omega, hbit⟩
        · rintro ⟨i, hi, hle, hbit⟩
          rcases List.mem_cons.mp hi with rfl | hi
          · have hpow : 2 ^ width i ≤ 2 ^ b :=
              Nat.pow_le_pow_right (by decide) (Nat.le_of_not_lt hhigh)
            rw [position_cons_self, Nat.sub_zero,
              Nat.testBit_lt_two_pow (hvj.trans_le hpow)] at hbit
            cases hbit
          · rw [position_cons_of_ne (hne i hi)] at hle hbit
            exact ⟨i, hi, by omega, by rwa [Nat.sub_add_eq] at hbit⟩

/-- Reading all fields is a bijection onto the values that fit. -/
theorem bijOn_part (hl : l.Nodup) (hall : ∀ i, i ∈ l) :
    Set.BijOn (part width l) {a | a < 2 ^ total width l} {v | ∀ i, v i < 2 ^ width i} := by
  refine ⟨fun a _ i => part_lt a i, fun a ha a' ha' he => ?_, fun v hv => ?_⟩
  · rw [← assemble_part hl ha, ← assemble_part hl ha', he]
  · exact ⟨assemble width l v, assemble_lt fun i _ => hv i,
      funext fun i => part_assemble (fun i _ => hv i) (hall i)⟩

end Library.BitFields
