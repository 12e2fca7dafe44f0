import Dramsim.Library.BitFields

/-!
# Placing the bits of fields

The bits of some fields are written into a number at places of their own, and the fields are read
from the number again, side by side.  `Holds` says what the number holds and `Permutes` that the
places are distinct and below the width of all fields.  Then no bit is lost (`eq_of_part_eq`), and
when each field is written where it is read nothing changes (`Holds.part_eq`).
-/

namespace Library

namespace BitPlacement

open BitFields

variable {ι : Type} {width : ι → Nat} {l : List ι} {place : ι → Nat → Nat} {v v' : ι → Nat}
  {a : Nat}

/-- A number whose bits are those of the fields, each at its place. -/
def Holds (width : ι → Nat) (l : List ι) (place : ι → Nat → Nat) (v : ι → Nat) (a : Nat) : Prop :=
  ∀ b, a.testBit b = true ↔ ∃ i ∈ l, ∃ k < width i, place i k = b ∧ (v i).testBit k = true

/-- Places that are distinct and below the width of all fields. -/
structure Permutes (width : ι → Nat) (l : List ι) (place : ι → Nat → Nat) : Prop where
  lt : ∀ i ∈ l, ∀ k < width i, place i k < total width l
  inj : ∀ i ∈ l, ∀ k < width i, ∀ i' ∈ l, ∀ k' < width i', place i k = place i' k' → i = i' ∧ k = k'

namespace Holds

theorem congr {place' : ι → Nat → Nat} (h : Holds width l place v a)
    (heq : ∀ i ∈ l, ∀ k < width i, place i k = place' i k) : Holds width l place' v a := by
  intro b
  rw [h b]
  constructor
  · rintro ⟨i, hi, k, hk, hb, hbit⟩
    exact ⟨i, hi, k, hk, (heq i hi k hk).symm.trans hb, hbit⟩
  · rintro ⟨i, hi, k, hk, hb, hbit⟩
    exact ⟨i, hi, k, hk, (heq i hi k hk).trans hb, hbit⟩

theorem lt_two_pow (hp : Permutes width l place) (h : Holds width l place v a) :
    a < 2 ^ total width l := by
  apply Nat.lt_pow_two_of_testBit
  intro b hb
  rw [← Bool.not_eq_true, h b]
  rintro ⟨i, hi, k, hk, rfl, _⟩
  exact absurd (hp.lt i hi k hk) (Nat.not_lt.mpr hb)

theorem testBit_place (hp : Permutes width l place) (h : Holds width l place v a) {i : ι}
    (hi : i ∈ l) {k : Nat} (hk : k < width i) : a.testBit (place i k) = (v i).testBit k := by
  rw [Bool.eq_iff_iff, h]
  constructor
  · rintro ⟨i', hi', k', hk', heq, hbit⟩
    obtain ⟨rfl, rfl⟩ := hp.inj i' hi' k' hk' i hi k hk heq
    exact hbit
  · intro hbit
    exact ⟨i, hi, k, hk, rfl, hbit⟩

/-- The fields are known from the number. -/
theorem unique (hp : Permutes width l place) (h : Holds width l place v a)
    (h' : Holds width l place v' a) {i : ι} (hi : i ∈ l) (hv : v i < 2 ^ width i)
    (hv' : v' i < 2 ^ width i) : v i = v' i := by
  apply Nat.eq_of_testBit_eq
  intro k
  by_cases hk : k < width i
  · rw [← h.testBit_place hp hi hk, ← h'.testBit_place hp hi hk]
  · have hle : 2 ^ width i ≤ 2 ^ k := Nat.pow_le_pow_right Nat.two_pos (Nat.not_lt.mp hk)
    rw [Nat.testBit_lt_two_pow (Nat.lt_of_lt_of_le hv hle),
      Nat.testBit_lt_two_pow (Nat.lt_of_lt_of_le hv' hle)]

variable [DecidableEq ι]

/-- Fields that are written where they are read. -/
theorem part_eq (hl : l.Nodup) (hv : ∀ i ∈ l, v i < 2 ^ width i)
    (h : Holds width l (fun i k => position width l i + k) v a) {i : ι} (hi : i ∈ l) :
    part width l a i = v i := by
  have heq : a = assemble width l v := by
    apply Nat.eq_of_testBit_eq
    intro b
    rw [Bool.eq_iff_iff, h, testBit_assemble hl hv]
    constructor
    · rintro ⟨i, hi, k, _, rfl, hbit⟩
      exact ⟨i, hi, Nat.le_add_right _ _, by rwa [Nat.add_sub_cancel_left]⟩
    · rintro ⟨i, hi, hle, hbit⟩
      refine ⟨i, hi, b - position width l i, ?_, Nat.add_sub_cancel' hle, hbit⟩
      by_contra hk
      have hle : 2 ^ width i ≤ 2 ^ (b - position width l i) :=
        Nat.pow_le_pow_right Nat.two_pos (Nat.not_lt.mp hk)
      rw [Nat.testBit_lt_two_pow (Nat.lt_of_lt_of_le (hv i hi) hle)] at hbit
      cases hbit
  rw [heq, part_assemble hv hi]

end Holds

/-- Fields that are written at distinct places and read side by side keep all their bits. -/
theorem eq_of_part_eq [DecidableEq ι] {a' : Nat} (hl : l.Nodup) (hp : Permutes width l place)
    (h : Holds width l place v a) (h' : Holds width l place v' a')
    (heq : ∀ i, part width l a i = part width l a' i) {i : ι} (hi : i ∈ l)
    (hv : v i < 2 ^ width i) (hv' : v' i < 2 ^ width i) : v i = v' i := by
  have hsame : a = a' := by
    rw [← assemble_part hl (h.lt_two_pow hp), ← assemble_part hl (h'.lt_two_pow hp)]
    exact congrArg _ (funext heq)
  exact h.unique hp (hsame ▸ h') hi hv hv'

/-- The bits that a loop has set. -/
theorem testBit_foldl {α : Type} {step : Nat → α → Nat} {b : Nat} (sets : α → Prop)
    (hstep : ∀ a x, (step a x).testBit b = true ↔ a.testBit b = true ∨ sets x) (xs : List α) :
    ∀ a, (xs.foldl step a).testBit b = true ↔ a.testBit b = true ∨ ∃ x ∈ xs, sets x := by
  induction xs with
  | nil =>
      intro a
      simp
  | cons x xs ih =>
      intro a
      rw [List.foldl_cons, ih, hstep, or_assoc]
      simp only [List.mem_cons, exists_eq_or_imp]

end BitPlacement

end Library
