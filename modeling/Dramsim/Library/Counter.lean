import Mathlib.Order.Interval.Finset.Nat

/-!
# Counters that wrap around

A counter with several digits is advanced at its last digit, with a carry into the digit
before it.  `carry` is one such step for two digits, in terms of the number that they stand
for, so that any number of digits follows by using it again.

In a window as long as the period every value comes up once (`existsUnique_mod`).
-/

namespace Library

namespace Counter

theorem digits_lt {high low base size : Nat} (hlow : low < base) (hhigh : high < size) :
    high * base + low < size * base := by
  have hnext : (high + 1) * base ≤ size * base := Nat.mul_le_mul_right _ hhigh
  rw [Nat.add_mul, Nat.one_mul] at hnext
  omega

/-- The high digit advances when the low one comes back to zero. -/
theorem carry {high low base size : Nat} (hlow : low < base) (hhigh : high < size) :
    (if (low + 1) % base = 0 then (high + 1) % size else high) * base + (low + 1) % base =
      (high * base + low + 1) % (size * base) := by
  rcases Nat.lt_or_eq_of_le (show low + 1 ≤ base from hlow) with hlt | heq
  · rw [Nat.mod_eq_of_lt hlt, if_neg (Nat.succ_ne_zero low), Nat.add_assoc,
      Nat.mod_eq_of_lt (digits_lt hlt hhigh)]
  · rw [Nat.add_assoc, heq, Nat.mod_self, if_pos rfl, Nat.add_zero]
    calc (high + 1) % size * base = (high + 1) * base % (size * base) :=
          (Nat.mul_mod_mul_right ..).symm
      _ = (high * base + base) % (size * base) := by rw [Nat.add_mul, Nat.one_mul]

/-- The two digits of a number. -/
theorem digits_inj {high high' low low' base : Nat} (hlow : low < base) (hlow' : low' < base)
    (h : high * base + low = high' * base + low') : high = high' ∧ low = low' := by
  have hdiv := congrArg (· / base) h
  have hmod := congrArg (· % base) h
  simp only [Nat.mul_comm _ base, Nat.mul_add_div (Nat.zero_lt_of_lt hlow), Nat.mul_add_mod,
    Nat.div_eq_of_lt hlow, Nat.div_eq_of_lt hlow', Nat.mod_eq_of_lt hlow, Nat.mod_eq_of_lt hlow',
    Nat.add_zero] at hdiv hmod
  exact ⟨hdiv, hmod⟩

/-- Each value comes up once in a period. -/
theorem existsUnique_mod (n : Nat) {size value : Nat} (h : value < size) :
    ∃! k, (n ≤ k ∧ k < n + size) ∧ k % size = value := by
  have himage : value ∈ (Finset.Ico n (n + size)).image (· % size) := by
    rw [Nat.image_Ico_mod, Finset.mem_range]
    exact h
  obtain ⟨k, hk, hvalue⟩ := Finset.mem_image.mp himage
  refine ⟨k, ⟨Finset.mem_Ico.mp hk, hvalue⟩, fun k' hk' => ?_⟩
  exact Nat.mod_injOn_Ico n size (Finset.mem_Ico.mpr hk'.1) hk (hk'.2.trans hvalue.symm)

end Counter

end Library
