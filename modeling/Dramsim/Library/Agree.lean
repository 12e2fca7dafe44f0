import Dramsim.Library.Except

/-!
# Computations that agree

Two computations agree up to a relation when both return related results or both fail
with the same error.  Sequences of computations that agree agree.
-/

namespace Library

universe u

variable {ε : Type u} {α β α' β' : Type}

/-- Both return related results, or both fail alike. -/
def Agree (R : α → β → Prop) (x : Except ε α) (y : Except ε β) : Prop :=
  match x, y with
  | .ok a, .ok b => R a b
  | .error e, .error e' => e = e'
  | _, _ => False

namespace Agree

variable {R : α → β → Prop} {S : α' → β' → Prop} {x : Except ε α} {y : Except ε β}

theorem error {e : ε} : Agree R (.error e) (.error e) := rfl

/-- Equal computations agree up to a reflexive relation. -/
theorem of_eq {R : α → α → Prop} {x y : Except ε α} (h : x = y) (hrefl : ∀ a, R a a) :
    Agree R x y := by
  subst h
  cases x with
  | ok a => exact hrefl a
  | error e => rfl

theorem of_ok {a : α} {b : β} (h : Agree R x y) (hx : x = .ok a) (hy : y = .ok b) : R a b := by
  rw [hx, hy] at h
  exact h

theorem bind {f : α → Except ε α'} {g : β → Except ε β'} (h : Agree R x y)
    (hf : ∀ a b, R a b → Agree S (f a) (g b)) : Agree S (x >>= f) (y >>= g) := by
  cases x with
  | ok a =>
      cases y with
      | ok b => exact hf a b h
      | error e => exact h.elim
  | error e =>
      cases y with
      | ok b => exact h.elim
      | error e' => exact h

end Agree

end Library
