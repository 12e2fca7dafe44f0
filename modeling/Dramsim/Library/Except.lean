import Mathlib.Data.List.Forall2
import Mathlib.Logic.Function.Basic

/-!
# Computations that can fail

Inversion of the sequencing of `Except` computations.  From a sequence that
returns, the parts that returned are read off by `obtain`; from one that fails,
the part that failed.
-/

namespace Library

variable {ε : Type*} {α β : Type}

/-- A sequence returns exactly when its parts do. -/
theorem bind_eq_ok {x : Except ε α} {f : α → Except ε β} {b : β} :
    (x >>= f) = .ok b ↔ ∃ a, x = .ok a ∧ f a = .ok b := by
  cases x with
  | error e => simp [bind, Except.bind]
  | ok a => simp [bind, Except.bind]

/-- A sequence fails exactly when its first failing part does. -/
theorem bind_eq_error {x : Except ε α} {f : α → Except ε β} {e : ε} :
    (x >>= f) = .error e ↔ x = .error e ∨ ∃ a, x = .ok a ∧ f a = .error e := by
  cases x with
  | error e' => simp [bind, Except.bind]
  | ok a => simp [bind, Except.bind]

/-- A computation on every element of a list. -/
theorem mapM_eq_ok {f : α → Except ε β} :
    ∀ {l : List α} {l' : List β}, l.mapM f = .ok l' ↔ List.Forall₂ (fun a b => f a = .ok b) l l'
  | [], l' => by
      rw [List.mapM_nil, List.forall₂_nil_left_iff]
      exact ⟨fun h => (Except.ok.inj h).symm, fun h => by rw [h]; rfl⟩
  | a :: l, l' => by
      rw [List.mapM_cons, bind_eq_ok, List.forall₂_cons_left_iff]
      simp only [bind_eq_ok, mapM_eq_ok]
      constructor
      · rintro ⟨b, hb, rest, hrest, h⟩
        exact ⟨b, rest, hb, hrest, (Except.ok.inj h).symm⟩
      · rintro ⟨b, rest, hb, hrest, rfl⟩
        exact ⟨b, hb, rest, hrest, rfl⟩

/-- A computation that returns for every element of a list. -/
theorem exists_mapM_ok {f : α → Except ε β} {Q : β → Prop} {l : List α}
    (h : ∀ a ∈ l, ∃ b, f a = .ok b ∧ Q b) : ∃ l', l.mapM f = .ok l' ∧ ∀ b ∈ l', Q b := by
  induction l with
  | nil => exact ⟨[], rfl, List.forall_mem_nil _⟩
  | cons a l ih =>
      obtain ⟨⟨b, hb, hQ⟩, hrest⟩ := List.forall_mem_cons.mp h
      obtain ⟨l', hl', hall⟩ := ih hrest
      refine ⟨b :: l', ?_, List.forall_mem_cons.mpr ⟨hQ, hall⟩⟩
      exact mapM_eq_ok.mpr (.cons hb (mapM_eq_ok.mp hl'))

theorem toOption_eq_some {x : Except ε α} {a : α} : x.toOption = some a ↔ x = .ok a := by
  cases x with
  | ok b => simp [Except.toOption]
  | error e => simp [Except.toOption]

end Library
