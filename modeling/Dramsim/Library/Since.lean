import Mathlib.Logic.Basic

/-!
# Something happened, and something else has not happened since

A temporal operator on histories, oldest first.  `since_append` is how it is
maintained when the history grows.
-/

namespace Library

variable {α : Type} {P Q : α → Prop} {l : List α} {e : α}

/-- An event satisfied `P`, and no later one satisfied `Q`. -/
def Since (P Q : α → Prop) (l : List α) : Prop :=
  ∃ before e after, l = before ++ e :: after ∧ P e ∧ ∀ e' ∈ after, ¬ Q e'

theorem not_since_nil : ¬ Since P Q [] := by
  rintro ⟨before, e, after, hl, _⟩
  cases before <;> cases hl

theorem since_append : Since P Q (l ++ [e]) ↔ P e ∨ (Since P Q l ∧ ¬ Q e) := by
  constructor
  · rintro ⟨before, e', after, hl, hP, hQ⟩
    rcases List.eq_nil_or_concat after with rfl | ⟨after', last, rfl⟩
    · obtain ⟨_, he⟩ := List.append_inj' hl rfl
      cases he
      exact Or.inl hP
    · rw [List.concat_eq_append] at hl hQ
      have hassoc : before ++ e' :: (after' ++ [last]) = (before ++ e' :: after') ++ [last] := by
        simp
      rw [hassoc] at hl
      obtain ⟨hl', he⟩ := List.append_inj' hl rfl
      cases he
      refine Or.inr ⟨⟨before, e', after', hl', hP, fun y hy => ?_⟩, hQ e (by simp)⟩
      exact hQ y (List.mem_append_left _ hy)
  · rintro (hP | ⟨⟨before, e', after, rfl, hP, hQ⟩, he⟩)
    · exact ⟨l, e, [], rfl, hP, fun y hy => absurd hy List.not_mem_nil⟩
    · refine ⟨before, e', after ++ [e], by simp, hP, fun y hy => ?_⟩
      rcases List.mem_append.mp hy with hy | hy
      · exact hQ y hy
      · rw [List.mem_singleton.mp hy]
        exact he

end Library
