import Mathlib.Order.Lattice
import Mathlib.Order.Defs.LinearOrder
import Mathlib.Logic.Function.Basic

/-!
# Tables of earliest times

A table holds, for each key, the earliest time at which the key may be used.
Events only ever raise entries, so one entry per key stands for every
constraint imposed on that key so far.  `Covers` says that a table stands for
the constraints of a whole history.
-/

namespace Library

variable {κ τ : Type*} [DecidableEq κ] [LinearOrder τ]

/-! ## Raising entries -/

/-- Raise the entry of one key to at least `t`. -/
def raise (table : κ → τ) (k : κ) (t : τ) : κ → τ :=
  fun k' => if k' = k then max (table k') t else table k'

/-- Raise the entries of a list of keys, in order. -/
def raiseAll (table : κ → τ) (l : List (κ × τ)) : κ → τ :=
  l.foldl (fun table p => raise table p.1 p.2) table

theorem raise_le_iff {table : κ → τ} {k k' : κ} {t b : τ} :
    raise table k t k' ≤ b ↔ table k' ≤ b ∧ (k' = k → t ≤ b) := by
  by_cases h : k' = k
  · subst h
    simp [raise]
  · simp [raise, h]

/-- An entry after raising is the least bound of the old entry and of the times
asked for its key. -/
theorem raiseAll_le_iff {l : List (κ × τ)} {table : κ → τ} {k : κ} {b : τ} :
    raiseAll table l k ≤ b ↔ table k ≤ b ∧ ∀ t, (k, t) ∈ l → t ≤ b := by
  induction l generalizing table with
  | nil => simp [raiseAll]
  | cons p l ih =>
      obtain ⟨k₀, t₀⟩ := p
      have hstep : raiseAll table ((k₀, t₀) :: l) = raiseAll (raise table k₀ t₀) l := rfl
      rw [hstep, ih, raise_le_iff]
      constructor
      · rintro ⟨⟨hold, hhead⟩, htail⟩
        refine ⟨hold, fun t ht => ?_⟩
        rcases List.mem_cons.mp ht with he | ht'
        · obtain ⟨rfl, rfl⟩ := Prod.mk.inj he
          exact hhead rfl
        · exact htail t ht'
      · rintro ⟨hold, hall⟩
        refine ⟨⟨hold, fun hk => ?_⟩, fun t ht => hall t (List.mem_cons_of_mem _ ht)⟩
        subst hk
        exact hall t₀ (List.mem_cons_self ..)

/-! ## Covering a history -/

section Covers

variable {η : Type*} {imposes : η → κ → τ → Prop} {table table' : κ → τ} {history : List η}

/-- Every constraint imposed by an event of the history is below its entry. -/
def Covers (imposes : η → κ → τ → Prop) (table : κ → τ) (history : List η) : Prop :=
  ∀ e ∈ history, ∀ k t, imposes e k t → t ≤ table k

omit [DecidableEq κ] in
theorem Covers.nil : Covers imposes table [] := by
  intro e he
  cases he

omit [DecidableEq κ] in
theorem Covers.mono (h : Covers imposes table history) (hle : ∀ k, table k ≤ table' k) :
    Covers imposes table' history :=
  fun e he k t ht => le_trans (h e he k t ht) (hle k)

omit [DecidableEq κ] in
/-- One event more: entries may only grow, and must grow past what the event
imposes. -/
theorem Covers.snoc {e : η} (h : Covers imposes table history)
    (hle : ∀ k, table k ≤ table' k) (he : ∀ k t, imposes e k t → t ≤ table' k) :
    Covers imposes table' (history ++ [e]) := by
  intro e' he' k t ht
  rcases List.mem_append.mp he' with hold | hnew
  · exact h.mono hle e' hold k t ht
  · rw [List.mem_singleton] at hnew
    subst hnew
    exact he k t ht

end Covers

end Library
