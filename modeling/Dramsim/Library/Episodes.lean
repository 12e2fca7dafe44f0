import Mathlib.Data.List.Basic

/-!
# Episodes

A history, oldest first, opens and ends episodes of some keys, and serves the keys in between.
`served` counts the openings that something serves before the episode ends, and `pending` those of
a key that nothing has served or ended so far.  `served_append` and `pending_append` are how the
two counts are maintained when the history grows.
-/

namespace Library

namespace Episodes

variable {α κ : Type} [DecidableEq κ] {key : α → κ} {opens serves ends : α → Bool} {k : κ}

/-- The key is served before it is ended. -/
def servedIn (key : α → κ) (serves ends : α → Bool) (k : κ) : List α → Bool
  | [] => false
  | a :: rest =>
      if key a = k then serves a || (!ends a && servedIn key serves ends k rest)
      else servedIn key serves ends k rest

/-- The number of openings that are served before the episode ends. -/
def served (key : α → κ) (opens serves ends : α → Bool) : List α → Nat
  | [] => 0
  | a :: rest =>
      served key opens serves ends rest +
        if opens a && servedIn key serves ends (key a) rest then 1 else 0

theorem servedIn_iff {l : List α} :
    servedIn key serves ends k l = true ↔
      ∃ before a after, l = before ++ a :: after ∧ key a = k ∧ serves a = true ∧
        ∀ b ∈ before, key b = k → ends b = false := by
  induction l with
  | nil => simp [servedIn]
  | cons a l ih =>
      have hlater : (∃ before b after, a :: l = before ++ b :: after ∧ key b = k ∧
          serves b = true ∧ ∀ c ∈ before, key c = k → ends c = false) ↔
          (key a = k ∧ serves a = true) ∨ ((key a = k → ends a = false) ∧
            servedIn key serves ends k l = true) := by
        rw [ih]
        constructor
        · rintro ⟨_ | ⟨c, before⟩, b, after, hl, hb, hserves, hends⟩
          · cases hl
            exact Or.inl ⟨hb, hserves⟩
          · cases hl
            exact Or.inr ⟨hends a (List.mem_cons_self ..), before, b, after, rfl, hb, hserves,
              fun c hc => hends c (List.mem_cons_of_mem _ hc)⟩
        · rintro (⟨ha, hserves⟩ | ⟨ha, before, b, after, rfl, hb, hserves, hends⟩)
          · exact ⟨[], a, l, rfl, ha, hserves, fun c hc => absurd hc List.not_mem_nil⟩
          · exact ⟨a :: before, b, after, rfl, hb, hserves, List.forall_mem_cons.mpr ⟨ha, hends⟩⟩
      rw [hlater, servedIn]
      by_cases ha : key a = k <;> simp [ha]

/-! ## At the end of the history -/

/-- Nothing has served or ended the key. -/
def idle (key : α → κ) (serves ends : α → Bool) (k : κ) (l : List α) : Bool :=
  l.all fun a => key a ≠ k || (!serves a && !ends a)

/-- The number of openings of a key that nothing has served or ended. -/
def pending (key : α → κ) (opens serves ends : α → Bool) (k : κ) : List α → Nat
  | [] => 0
  | a :: rest =>
      pending key opens serves ends k rest +
        if opens a && key a = k && idle key serves ends k rest then 1 else 0

theorem idle_append (l : List α) (a : α) :
    idle key serves ends k (l ++ [a]) =
      (idle key serves ends k l && (key a ≠ k || (!serves a && !ends a))) := by
  simp [idle]

theorem servedIn_append (l : List α) (a : α) :
    servedIn key serves ends k (l ++ [a]) =
      (servedIn key serves ends k l || (idle key serves ends k l && key a = k && serves a)) := by
  induction l with
  | nil => by_cases ha : key a = k <;> simp [servedIn, idle, ha]
  | cons b l ih =>
      have hidle : idle key serves ends k (b :: l) =
          ((key b ≠ k || (!serves b && !ends b)) && idle key serves ends k l) := rfl
      rw [List.cons_append, servedIn, servedIn, ih, hidle]
      by_cases hb : key b = k
      · simp only [hb, if_true]
        cases serves b <;> cases ends b <;> simp
      · simp [hb]

/-- What has been served is not idle. -/
theorem not_idle_of_servedIn {l : List α} (h : servedIn key serves ends k l = true) :
    idle key serves ends k l = false := by
  obtain ⟨before, a, after, rfl, ha, hserves, -⟩ := servedIn_iff.mp h
  simp [idle, ha, hserves]

/-- An element serves the openings of its key that are pending. -/
theorem served_append (l : List α) (a : α) :
    served key opens serves ends (l ++ [a]) =
      served key opens serves ends l +
        if serves a then pending key opens serves ends (key a) l else 0 := by
  induction l with
  | nil => simp [served, servedIn, pending]
  | cons b l ih =>
      rw [List.cons_append, served, ih, servedIn_append, served, pending]
      by_cases hb : key b = key a
      · cases hopens : opens b <;> cases hserves : serves a <;>
          cases hidle : idle key serves ends (key a) l <;>
          cases hserved : servedIn key serves ends (key a) l <;>
          simp_all [not_idle_of_servedIn]
        all_goals omega
      · have hne : key a ≠ key b := fun he => hb he.symm
        simp [hb, hne]
        omega

/-- An element serves or ends what is pending for its key, and may open an episode. -/
theorem pending_append (l : List α) (a : α) :
    pending key opens serves ends k (l ++ [a]) =
      (if key a = k ∧ (serves a = true ∨ ends a = true) then 0
        else pending key opens serves ends k l) +
        if opens a = true ∧ key a = k then 1 else 0 := by
  induction l with
  | nil => simp [pending, idle]
  | cons b l ih =>
      rw [List.cons_append, pending, ih, idle_append, pending]
      by_cases ha : key a = k
      · cases serves a <;> cases ends a <;> simp [ha]
        omega
      · simp [ha]

end Episodes

end Library
