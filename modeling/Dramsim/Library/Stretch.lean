import Mathlib.Data.List.Chain

/-!
# Stretches of answers

A loop collects answers, some of which are missing.  A missing answer discards what has
been collected so far, and a flag remembers whether an answer ever differed in kind from
the first one that was collected before it.  `foldl_take` says what is left at the end:
the answers after the last missing one, and whether all neighbours were of one kind.
-/

namespace Library

namespace Stretch

variable {α β : Type}

/-- One more answer. -/
def take [DecidableEq β] (kind : α → β) (acc : List α × Bool) : Option α → List α × Bool
  | none => ([], acc.2)
  | some a =>
      (acc.1 ++ [a], acc.2 || (acc.1 ++ [a]).head?.any fun first => kind first ≠ kind a)

/-- The answers after the last missing one. -/
def late (answers : List (Option α)) : List α :=
  answers.foldl (fun acc answer => answer.elim [] fun a => acc ++ [a]) []

/-- Neighbouring answers are of one kind. -/
def Even (kind : α → β) (answers : List (Option α)) : Prop :=
  answers.IsChain fun x y => ∀ a ∈ x, ∀ b ∈ y, kind a = kind b

variable {kind : α → β} {answers : List (Option α)}

@[simp] theorem late_nil : late ([] : List (Option α)) = [] := rfl

@[simp] theorem late_append_none : late (answers ++ [none]) = [] := by
  simp [late]

@[simp] theorem late_append_some {a : α} : late (answers ++ [some a]) = late answers ++ [a] := by
  simp [late]

theorem some_mem_of_mem_late {a : α} (h : a ∈ late answers) : some a ∈ answers := by
  induction answers using List.reverseRecOn with
  | nil => cases h
  | append_singleton answers answer ih =>
      cases answer with
      | none => simp at h
      | some b =>
          rw [late_append_some, List.mem_append, List.mem_singleton] at h
          rcases h with h | rfl
          · exact List.mem_append_left _ (ih h)
          · exact List.mem_append_right _ (List.mem_singleton_self _)

/-- The last answer of a stretch is the last answer. -/
theorem late_eq_append {l : List α} {a : α} (h : late answers = l ++ [a]) :
    ∃ rest, answers = rest ++ [some a] ∧ late rest = l := by
  induction answers using List.reverseRecOn with
  | nil => simp at h
  | append_singleton answers answer _ =>
      cases answer with
      | none => simp at h
      | some b =>
          rw [late_append_some] at h
          obtain ⟨hl, hb⟩ := List.append_inj' h rfl
          exact ⟨answers, by rw [List.singleton_inj.mp hb], hl⟩

/-- Without a missing answer all are left. -/
theorem map_late (h : none ∉ answers) : (late answers).map some = answers := by
  induction answers using List.reverseRecOn with
  | nil => rfl
  | append_singleton answers answer ih =>
      rw [List.mem_append, not_or, List.mem_singleton] at h
      cases answer with
      | none => exact absurd rfl h.2
      | some b => rw [late_append_some, List.map_append, ih h.1, List.map_singleton]

theorem even_append_none : Even kind (answers ++ [none]) ↔ Even kind answers := by
  simp [Even, List.isChain_append]

/-- A stretch is of one kind. -/
theorem Even.kind_eq {c : α} (h : Even kind (answers ++ [some c])) :
    ∀ a ∈ late answers, kind a = kind c := by
  induction answers using List.reverseRecOn generalizing c with
  | nil => simp
  | append_singleton answers answer ih =>
      cases answer with
      | none => simp
      | some b =>
          obtain ⟨hinit, -, hlast⟩ := List.isChain_append.mp h
          have hbc : kind b = kind c := hlast (some b) (by simp) (some c) (by simp) b rfl c rfl
          intro a ha
          rw [late_append_some, List.mem_append, List.mem_singleton] at ha
          rcases ha with ha | rfl
          · exact (ih hinit a ha).trans hbc
          · exact hbc

theorem even_append_some {c : α} :
    Even kind (answers ++ [some c]) ↔ Even kind answers ∧ ∀ a ∈ late answers, kind a = kind c := by
  refine ⟨fun h => ⟨(List.isChain_append.mp h).1, h.kind_eq⟩, fun ⟨hinit, hsame⟩ => ?_⟩
  refine List.isChain_append.mpr ⟨hinit, List.isChain_singleton _, ?_⟩
  intro x hx y hy a ha b hb
  obtain rfl : y = some c := by simpa using hy.symm
  cases hb
  subst ha
  obtain ⟨init, rfl⟩ := List.getLast?_eq_some_iff.mp hx
  exact hsame a (by simp)

theorem Even.same (h : Even kind answers) {a b : α} (ha : a ∈ late answers)
    (hb : b ∈ late answers) : kind a = kind b := by
  obtain ⟨l, last, hl⟩ := List.eq_nil_or_concat (late answers) |>.resolve_left
    (List.ne_nil_of_mem ha)
  rw [List.concat_eq_append] at hl
  obtain ⟨rest, rfl, -⟩ := late_eq_append hl
  have hlast : ∀ a ∈ late (rest ++ [some last]), kind a = kind last := by
    intro a ha
    rw [late_append_some, List.mem_append, List.mem_singleton] at ha
    rcases ha with ha | rfl
    · exact h.kind_eq a ha
    · rfl
  exact (hlast a ha).trans (hlast b hb).symm

/-- What the loop has collected at the end. -/
theorem foldl_take [DecidableEq β] (kind : α → β) (answers : List (Option α)) :
    (answers.foldl (take kind) ([], false)).1 = late answers ∧
      ((answers.foldl (take kind) ([], false)).2 = false ↔ Even kind answers) := by
  induction answers using List.reverseRecOn with
  | nil => simp [Even]
  | append_singleton answers answer ih =>
      rw [List.foldl_concat]
      generalize answers.foldl (take kind) ([], false) = acc at ih
      obtain ⟨cmds, mixed⟩ := acc
      obtain ⟨rfl, hmixed⟩ := ih
      cases answer with
      | none => exact ⟨by simp [take], by simpa [take, even_append_none] using hmixed⟩
      | some c =>
          refine ⟨by simp [take], ?_⟩
          rw [even_append_some, ← hmixed]
          simp only [take, Bool.or_eq_false_iff]
          refine and_congr_right fun hfalse => ?_
          have hsame {a b : α} := (hmixed.mp hfalse).same (a := a) (b := b)
          cases hlate : late answers with
          | nil => simp
          | cons first rest =>
              rw [hlate] at hsame
              simp only [List.cons_append, List.head?_cons, Option.any_some,
                decide_eq_false_iff_not, not_not]
              exact ⟨fun h a ha => (hsame ha (List.mem_cons_self ..)).trans h,
                fun h => h first (List.mem_cons_self ..)⟩

end Stretch

end Library
