import Mathlib.Logic.Function.Basic

/-!
# Evaluation by value

The kernel passes on what it has not evaluated, so that a state that is updated step by step
becomes a long chain of updates, which is walked through again whenever it is read.  `force`
evaluates a value and passes on the result, and `memo` does it for a function at some
arguments.  Both are the identity.
-/

namespace Library

/-- Types whose values can be evaluated before they are passed on. -/
class Strict (α : Type) where
  force {β : Type} : α → (α → β) → β
  force_eq {β : Type} (a : α) (k : α → β) : force a k = k a

namespace Strict

attribute [simp] force_eq

variable {α β γ : Type}

instance : Strict Nat where
  force n k :=
    match n with
    | 0 => k 0
    | n + 1 => k (n + 1)
  force_eq n k := by cases n <;> rfl

instance : Strict Int where
  force i k :=
    match i with
    | .ofNat n => force n fun n => k (.ofNat n)
    | .negSucc n => force n fun n => k (.negSucc n)
  force_eq i k := by cases i <;> simp

instance {n : Nat} : Strict (Fin n) where
  force i k :=
    match i with
    | ⟨0, h⟩ => k ⟨0, h⟩
    | ⟨i + 1, h⟩ => k ⟨i + 1, h⟩
  force_eq i k := by
    obtain ⟨_ | i, h⟩ := i <;> rfl

/-- A type with few values, which are listed. -/
@[reducible] def ofList [DecidableEq α] (values : List α) : Strict α where
  force a k :=
    match values.find? fun b => b = a with
    | some b => k b
    | none => k a
  force_eq a k := by
    split
    · rename_i b hb
      have hba : b = a := by simpa using List.find?_some hb
      rw [hba]
    · rfl

instance : Strict Bool := ofList [false, true]

/-- Evaluate the entries of a list. -/
def forceList [Strict α] : List α → (List α → β) → β
  | [], k => k []
  | a :: l, k => force a fun a => forceList l fun l => k (a :: l)

theorem forceList_eq [Strict α] : ∀ (l : List α) (k : List α → β), forceList l k = k l
  | [], _ => rfl
  | a :: l, k => by rw [forceList, force_eq, forceList_eq]

instance [Strict α] : Strict (List α) := ⟨forceList, forceList_eq⟩

/-- Evaluate a function at some arguments. -/
def memo [DecidableEq α] [Strict β] (f : α → β) : List α → ((α → β) → γ) → γ
  | [], k => k f
  | a :: args, k => force (f a) fun b => memo (Function.update f a b) args k

@[simp] theorem memo_eq [DecidableEq α] [Strict β] (f : α → β) (args : List α)
    (k : (α → β) → γ) : memo f args k = k f := by
  induction args with
  | nil => rfl
  | cons a args ih => rw [memo, force_eq, Function.update_eq_self, ih]

end Strict

end Library
