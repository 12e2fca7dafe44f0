import Mathlib.Data.List.Induction
import Mathlib.Data.List.Pairwise
import Mathlib.Order.Defs.Unbundled

/-!
# Lists in order

A list that is sorted by a key is cut at a value of the key into the elements below it and the
others (`filter_lt_append_filter_le`).

`insertBefore` puts an element before the first one that passes a test.  Into a list that is
sorted by some order it puts the element in its place exactly if the test says of the first
element that it should pass what the order says (`pairwise_insertBefore`).
-/

namespace Library

variable {α : Type}

/-! ## Cuts -/

theorem filter_lt_append_filter_le {l : List α} {f : α → Nat} (n : Nat)
    (hsorted : l.Pairwise fun x y => f x ≤ f y) :
    l.filter (fun x => f x < n) ++ l.filter (fun x => n ≤ f x) = l := by
  induction l with
  | nil => rfl
  | cons x l ih =>
      obtain ⟨hfirst, hrest⟩ := List.pairwise_cons.mp hsorted
      rcases Nat.lt_or_ge (f x) n with hx | hx
      · rw [List.filter_cons_of_pos (by simpa using hx),
          List.filter_cons_of_neg (by simpa using hx), List.cons_append, ih hrest]
      · -- the rest is not below the first element
        have hnone : l.filter (fun x => f x < n) = [] := by
          rw [List.filter_eq_nil_iff]
          intro y hy
          have hle := hfirst y hy
          simp only [decide_eq_true_eq]
          omega
        rw [List.filter_cons_of_neg (by simpa using hx),
          List.filter_cons_of_pos (by simpa using hx), hnone, List.nil_append]
        congr 1
        have := ih hrest
        rwa [hnone, List.nil_append] at this

theorem filter_lt_succ {l : List α} {f : α → Nat} (n : Nat)
    (hsorted : l.Pairwise fun x y => f x ≤ f y) :
    l.filter (fun x => f x < n + 1) = l.filter (fun x => f x < n) ++ l.filter fun x => f x = n := by
  have hcut := filter_lt_append_filter_le n (hsorted.filter fun x => f x < n + 1)
  rw [List.filter_filter, List.filter_filter] at hcut
  rw [← hcut]
  congr 2 <;> funext x <;> rw [← Bool.decide_and] <;> exact decide_eq_decide.mpr (by omega)

theorem filter_le_eq {l : List α} {f : α → Nat} (n : Nat)
    (hsorted : l.Pairwise fun x y => f x ≤ f y) :
    l.filter (fun x => n ≤ f x) = l.filter (fun x => f x = n) ++ l.filter fun x => n + 1 ≤ f x := by
  have hcut := filter_lt_append_filter_le (n + 1) (hsorted.filter fun x => n ≤ f x)
  rw [List.filter_filter, List.filter_filter] at hcut
  rw [← hcut]
  congr 2 <;> funext x <;> rw [← Bool.decide_and] <;> exact decide_eq_decide.mpr (by omega)

/-! ## Insertion -/

/-- Put an element before the first one that passes a test. -/
def insertBefore (p : α → Bool) (x : α) : List α → List α
  | [] => [x]
  | y :: l => if p y then x :: y :: l else y :: insertBefore p x l

/-- The place of the new element: none before it passes the test, and the one after it does. -/
theorem exists_insertBefore (p : α → Bool) (x : α) (l : List α) : ∃ front back,
    l = front ++ back ∧ insertBefore p x l = front ++ x :: back ∧
    (∀ y ∈ front, p y = false) ∧ ∀ z rest, back = z :: rest → p z = true := by
  induction l with
  | nil => exact ⟨[], [], rfl, rfl, by simp, by simp⟩
  | cons y l ih =>
      cases hy : p y with
      | true =>
          refine ⟨[], y :: l, rfl, by simp [insertBefore, hy], by simp, ?_⟩
          rintro z rest ⟨⟩
          exact hy
      | false =>
          obtain ⟨front, back, hl, hinsert, hfront, hback⟩ := ih
          refine ⟨y :: front, back, by simp [hl], by simp [insertBefore, hy, hinsert], ?_, hback⟩
          simpa [hy] using hfront

theorem insertBefore_perm (p : α → Bool) (x : α) (l : List α) :
    (insertBefore p x l).Perm (x :: l) := by
  obtain ⟨front, back, rfl, hinsert, -⟩ := exists_insertBefore p x l
  rw [hinsert]
  exact List.perm_middle

/-- What is there keeps its order. -/
theorem sublist_insertBefore (p : α → Bool) (x : α) (l : List α) :
    l.Sublist (insertBefore p x l) := by
  obtain ⟨front, back, rfl, hinsert, -⟩ := exists_insertBefore p x l
  rw [hinsert]
  exact (List.Sublist.refl front).append (List.sublist_cons_self x back)

/-- The element is in its place if and only if the test passes only elements that belong after it,
and each element that does has one at or before it that passes the test. -/
theorem pairwise_insertBefore {R : α → α → Prop} [IsStrictOrder α R] {p : α → Bool} {x : α}
    {l : List α} (hl : l.Pairwise R) (htotal : ∀ y ∈ l, R x y ∨ R y x) :
    (insertBefore p x l).Pairwise R ↔
      (∀ y ∈ l, p y = true → R x y) ∧
      ∀ y ∈ l, R x y → ∃ z ∈ l, p z = true ∧ (z = y ∨ R z y) := by
  obtain ⟨front, back, rfl, hinsert, hfront, hback⟩ := exists_insertBefore p x l
  obtain ⟨hfronts, hbacks, hcross⟩ := List.pairwise_append.mp hl
  rw [hinsert, List.pairwise_append, List.pairwise_cons]
  constructor
  · rintro ⟨-, ⟨hafter, -⟩, hbefore⟩
    have hbefore (y : α) (hy : y ∈ front) : R y x := hbefore y hy x (List.mem_cons_self ..)
    refine ⟨?_, ?_⟩
    · intro y hy hpy
      rcases List.mem_append.mp hy with hy | hy
      · rw [hfront y hy] at hpy
        cases hpy
      · exact hafter y hy
    · intro y hy hxy
      rcases List.mem_append.mp hy with hy | hy
      · exact absurd (trans_of R hxy (hbefore y hy)) (irrefl_of R x)
      · cases back with
        | nil => cases hy
        | cons z rest =>
            refine ⟨z, List.mem_append_right _ (List.mem_cons_self ..), hback z rest rfl, ?_⟩
            rcases List.mem_cons.mp hy with rfl | hy
            · exact .inl rfl
            · exact .inr ((List.pairwise_cons.mp hbacks).1 y hy)
  · rintro ⟨hpass, hfirst⟩
    -- an element before the place is not to come after `x`: it would have one that passes before it
    have hbefore : ∀ y ∈ front, R y x := by
      intro y hy
      refine (htotal y (List.mem_append_left _ hy)).resolve_left fun hxy => ?_
      obtain ⟨z, hz, hpz, hzy⟩ := hfirst y (List.mem_append_left _ hy) hxy
      have hzback : z ∈ back := by
        refine (List.mem_append.mp hz).resolve_left fun hzfront => ?_
        rw [hfront z hzfront] at hpz
        cases hpz
      have hyz := hcross y hy z hzback
      rcases hzy with rfl | hzy
      · exact irrefl_of R z hyz
      · exact irrefl_of R y (trans_of R hyz hzy)
    have hafter : ∀ y ∈ back, R x y := by
      intro y hy
      cases back with
      | nil => cases hy
      | cons z rest =>
          have hxz := hpass z (List.mem_append_right _ (List.mem_cons_self ..)) (hback z rest rfl)
          rcases List.mem_cons.mp hy with rfl | hy
          · exact hxz
          · exact trans_of R hxz ((List.pairwise_cons.mp hbacks).1 y hy)
    refine ⟨hfronts, ⟨hafter, hbacks⟩, ?_⟩
    intro y hy z hz
    rcases List.mem_cons.mp hz with rfl | hz
    · exact hbefore y hy
    · exact hcross y hy z hz

/-! ## Insertion of a whole list -/

/-- Put the elements of a list in one after the other, each with its own test. -/
def insertAll (p : α → α → Bool) (l : List α) : List α :=
  l.foldl (fun queue x => insertBefore (p x) x queue) []

theorem insertAll_concat (p : α → α → Bool) (l : List α) (x : α) :
    insertAll p (l ++ [x]) = insertBefore (p x) x (insertAll p l) := by
  rw [insertAll, List.foldl_append]
  rfl

theorem insertAll_perm (p : α → α → Bool) (l : List α) : (insertAll p l).Perm l := by
  induction l using List.reverseRecOn with
  | nil => exact .nil
  | append_singleton l x ih =>
      rw [insertAll_concat]
      exact (insertBefore_perm _ _ _).trans
        ((ih.cons x).trans (List.perm_append_singleton x l).symm)

/-- The test of an element agrees with the order on the elements that are there before. -/
def Agrees (R : α → α → Prop) (p : α → α → Bool) (past : List α) (x : α) : Prop :=
  (∀ y ∈ past, p x y = true → R x y) ∧
    ∀ y ∈ past, R x y → ∃ z ∈ past, p x z = true ∧ (z = y ∨ R z y)

/-- The list comes out in order if and only if each test agrees with the order. -/
theorem pairwise_insertAll {R : α → α → Prop} [IsStrictOrder α R] {p : α → α → Bool} {l : List α}
    (htotal : l.Pairwise fun x y => R x y ∨ R y x) :
    (insertAll p l).Pairwise R ↔ ∀ past x future, l = past ++ x :: future → Agrees R p past x := by
  induction l using List.reverseRecOn with
  | nil => simp [insertAll]
  | append_singleton l x ih =>
      obtain ⟨hl, -, hx⟩ := List.pairwise_append.mp htotal
      have hmem (y : α) : y ∈ insertAll p l ↔ y ∈ l := (insertAll_perm p l).mem_iff
      have hlast : (insertAll p l).Pairwise R →
          ((insertBefore (p x) x (insertAll p l)).Pairwise R ↔ Agrees R p l x) := by
        intro hsorted
        have hxy : ∀ y ∈ insertAll p l, R x y ∨ R y x := by
          intro y hy
          exact (hx y ((hmem y).mp hy) x (List.mem_singleton_self x)).symm
        rw [pairwise_insertBefore hsorted hxy]
        simp only [hmem, Agrees]
      rw [insertAll_concat]
      constructor
      · intro hsorted past y future heq
        have hbefore := hsorted.sublist (sublist_insertBefore (p x) x (insertAll p l))
        rcases List.eq_nil_or_concat future with rfl | ⟨rest, z, rfl⟩
        · obtain ⟨rfl, hy⟩ := List.append_inj' heq rfl
          obtain rfl := List.singleton_inj.mp hy
          exact (hlast hbefore).mp hsorted
        · have hsplit : l = past ++ y :: rest := by
            have hends : l ++ [x] = (past ++ y :: rest) ++ [z] := by simpa using heq
            exact (List.append_inj' hends rfl).1
          exact (ih hl).mp hbefore past y rest hsplit
      · intro hagrees
        have hbefore : (insertAll p l).Pairwise R := by
          refine (ih hl).mpr fun past y future heq => ?_
          exact hagrees past y (future ++ [x]) (by simp [heq])
        exact (hlast hbefore).mpr (hagrees l x [] rfl)

end Library
