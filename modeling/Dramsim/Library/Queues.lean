import Dramsim.Library.Outcome
import Mathlib.Algebra.GroupWithZero.Nat
import Mathlib.Data.List.FinRange
import Mathlib.Data.List.Nodup
import Mathlib.Logic.Function.Basic

/-!
# Families of queues

Sums over a finite family, and the number of elements with some property in a family of queues.
`total_update` says what the change of one member does to a sum, and `countIn_push` and
`countIn_pop` what an element does that enters or leaves a queue.

The last section is about loops over a list that serve each member of a family at most once.
-/

namespace Library

variable {n : Nat} {α : Type}

/-! ## Sums -/

/-- The sum of a finite family. -/
def total (f : Fin n → Nat) : Nat := ((List.finRange n).map f).sum

theorem sum_map_update {f : Fin n → Nat} {i : Fin n} {v : Nat} :
    ∀ {l : List (Fin n)}, l.Nodup → i ∈ l →
      (l.map (Function.update f i v)).sum + f i = (l.map f).sum + v
  | [], _, hi => absurd hi List.not_mem_nil
  | j :: l, hl, hi => by
      obtain ⟨hj, hl⟩ := List.nodup_cons.mp hl
      rw [List.map_cons, List.sum_cons, List.map_cons, List.sum_cons]
      by_cases hij : i = j
      · subst hij
        have hne (k : Fin n) (hk : k ∈ l) : k ≠ i := fun he => hj (he ▸ hk)
        have hrest : l.map (Function.update f i v) = l.map f :=
          List.map_congr_left fun k hk => Function.update_of_ne (hne k hk) _ _
        rw [Function.update_self, hrest]
        omega
      · have hrest := sum_map_update (f := f) (v := v) hl ((List.mem_cons.mp hi).resolve_left hij)
        rw [Function.update_of_ne (Ne.symm hij)]
        omega

theorem total_update (f : Fin n → Nat) (i : Fin n) (v : Nat) :
    total (Function.update f i v) + f i = total f + v :=
  sum_map_update (List.nodup_finRange n) (List.mem_finRange i)

/-- The same for the sum of a function of the members. -/
theorem total_comp_update (g : α → Nat) (f : Fin n → α) (i : Fin n) (x : α) :
    total (fun j => g (Function.update f i x j)) + g (f i) = total (fun j => g (f j)) + g x := by
  have hfamily : (fun j => g (Function.update f i x j)) =
      Function.update (fun j => g (f j)) i (g x) := Function.comp_update g f i x
  rw [hfamily]
  exact total_update (fun j => g (f j)) i (g x)

@[simp] theorem total_zero : total (fun _ : Fin n => 0) = 0 := by
  rw [total, List.map_const', List.sum_replicate_nat, Nat.mul_zero]

/-- A sum with one member that is not zero. -/
theorem total_eq_single {f : Fin n → Nat} {i : Fin n} (h : ∀ j, j ≠ i → f j = 0) :
    total f = f i := by
  have hupdate := total_update f i 0
  have hzero : Function.update f i 0 = fun _ => 0 := by
    funext j
    by_cases hj : j = i
    · rw [hj, Function.update_self]
    · rw [Function.update_of_ne hj, h j hj]
  rw [hzero, total_zero] at hupdate
  omega

/-- Numbers that are at most one add up to how many they are if and only if all are one. -/
theorem sum_map_eq_length {β : Type} {f : β → Nat} {l : List β} (h : ∀ x ∈ l, f x ≤ 1) :
    (l.map f).sum = l.length ↔ ∀ x ∈ l, f x = 1 := by
  have hle : (l.map f).sum ≤ l.length ∧ ((l.map f).sum = l.length ↔ ∀ x ∈ l, f x = 1) := by
    induction l with
    | nil => simp
    | cons x l ih =>
        obtain ⟨hsum, hall⟩ := ih fun y hy => h y (List.mem_cons_of_mem x hy)
        have hx := h x (List.mem_cons_self ..)
        rw [List.map_cons, List.sum_cons, List.length_cons, List.forall_mem_cons, ← hall]
        omega
  exact hle.2

/-! ## Counting in queues -/

/-- The elements of all queues with a property. -/
def countIn (queues : Fin n → List α) (p : α → Bool) : Nat := total fun i => (queues i).countP p

@[simp] theorem countIn_nil (p : α → Bool) : countIn (fun _ : Fin n => ([] : List α)) p = 0 :=
  total_zero

theorem countIn_update (queues : Fin n → List α) (i : Fin n) (q : List α) (p : α → Bool) :
    countIn (Function.update queues i q) p + (queues i).countP p =
      countIn queues p + q.countP p :=
  total_comp_update (List.countP p) queues i q

/-- An element enters a queue at its end. -/
theorem countIn_push (queues : Fin n → List α) (i : Fin n) (x : α) (p : α → Bool) :
    countIn (Function.update queues i (queues i ++ [x])) p =
      countIn queues p + if p x then 1 else 0 := by
  have h := countIn_update queues i (queues i ++ [x]) p
  rw [List.countP_append, List.countP_singleton] at h
  omega

/-- The first element of a queue leaves it. -/
theorem countIn_pop {queues : Fin n → List α} {i : Fin n} {x : α} {rest : List α}
    (h : queues i = x :: rest) (p : α → Bool) :
    countIn queues p = countIn (Function.update queues i rest) p + if p x then 1 else 0 := by
  have hupdate := countIn_update queues i rest p
  rw [h, List.countP_cons] at hupdate
  omega

/-- The first element with a property leaves a list. -/
theorem countP_find {l : List α} {p : α → Bool} {x : α} (h : l.find? p = some x) (q : α → Bool) :
    l.countP q = (l.eraseP p).countP q + if q x then 1 else 0 := by
  obtain ⟨hx, before, after, hsplit, hbefore⟩ := List.find?_eq_some_iff_append.mp h
  have hnot : ∀ y ∈ before, ¬ p y = true := fun y hy => by simpa using hbefore y hy
  rw [hsplit, List.eraseP_append_right _ hnot, List.eraseP_cons_of_pos hx, List.countP_append,
    List.countP_append, List.countP_cons]
  omega

/-! ## The elements of all queues -/

section Elements

variable {queues : Nat → List α} {i m : Nat} {x : α}

/-- An element leaves a queue. -/
theorem flatMap_pop_perm (hi : i < m) {before after : List α}
    (h : queues i = before ++ x :: after) :
    ((List.range m).flatMap queues).Perm
      (x :: (List.range m).flatMap (Function.update queues i (before ++ after))) := by
  obtain ⟨lower, upper, hsplit⟩ := List.append_of_mem (List.mem_range.mpr hi)
  have hnodup : (lower ++ i :: upper).Nodup := hsplit ▸ List.nodup_range
  have hnot : i ∉ lower ++ upper := (List.nodup_cons.mp (List.nodup_middle.mp hnodup)).1
  have hothers : ∀ l : List Nat, i ∉ l →
      l.flatMap (Function.update queues i (before ++ after)) = l.flatMap queues := by
    intro l hl
    refine List.flatMap_congr fun j hj => ?_
    have hne : j ≠ i := fun he => hl (he ▸ hj)
    exact Function.update_of_ne hne _ _
  rw [hsplit, List.flatMap_append, List.flatMap_append, List.flatMap_cons, List.flatMap_cons,
    hothers lower fun hmem => hnot (List.mem_append_left _ hmem),
    hothers upper fun hmem => hnot (List.mem_append_right _ hmem), Function.update_self, h]
  simp only [List.append_assoc, List.cons_append]
  exact (List.perm_middle.append_left _).trans List.perm_middle

/-- An element enters a queue. -/
theorem flatMap_push_perm (hi : i < m) (queues : Nat → List α) (x : α) :
    ((List.range m).flatMap (Function.update queues i (queues i ++ [x]))).Perm
      (x :: (List.range m).flatMap queues) := by
  have hi' : Function.update queues i (queues i ++ [x]) i = queues i ++ x :: [] :=
    Function.update_self ..
  have h := flatMap_pop_perm hi hi'
  rw [List.append_nil, Function.update_idem, Function.update_eq_self] at h
  exact h

end Elements

/-! ## Loops -/

/-- A loop that cannot fail. -/
theorem foldl_invariant {β σ : Type} {f : σ → β → σ} (Inv : σ → Prop)
    (hstep : ∀ s b, Inv s → Inv (f s b)) : ∀ (l : List β) (s : σ), Inv s → Inv (l.foldl f s)
  | [], _, h => h
  | b :: l, s, h => foldl_invariant Inv hstep l (f s b) (hstep s b h)

/-- A loop that can. -/
theorem Ensures.foldlM {ε β σ : Type} {f : σ → β → Except ε σ} {E : ε → Prop} (Inv : σ → Prop)
    (hstep : ∀ s b, Inv s → Ensures (f s b) Inv E) :
    ∀ (l : List β) (s : σ), Inv s → Ensures (l.foldlM f s) Inv E
  | [], _, h => h
  | b :: l, s, h => by
      rw [List.foldlM_cons]
      exact Ensures.bind (hstep s b h) fun s' hs' => Ensures.foldlM Inv hstep l s' hs'

/-- A loop that serves members of a family which are all ready, each of them once. -/
theorem Ensures.foldlM_serve {ε β σ : Type} {f : σ → β → Except ε σ} {E : ε → Prop}
    (Inv : σ → Prop) (Ready : σ → β → Prop)
    (hstep : ∀ s b, Inv s → Ready s b →
      Ensures (f s b) (fun s' => Inv s' ∧ ∀ b', b' ≠ b → Ready s b' → Ready s' b') E) :
    ∀ (l : List β) (s : σ), l.Nodup → Inv s → (∀ b ∈ l, Ready s b) → Ensures (l.foldlM f s) Inv E
  | [], _, _, h, _ => h
  | b :: l, s, hl, h, hready => by
      obtain ⟨hb, hl⟩ := List.nodup_cons.mp hl
      obtain ⟨hfirst, hrest⟩ := List.forall_mem_cons.mp hready
      rw [List.foldlM_cons]
      refine Ensures.bind (hstep s b h hfirst) fun s' ⟨hs', hkept⟩ => ?_
      refine Ensures.foldlM_serve Inv Ready hstep l s' hl hs' fun b' hb' => ?_
      exact hkept b' (fun he => hb (he ▸ hb')) (hrest b' hb')

/-- A loop whose rounds each work on one member of a family does to each member what its own round
does. -/
theorem Ensures.foldlM_each {ε ι β σ : Type} {f : σ → ι → Except ε σ} (view : σ → ι → β)
    (R : β → β → Prop)
    (hself : ∀ s i, Ensures (f s i) (fun s' => R (view s i) (view s' i)) fun _ => True)
    (hother : ∀ s i j, j ≠ i → Ensures (f s i) (fun s' => view s' j = view s j) fun _ => True) :
    ∀ (l : List ι) (s : σ), l.Nodup → Ensures (l.foldlM f s)
      (fun s' => ∀ j, (j ∈ l → R (view s j) (view s' j)) ∧ (j ∉ l → view s' j = view s j))
      fun _ => True
  | [], _, _ => fun _ => ⟨fun hj => absurd hj List.not_mem_nil, fun _ => rfl⟩
  | i :: l, s, hl => by
      obtain ⟨hi, hl⟩ := List.nodup_cons.mp hl
      rw [List.foldlM_cons]
      refine Ensures.of_cases (fun s' hok => ?_) fun _ _ => trivial
      obtain ⟨s₁, hfirst, hrest⟩ := bind_eq_ok.mp hok
      have hother₁ (j : ι) (hj : j ≠ i) : view s₁ j = view s j := (hother s i j hj).of_ok hfirst
      have hrest := (Ensures.foldlM_each view R hself hother l s₁ hl).of_ok hrest
      intro j
      by_cases hji : j = i
      · subst hji
        have hself₁ := (hself s j).of_ok hfirst
        rw [← (hrest j).2 hi] at hself₁
        exact ⟨fun _ => hself₁, fun hj => absurd (List.mem_cons_self ..) hj⟩
      · rw [← hother₁ j hji]
        refine ⟨fun hj => (hrest j).1 ?_, fun hj => (hrest j).2 ?_⟩
        · exact (List.mem_cons.mp hj).resolve_left hji
        · exact fun hmem => hj (List.mem_cons_of_mem _ hmem)

end Library
