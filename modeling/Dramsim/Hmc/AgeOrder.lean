import Dramsim.Library.Ordered
import Dramsim.Model.Hmc
import Mathlib.Data.Fintype.EquivFin
import Mathlib.Data.List.FinRange
import Mathlib.Data.List.Nodup
import Mathlib.Data.Nat.ModEq

/-!
# The age queue

`BuildAgeQueue` puts the positions with a positive age into a queue, one after the other, starting
at another position in each cycle.  A position is put before the first one that is less than its
age: the age is compared with a position, not with the age at this position.

Each position with a positive age is in the queue once (`nodup_buildAgeQueue`,
`mem_buildAgeQueue`).  The queue is in order of the ages, and in turn where they are equal, if and
only if the positions happen to say what the ages say (`buildAgeQueue_ordered_iff`).
-/

namespace Dramsim

open Library

namespace HMCMemorySystem

/-! ## The positions of the queue -/

/-- A position is put before the first one that is less than its age. -/
theorem insertByAge_eq {n : Nat} (age : Int) (pos : Fin n) (queue : List (Fin n)) :
    insertByAge age pos queue = insertBefore (fun it : Fin n => (it : Int) < age) pos queue := by
  induction queue with
  | nil => rfl
  | cons it rest ih => simp only [insertByAge, insertBefore, ih, decide_eq_true_eq]

theorem rotated_injective {n : Nat} (logicClk : Nat) :
    Function.Injective (rotated logicClk : Fin n → Fin n) := by
  intro i j h
  have hmod : Nat.ModEq n (i + logicClk % n) (j + logicClk % n) := Fin.mk.inj h
  have hij : (i : Nat) % n = j % n := Nat.ModEq.add_right_cancel' _ hmod
  rw [Nat.mod_eq_of_lt i.isLt, Nat.mod_eq_of_lt j.isLt] at hij
  exact Fin.ext hij

theorem rotated_surjective {n : Nat} (logicClk : Nat) :
    Function.Surjective (rotated logicClk : Fin n → Fin n) :=
  Finite.injective_iff_surjective.mp (rotated_injective logicClk)

/-- The positions with a positive age, in the order in which they are put into the queue. -/
def waiting {n : Nat} (logicClk : Nat) (ageCounter : Fin n → Int) : List (Fin n) :=
  ((List.finRange n).map (rotated logicClk)).filter fun i => 0 < ageCounter i

theorem buildAgeQueue_eq {n : Nat} (logicClk : Nat) (ageCounter : Fin n → Int) :
    buildAgeQueue logicClk ageCounter =
      insertAll (fun pos it : Fin n => (it : Int) < ageCounter pos)
        (waiting logicClk ageCounter) := by
  rw [buildAgeQueue, insertAll, waiting, List.foldl_filter, List.foldl_map]
  simp only [insertByAge_eq, decide_eq_true_eq]

theorem mem_waiting {n : Nat} {logicClk : Nat} {ageCounter : Fin n → Int} {i : Fin n} :
    i ∈ waiting logicClk ageCounter ↔ 0 < ageCounter i := by
  obtain ⟨j, rfl⟩ := rotated_surjective logicClk i
  simp [waiting]

theorem nodup_waiting {n : Nat} (logicClk : Nat) (ageCounter : Fin n → Int) :
    (waiting logicClk ageCounter).Nodup :=
  ((List.nodup_finRange n).map (rotated_injective logicClk)).filter _

theorem nodup_buildAgeQueue {n : Nat} (logicClk : Nat) (ageCounter : Fin n → Int) :
    (buildAgeQueue logicClk ageCounter).Nodup := by
  rw [buildAgeQueue_eq, (insertAll_perm _ _).nodup_iff]
  exact nodup_waiting logicClk ageCounter

/-- The queue has the positions with a positive age. -/
theorem mem_buildAgeQueue {n : Nat} {logicClk : Nat} {ageCounter : Fin n → Int} {i : Fin n} :
    i ∈ buildAgeQueue logicClk ageCounter ↔ 0 < ageCounter i := by
  rw [buildAgeQueue_eq, (insertAll_perm _ _).mem_iff, mem_waiting]

/-! ## The order -/

variable {n : Nat} {logicClk : Nat} {ageCounter : Fin n → Int}

/-- When a position has its turn in a cycle. -/
def turn (logicClk : Nat) (i : Fin n) : Nat := (i + (n - logicClk % n)) % n

theorem turn_rotated (i : Fin n) : turn logicClk (rotated logicClk i) = i := by
  have hn : 0 < n := i.pos
  have hstart := Nat.mod_lt logicClk hn
  have hback : i + logicClk % n + (n - logicClk % n) = i + n := by omega
  simp only [turn, rotated, Nat.mod_add_mod, hback, Nat.add_mod_right, Nat.mod_eq_of_lt i.isLt]

theorem turn_injective : Function.Injective (turn logicClk : Fin n → Nat) := by
  intro i j h
  obtain ⟨i, rfl⟩ := rotated_surjective logicClk i
  obtain ⟨j, rfl⟩ := rotated_surjective logicClk j
  rw [turn_rotated, turn_rotated] at h
  rw [Fin.ext h]

/-- The order of service: by age, and in turn where the ages are equal. -/
def Older (logicClk : Nat) (ageCounter : Fin n → Int) (i j : Fin n) : Prop :=
  ageCounter j < ageCounter i ∨ ageCounter i = ageCounter j ∧ turn logicClk i < turn logicClk j

instance : IsStrictOrder (Fin n) (Older logicClk ageCounter) where
  irrefl i h := by
    unfold Older at h
    omega
  trans i j k h h' := by
    unfold Older at h h' ⊢
    omega

theorem older_total {i j : Fin n} (hne : i ≠ j) :
    Older logicClk ageCounter i j ∨ Older logicClk ageCounter j i := by
  have hturn : turn logicClk i ≠ turn logicClk j := turn_injective.ne hne
  unfold Older
  omega

/-- The positions come in turn. -/
theorem waiting_sorted (logicClk : Nat) (ageCounter : Fin n → Int) :
    (waiting logicClk ageCounter).Pairwise fun i j => turn logicClk i < turn logicClk j := by
  apply List.Pairwise.filter
  rw [List.pairwise_map]
  simp only [turn_rotated]
  exact List.pairwise_lt_finRange n

/-- Those that have been put into the queue before a position had their turn before it. -/
theorem mem_past {past future : List (Fin n)} {j : Fin n}
    (h : waiting logicClk ageCounter = past ++ j :: future) (i : Fin n) :
    i ∈ past ↔ 0 < ageCounter i ∧ turn logicClk i < turn logicClk j := by
  have hsorted := waiting_sorted logicClk ageCounter
  rw [h, List.pairwise_append, List.pairwise_cons] at hsorted
  obtain ⟨-, ⟨hfuture, -⟩, hpast⟩ := hsorted
  constructor
  · intro hi
    have hmem : i ∈ waiting logicClk ageCounter := h ▸ List.mem_append_left _ hi
    exact ⟨mem_waiting.mp hmem, hpast i hi j (List.mem_cons_self ..)⟩
  · rintro ⟨hage, hturn⟩
    have hmem : i ∈ waiting logicClk ageCounter := mem_waiting.mpr hage
    rw [h, List.mem_append, List.mem_cons] at hmem
    rcases hmem with hi | rfl | hi
    · exact hi
    · exact absurd hturn (Nat.lt_irrefl _)
    · exact absurd hturn (hfuture i hi).asymm

/-- Whatever the ages are, each position with a positive age is in the queue once.  The queue is in
order if and only if the comparisons with positions agree with the ages: an age is above a position
that had its turn before only if it is above the age of this position, and then it is above a
position that comes no later in the order. -/
theorem buildAgeQueue_ordered_iff (logicClk : Nat) (ageCounter : Fin n → Int) :
    (buildAgeQueue logicClk ageCounter).Nodup ∧
    (∀ i, i ∈ buildAgeQueue logicClk ageCounter ↔ 0 < ageCounter i) ∧
    ((buildAgeQueue logicClk ageCounter).Pairwise (Older logicClk ageCounter) ↔
      ∀ i j, 0 < ageCounter i → 0 < ageCounter j → turn logicClk i < turn logicClk j →
        ((i : Int) < ageCounter j → ageCounter i < ageCounter j) ∧
        (ageCounter i < ageCounter j → ∃ k, 0 < ageCounter k ∧ turn logicClk k < turn logicClk j ∧
          (k : Int) < ageCounter j ∧ (k = i ∨ Older logicClk ageCounter k i))) := by
  refine ⟨nodup_buildAgeQueue logicClk ageCounter, fun i => mem_buildAgeQueue, ?_⟩
  have htotal : (waiting logicClk ageCounter).Pairwise fun i j =>
      Older logicClk ageCounter i j ∨ Older logicClk ageCounter j i :=
    (nodup_waiting logicClk ageCounter).imp older_total
  -- among those that had their turn before `j`, it belongs before the younger ones
  have hyounger {i j : Fin n} (hturn : turn logicClk i < turn logicClk j) :
      Older logicClk ageCounter j i ↔ ageCounter i < ageCounter j := by
    unfold Older
    omega
  rw [buildAgeQueue_eq, pairwise_insertAll htotal]
  constructor
  · intro hagrees i j hi hj hturn
    obtain ⟨past, future, hsplit⟩ := List.append_of_mem (mem_waiting.mpr hj)
    obtain ⟨hpass, hfirst⟩ := hagrees past j future hsplit
    have hmem := (mem_past hsplit i).mpr ⟨hi, hturn⟩
    refine ⟨?_, ?_⟩
    · intro hlt
      exact (hyounger hturn).mp (hpass i hmem (decide_eq_true hlt))
    · intro hage
      obtain ⟨k, hk, hlt, hki⟩ := hfirst i hmem ((hyounger hturn).mpr hage)
      obtain ⟨hkage, hkturn⟩ := (mem_past hsplit k).mp hk
      exact ⟨k, hkage, hkturn, of_decide_eq_true hlt, hki⟩
  · intro hages past j future hsplit
    have hmem : j ∈ waiting logicClk ageCounter :=
      hsplit ▸ List.mem_append_right _ (List.mem_cons_self ..)
    have hj := mem_waiting.mp hmem
    refine ⟨?_, ?_⟩
    · intro i hmem hlt
      obtain ⟨hi, hturn⟩ := (mem_past hsplit i).mp hmem
      exact (hyounger hturn).mpr ((hages i j hi hj hturn).1 (of_decide_eq_true hlt))
    · intro i hmem hold
      obtain ⟨hi, hturn⟩ := (mem_past hsplit i).mp hmem
      obtain ⟨k, hkage, hkturn, hlt, hki⟩ := (hages i j hi hj hturn).2 ((hyounger hturn).mp hold)
      exact ⟨k, (mem_past hsplit k).mpr ⟨hkage, hkturn⟩, decide_eq_true hlt, hki⟩

/-- Two positions of the same age in the first cycle: the second one is put before the first. -/
theorem buildAgeQueue_same_age :
    buildAgeQueue 0 (fun _ : Fin 2 => 1) = [1, 0] ∧
    ¬ (buildAgeQueue 0 (fun _ : Fin 2 => 1)).Pairwise (Older 0 fun _ => 1) := by
  have hqueue : buildAgeQueue 0 (fun _ : Fin 2 => 1) = [1, 0] := by decide
  refine ⟨hqueue, ?_⟩
  rw [hqueue]
  simp [Older, turn]

end HMCMemorySystem

end Dramsim
