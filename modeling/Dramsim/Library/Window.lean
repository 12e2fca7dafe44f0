import Mathlib.Data.List.Sort
import Mathlib.Order.Monotone.Defs

/-!
# Sliding windows

At most `size` events may be active at a time.  An event at time `t` is active
until its expiry.  The window is a queue of expiries, oldest first, that drops at
most one expired entry when a new one arrives, so it may hold expired entries.

`Tracks.ready_iff` says that the test on the oldest entry is exact all the same,
and `Tracks.sparse` that the events are then never denser than the window allows.
-/

namespace Library

namespace Window

variable {τ : Type} [LinearOrder τ] {expiry : τ → τ} {size : Nat} {history window : List τ}
  {now : τ}

/-- A full window whose oldest entry has not expired blocks. -/
def ready (size : Nat) (window : List τ) (now : τ) : Bool :=
  match window with
  | [] => true
  | oldest :: _ => !(decide (now < oldest) && decide (size ≤ window.length))

/-- Drop the oldest entry if it has expired, then append the new one. -/
def push (window : List τ) (now new : τ) : List τ :=
  match window with
  | [] => [new]
  | oldest :: rest => if oldest ≤ now then rest ++ [new] else oldest :: rest ++ [new]

/-- The number of events still active at a time. -/
def active (expiry : τ → τ) (history : List τ) (now : τ) : Nat :=
  history.countP fun t => now < expiry t

/-- The number of events from a start up to its expiry. -/
def within (expiry : τ → τ) (history : List τ) (start : τ) : Nat :=
  history.countP fun t => start ≤ t ∧ t < expiry start

/-- The window holds the expiries of the latest events, and all others have
expired. -/
structure Tracks (expiry : τ → τ) (size : Nat) (history window : List τ) : Prop where
  sorted : history.Pairwise (· ≤ ·)
  suffix : ∃ gone, history.map expiry = gone ++ window ∧ ∀ g ∈ gone, ∃ t ∈ history, g ≤ t
  bounded : window.length ≤ size
  sparse : ∀ start, within expiry history start ≤ size

theorem Tracks.nil (expiry : τ → τ) (size : Nat) : Tracks expiry size [] [] where
  sorted := List.Pairwise.nil
  suffix := ⟨[], rfl, fun _ hg => absurd hg List.not_mem_nil⟩
  bounded := Nat.zero_le size
  sparse := fun _ => Nat.zero_le size

/-- The active events are those whose expiry is in the window and still to come. -/
theorem Tracks.active_eq (h : Tracks expiry size history window)
    (hnow : ∀ t ∈ history, t ≤ now) :
    active expiry history now = window.countP fun e => now < e := by
  obtain ⟨gone, hsplit, hgone⟩ := h.suffix
  have hnone : gone.countP (fun e => decide (now < e)) = 0 := by
    rw [List.countP_eq_zero]
    intro g hg
    obtain ⟨t, ht, hle⟩ := hgone g hg
    simpa using le_trans hle (hnow t ht)
  have hmap : active expiry history now =
      (history.map expiry).countP fun e => decide (now < e) := by
    rw [List.countP_map]
    rfl
  rw [hmap, hsplit, List.countP_append, hnone, Nat.zero_add]

/-- The expiries in the window are in order. -/
theorem Tracks.window_sorted (hmono : Monotone expiry) (h : Tracks expiry size history window) :
    window.Pairwise (· ≤ ·) := by
  obtain ⟨gone, hsplit, _⟩ := h.suffix
  have hmap : (history.map expiry).Pairwise (· ≤ ·) :=
    List.pairwise_map.mpr (h.sorted.imp fun hle => hmono hle)
  rw [hsplit] at hmap
  exact (List.pairwise_append.mp hmap).2.1

/-- The test is exact: it succeeds when fewer than `size` events are active. -/
theorem Tracks.ready_iff (hmono : Monotone expiry) (hsize : 0 < size)
    (h : Tracks expiry size history window) (hnow : ∀ t ∈ history, t ≤ now) :
    ready size window now = true ↔ active expiry history now < size := by
  rw [h.active_eq hnow]
  have hsorted := h.window_sorted hmono
  have hbounded := h.bounded
  cases window with
  | nil => simpa [ready] using hsize
  | cons oldest rest =>
      rcases lt_or_ge now oldest with hlt | hge
      · have hall : (oldest :: rest).countP (fun e => decide (now < e)) =
            (oldest :: rest).length := by
          rw [List.countP_eq_length]
          intro e he
          rcases List.mem_cons.mp he with rfl | hmem
          · simpa using hlt
          · simpa using lt_of_lt_of_le hlt (List.rel_of_pairwise_cons hsorted hmem)
        rw [hall]
        simp [ready, hlt]
      · have hrest : (oldest :: rest).countP (fun e => decide (now < e)) ≤ rest.length := by
          rw [List.countP_cons_of_neg (by simpa using hge)]
          exact List.countP_le_length
        rw [List.length_cons] at hbounded
        have hready : ready size (oldest :: rest) now = true := by
          simp [ready, not_lt.mpr hge]
        rw [hready]
        exact ⟨fun _ => by omega, fun _ => rfl⟩

/-- An event that may happen keeps the events sparse: those in one span with it
are all still active. -/
theorem Tracks.sparse_push (hmono : Monotone expiry) (h : Tracks expiry size history window)
    (hactive : active expiry history now < size) (start : τ) :
    within expiry (history ++ [now]) start ≤ size := by
  have hsplit : within expiry (history ++ [now]) start =
      within expiry history start + within expiry [now] start := List.countP_append
  by_cases hin : start ≤ now ∧ now < expiry start
  · have hle : within expiry history start ≤ active expiry history now := by
      refine List.countP_mono_left fun t _ ht => ?_
      simp only [decide_eq_true_eq] at ht ⊢
      exact lt_of_lt_of_le hin.2 (hmono ht.1)
    have hone : within expiry [now] start ≤ 1 := List.countP_le_length
    omega
  · have hzero : within expiry [now] start = 0 := by
      simp only [within, List.countP_singleton, decide_eq_true_eq, if_neg hin]
    have hold := h.sparse start
    omega

/-- The window keeps track of an event that the test admits. -/
theorem Tracks.push (hmono : Monotone expiry) (hsize : 0 < size)
    (h : Tracks expiry size history window) (hnow : ∀ t ∈ history, t ≤ now)
    (hready : ready size window now = true) :
    Tracks expiry size (history ++ [now]) (push window now (expiry now)) := by
  have hactive := (h.ready_iff hmono hsize hnow).mp hready
  have hsparse := h.sparse_push hmono hactive
  have hsorted : (history ++ [now]).Pairwise (· ≤ ·) := by
    rw [List.pairwise_append]
    refine ⟨h.sorted, List.pairwise_singleton _ _, fun t ht u hu => ?_⟩
    rw [List.mem_singleton.mp hu]
    exact hnow t ht
  obtain ⟨gone, hsplit, hgone⟩ := h.suffix
  have hgone' : ∀ g ∈ gone, ∃ t ∈ history ++ [now], g ≤ t := by
    intro g hg
    obtain ⟨t, ht, hle⟩ := hgone g hg
    exact ⟨t, List.mem_append_left _ ht, hle⟩
  have hmap : (history ++ [now]).map expiry = gone ++ window ++ [expiry now] := by
    rw [List.map_append, hsplit]
    rfl
  have hbounded := h.bounded
  cases window with
  | nil =>
      rw [List.append_nil] at hmap
      exact ⟨hsorted, ⟨gone, hmap, hgone'⟩, hsize, hsparse⟩
  | cons oldest rest =>
      rw [List.length_cons] at hbounded
      by_cases hold : oldest ≤ now
      · have hpush : Window.push (oldest :: rest) now (expiry now) = rest ++ [expiry now] :=
          if_pos hold
        rw [hpush]
        refine ⟨hsorted, ⟨gone ++ [oldest], by simpa using hmap, ?_⟩, by simpa using hbounded,
          hsparse⟩
        intro g hg
        rcases List.mem_append.mp hg with hg | hg
        · exact hgone' g hg
        · rw [List.mem_singleton.mp hg]
          exact ⟨now, by simp, hold⟩
      · have hpush : Window.push (oldest :: rest) now (expiry now) =
            oldest :: rest ++ [expiry now] := if_neg hold
        have hroom : (oldest :: rest).length < size := by
          simpa [ready, not_le.mp hold] using hready
        rw [hpush]
        refine ⟨hsorted, ⟨gone, by simpa using hmap, hgone'⟩, ?_, hsparse⟩
        rw [List.length_append]
        exact hroom

end Window

end Library
