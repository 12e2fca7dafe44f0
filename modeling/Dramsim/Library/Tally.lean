import Mathlib.Data.List.DropRight
import Mathlib.Logic.Function.Basic

/-!
# Tallies

A tally counts, in a word of limited size, how often each of some events has happened.  It is
kept in two parts, one of which starts again from zero at every cut: `merge` adds this part to
the other one.  `tally` says what the parts hold, and `bump` and `merge` keep it.

The cuts are events too.  `before` and `since` are the events before and after the last of them.
-/

namespace Library

namespace Tally

variable {κ ε : Type} [DecidableEq ε] {size : Nat} {event : κ → ε}

/-- Count one more event. -/
def bump [DecidableEq κ] (size : Nat) (f : κ → Nat) (k : κ) : κ → Nat :=
  Function.update f k ((f k + 1) % size)

/-- Add two tallies. -/
def merge (size : Nat) (f g : κ → Nat) : κ → Nat := fun k => (f k + g k) % size

/-- How often the event of each key has happened. -/
def tally (size : Nat) (event : κ → ε) (events : List ε) : κ → Nat :=
  fun k => events.count (event k) % size

theorem tally_nil : tally size event [] = fun _ => 0 := by
  funext k
  simp [tally]

theorem bump_tally [DecidableEq κ] (hevent : Function.Injective event) (events : List ε) (k : κ) :
    bump size (tally size event events) k = tally size event (events ++ [event k]) := by
  funext k'
  by_cases hk : k' = k
  · subst hk
    simp [bump, tally, List.count_append]
  · have hne : event k ≠ event k' := fun h => hk (hevent h).symm
    simp [bump, tally, List.count_append, Function.update_of_ne hk, hne]

theorem tally_append_of_ne {e : ε} (hevent : ∀ k, event k ≠ e) (events : List ε) :
    tally size event (events ++ [e]) = tally size event events := by
  funext k
  simp [tally, List.count_append, (hevent k).symm]

theorem merge_tally (events events' : List ε) :
    merge size (tally size event events) (tally size event events') =
      tally size event (events ++ events') := by
  funext k
  simp [merge, tally, List.count_append]

/-! ## The last cut -/

section

variable (cut : ε)

/-- The events up to the last cut. -/
def before (events : List ε) : List ε := events.rdropWhile (· ≠ cut)

/-- The events after the last cut. -/
def since (events : List ε) : List ε := events.rtakeWhile (· ≠ cut)

theorem before_append_since (events : List ε) : before cut events ++ since cut events = events := by
  unfold before since List.rdropWhile List.rtakeWhile
  rw [← List.reverse_append, List.takeWhile_append_dropWhile, List.reverse_reverse]

/-- An event is counted in full after the last cut if it has not happened before. -/
theorem count_since (e : ε) (events : List ε) :
    (since cut events).count e = events.count e ↔ e ∉ before cut events := by
  have hparts := congrArg (List.count e) (before_append_since cut events)
  rw [List.count_append] at hparts
  rw [← List.count_eq_zero]
  omega

theorem count_since_le (e : ε) (events : List ε) :
    (since cut events).count e ≤ events.count e :=
  (List.rtakeWhile_suffix _ _).sublist.count_le e

theorem before_cut (events : List ε) : before cut (events ++ [cut]) = events ++ [cut] :=
  List.rdropWhile_concat_neg _ _ _ (by simp)

theorem since_cut (events : List ε) : since cut (events ++ [cut]) = [] :=
  List.rtakeWhile_concat_neg _ _ _ (by simp)

variable {cut} {e : ε} (he : e ≠ cut)

include he

theorem before_append (events : List ε) : before cut (events ++ [e]) = before cut events :=
  List.rdropWhile_concat_pos _ _ _ (by simpa using he)

theorem since_append (events : List ε) : since cut (events ++ [e]) = since cut events ++ [e] :=
  List.rtakeWhile_concat_pos _ _ _ (by simpa using he)

end

end Tally

end Library
