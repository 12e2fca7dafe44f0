import Dramsim.Library.Except
import Mathlib.Logic.Relation

/-!
# Outcomes of computations that can fail

`Ensures x Q E` states what holds of the result of a computation and what of its
error.  `Leads step fails s x` is the case of a computation that works on a state
by small steps: its result is reached from `s` by steps, and an error arises in a
state reached by steps.  Facts about all steps then carry over to the whole
computation, whichever way it ends.
-/

namespace Library

universe u

variable {ε : Type u} {α β σ : Type}

/-- The result satisfies `Q`, the error `E`. -/
def Ensures (x : Except ε α) (Q : α → Prop) (E : ε → Prop) : Prop :=
  match x with
  | .ok a => Q a
  | .error e => E e

namespace Ensures

variable {x : Except ε α} {f : α → Except ε β} {P : α → Prop} {Q : β → Prop} {E : ε → Prop}

theorem of_ok {Q : α → Prop} {a : α} (h : Ensures x Q E) (hx : x = .ok a) : Q a := by
  rw [hx] at h
  exact h

theorem of_error {Q : α → Prop} {e : ε} (h : Ensures x Q E) (hx : x = .error e) : E e := by
  rw [hx] at h
  exact h

theorem bind (hx : Ensures x P E) (hf : ∀ a, P a → Ensures (f a) Q E) :
    Ensures (x >>= f) Q E := by
  cases x with
  | ok a => exact hf a hx
  | error e => exact hx

/-- What follows may use what is ensured before it. -/
theorem bind_congr {g : α → Except ε β} (hx : Ensures x P E) (hfg : ∀ a, P a → f a = g a) :
    (x >>= f) = (x >>= g) := by
  cases x with
  | ok a => exact hfg a hx
  | error e => rfl

theorem mono {Q' : α → Prop} {Q : α → Prop} {E' : ε → Prop} (h : Ensures x Q E)
    (hQ : ∀ a, Q a → Q' a) (hE : ∀ e, E e → E' e) : Ensures x Q' E' := by
  cases x with
  | ok a => exact hQ a h
  | error e => exact hE e h

/-- A computation satisfies what is shown of each of its two ends. -/
theorem of_cases {Q : α → Prop} (hok : ∀ a, x = .ok a → Q a) (herr : ∀ e, x = .error e → E e) :
    Ensures x Q E := by
  cases x with
  | ok a => exact hok a rfl
  | error e => exact herr e rfl

/-- A computation on every element of a list. -/
theorem mapM {f : α → Except ε β} :
    ∀ {l : List α}, (∀ a ∈ l, Ensures (f a) Q E) →
      Ensures (l.mapM f) (fun l' => ∀ b ∈ l', Q b) E
  | [], _ => by
      rw [List.mapM_nil]
      exact List.forall_mem_nil _
  | a :: l, h => by
      obtain ⟨ha, hl⟩ := List.forall_mem_cons.mp h
      rw [List.mapM_cons]
      refine bind ha fun b hb => bind (mapM hl) fun l' hl' => ?_
      exact List.forall_mem_cons.mpr ⟨hb, hl'⟩

end Ensures

variable {step : σ → σ → Prop} {fails : σ → ε → Prop}

/-- An error that arises after some steps from `s`. -/
def FailsFrom (step : σ → σ → Prop) (fails : σ → ε → Prop) (s : σ) (e : ε) : Prop :=
  ∃ s', Relation.ReflTransGen step s s' ∧ fails s' e

/-- The computation proceeds from `s` by steps. -/
def Leads (step : σ → σ → Prop) (fails : σ → ε → Prop) (s : σ) (x : Except ε σ) : Prop :=
  Ensures x (Relation.ReflTransGen step s) (FailsFrom step fails s)

theorem FailsFrom.head {s s' : σ} {e : ε} (hs : Relation.ReflTransGen step s s')
    (h : FailsFrom step fails s' e) : FailsFrom step fails s e := by
  obtain ⟨s₁, hs₁, he⟩ := h
  exact ⟨s₁, hs.trans hs₁, he⟩

theorem Leads.refl (s : σ) : Leads step fails s (.ok s) := Relation.ReflTransGen.refl

/-- Steps before a computation. -/
theorem Leads.head {s s' : σ} {x : Except ε σ} (hs : Relation.ReflTransGen step s s')
    (h : Leads step fails s' x) : Leads step fails s x :=
  h.mono (fun _ ha => hs.trans ha) (fun _ he => he.head hs)

theorem Leads.bind {s : σ} {x : Except ε σ} {f : σ → Except ε σ}
    (hx : Leads step fails s x) (hf : ∀ s', Leads step fails s' (f s')) :
    Leads step fails s (x >>= f) :=
  Ensures.bind hx (fun s' hs' => (hf s').head hs')

/-- What every step preserves holds where an error arises. -/
theorem FailsFrom.preserves {s : σ} {e : ε} (h : FailsFrom step fails s e) (Inv : σ → Prop)
    (hinv : Inv s) (hstep : ∀ s s', Inv s → step s s' → Inv s') : ∃ s', Inv s' ∧ fails s' e := by
  obtain ⟨s', hs, he⟩ := h
  refine ⟨s', ?_, he⟩
  clear he
  induction hs with
  | refl => exact hinv
  | tail _ hlast ih => exact hstep _ _ ih hlast

/-- What every step preserves, a computation preserves. -/
theorem Leads.preserves {s s' : σ} {x : Except ε σ} (h : Leads step fails s x)
    (hx : x = .ok s') (Inv : σ → Prop) (hinv : Inv s)
    (hstep : ∀ s s', Inv s → step s s' → Inv s') : Inv s' := by
  have hs := h.of_ok hx
  clear hx h
  induction hs with
  | refl => exact hinv
  | tail _ hlast ih => exact hstep _ _ ih hlast

end Library
