import Mathlib.Logic.Basic

/-!
# Transition systems and their runs

A system has an initial state and a labelled step relation.  A run is the list
of its labels, oldest first.  Invariants are proved of one step and hold along
every run, also of a system whose steps are restricted by a side condition, are
observed by a record of what they do or are tracked by a value that they update.
`replay` computes runs where steps can be computed.
-/

namespace Library

/-- A labelled transition system. -/
structure System (σ α : Type) where
  /-- The initial state. -/
  init : σ
  /-- The steps. -/
  step : σ → α → σ → Prop

namespace System

variable {σ α : Type} {S : System σ α}

/-- `S.Run labels s`: a run from the initial state with these labels ends in `s`. -/
inductive Run (S : System σ α) : List α → σ → Prop where
  | start : Run S [] S.init
  | step {labels : List α} {s s' : σ} {a : α} :
      Run S labels s → S.step s a s' → Run S (labels ++ [a]) s'

/-- The system whose steps also satisfy a condition on the state before the step
and its label. -/
def restrict (S : System σ α) (cond : σ → α → Prop) : System σ α where
  init := S.init
  step s a s' := S.step s a s' ∧ cond s a

/-- The same steps from another state. -/
def startingAt (S : System σ α) (s : σ) : System σ α := { S with init := s }

/-- The system next to a record of what its steps have done. -/
def observe {β : Type} (S : System σ α) (seen : σ → α → List β) : System (σ × List β) α where
  init := (S.init, [])
  step p a p' := S.step p.1 a p'.1 ∧ p'.2 = p.2 ++ seen p.1 a

/-- The system next to a value that each step updates. -/
def track {γ : Type} (S : System σ α) (start : γ) (update : σ → α → σ → γ → γ) :
    System (σ × γ) α where
  init := (S.init, start)
  step p a p' := S.step p.1 a p'.1 ∧ p'.2 = update p.1 a p'.1 p.2

/-- The invariant rule. -/
theorem Run.invariant {labels : List α} {s : σ} (h : S.Run labels s) (Inv : σ → Prop)
    (hinit : Inv S.init) (hstep : ∀ s a s', Inv s → S.step s a s' → Inv s') : Inv s := by
  induction h with
  | start => exact hinit
  | step _ hs ih => exact hstep _ _ _ ih hs

/-- A run of a restricted system is a run. -/
theorem Run.of_restrict {cond : σ → α → Prop} {labels : List α} {s : σ}
    (h : (S.restrict cond).Run labels s) : S.Run labels s := by
  induction h with
  | start => exact .start
  | step _ hs ih => exact .step ih hs.1

/-- Every run can be observed. -/
theorem Run.observe {β : Type} {labels : List α} {s : σ} (h : S.Run labels s)
    (seen : σ → α → List β) : ∃ record, (S.observe seen).Run labels (s, record) := by
  induction h with
  | start => exact ⟨[], .start⟩
  | step _ hs ih =>
      obtain ⟨record, hrun⟩ := ih
      exact ⟨_, hrun.step ⟨hs, rfl⟩⟩

/-- Everything in the record comes from a step of the run. -/
theorem Run.of_mem_record {β : Type} {seen : σ → α → List β} {labels : List α} {p : σ × List β}
    (h : (S.observe seen).Run labels p) : (S.Run labels p.1) ∧
      ∀ b ∈ p.2, ∃ labels s a s', S.Run labels s ∧ S.step s a s' ∧ b ∈ seen s a := by
  induction h with
  | start => exact ⟨.start, fun b hb => absurd hb List.not_mem_nil⟩
  | @step labels p p' a _ hs ih =>
      obtain ⟨hrun, hrecord⟩ := ih
      refine ⟨hrun.step hs.1, fun b hb => ?_⟩
      rw [hs.2, List.mem_append] at hb
      rcases hb with hb | hb
      · exact hrecord b hb
      · exact ⟨labels, p.1, a, p'.1, hrun, hs.1, hb⟩

/-- Every run can be tracked. -/
theorem Run.track {γ : Type} {labels : List α} {s : σ} (h : S.Run labels s) (start : γ)
    (update : σ → α → σ → γ → γ) : ∃ g, (S.track start update).Run labels (s, g) := by
  induction h with
  | start => exact ⟨start, .start⟩
  | @step _ s s' a _ hs ih =>
      obtain ⟨g, hrun⟩ := ih
      exact ⟨update s a s' g, hrun.step ⟨hs, rfl⟩⟩

/-- A run also meets every weaker condition. -/
theorem Run.weaken {cond cond' : σ → α → Prop} {labels : List α} {s : σ}
    (h : (S.restrict cond).Run labels s) (hcond : ∀ s a, cond s a → cond' s a) :
    (S.restrict cond').Run labels s := by
  induction h with
  | start => exact .start
  | step _ hs ih => exact .step ih ⟨hs.1, hcond _ _ hs.2⟩

/-- A run whose labels all meet a condition. -/
theorem Run.restrict_labels {cond : α → Prop} {labels : List α} {s : σ} (h : S.Run labels s)
    (hcond : ∀ a ∈ labels, cond a) : (S.restrict fun _ a => cond a).Run labels s := by
  induction h with
  | start => exact .start
  | step _ hs ih =>
      refine .step (ih fun a ha => hcond a (List.mem_append_left _ ha)) ⟨hs, hcond _ ?_⟩
      exact List.mem_append_right _ (List.mem_singleton_self _)

/-- Compute the steps of a tracked system. -/
def performTracked {γ : Type} (perform : σ → α → Option σ) (update : σ → α → σ → γ → γ)
    (p : σ × γ) (a : α) : Option (σ × γ) :=
  (perform p.1 a).map fun s' => (s', update p.1 a s' p.2)

/-- Run a list of labels by a function that computes steps. -/
def replay (perform : σ → α → Option σ) : List α → σ → Option σ
  | [], s => some s
  | a :: rest, s =>
      match perform s a with
      | some s' => replay perform rest s'
      | none => none

/-- What `replay` computes is a run. -/
theorem run_of_replay {perform : σ → α → Option σ} {cond : α → Prop}
    (hperform : ∀ s a s', cond a → perform s a = some s' → S.step s a s') :
    ∀ {rest labels : List α} {s s' : σ}, S.Run labels s → (∀ a ∈ rest, cond a) →
      replay perform rest s = some s' → S.Run (labels ++ rest) s'
  | [], labels, s, s', hrun, _, h => by
      cases h
      simpa using hrun
  | a :: rest, labels, s, s', hrun, hcond, h => by
      rw [replay] at h
      split at h
      · rename_i s₁ hstep
        have hrun₁ := hrun.step (hperform s a s₁ (hcond a (List.mem_cons_self ..)) hstep)
        simpa using run_of_replay hperform hrun₁
          (fun b hb => hcond b (List.mem_cons_of_mem _ hb)) h
      · cases h

/-- What is replayed with a tracked value is a run of the tracked system. -/
theorem run_of_replay_track {γ : Type} {perform : σ → α → Option σ} {start : γ}
    {update : σ → α → σ → γ → γ} (hperform : ∀ s a s', perform s a = some s' → S.step s a s')
    {labels : List α} {p : σ × γ}
    (h : replay (performTracked perform update) labels (S.init, start) = some p) :
    (S.track start update).Run labels p := by
  refine run_of_replay (fun p a p' (_ : True) hp => ?_) .start (fun _ _ => trivial) h
  obtain ⟨s', hs, rfl⟩ := Option.map_eq_some_iff.mp hp
  exact ⟨hperform _ _ _ hs, rfl⟩

/-- What is replayed with a record is a run of the observed system. -/
theorem run_of_replay_observe {β : Type} {perform : σ → α → Option σ} {seen : σ → α → List β}
    (hperform : ∀ s a s', perform s a = some s' → S.step s a s') {labels : List α}
    {p : σ × List β}
    (h : replay (performTracked perform fun s a _ record => record ++ seen s a) labels
      (S.init, []) = some p) : (S.observe seen).Run labels p :=
  run_of_replay_track hperform h

end System

end Library
