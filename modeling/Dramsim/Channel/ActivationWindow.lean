import Dramsim.Channel.Runs

/-!
# The activation windows

The lists `four_aw_` and `thirty_two_aw_` of a rank are sliding windows over the
activates of that rank.  With a non-negative span they are exact: the test of
`isFAWReady` succeeds when fewer than four activates are still in the window, and
no span of `tFAW` cycles ever holds more than four.

A negative span wraps below zero and its entries never expire
(`four_activate_window_fails_negative`).
-/

namespace Dramsim

variable {config : Config} {gap rank : Int} {activates : List (Int × Nat)} {now size : Nat}
  {windows : Int → List Nat} {a : Int × Nat} {t : ActivationTrace}

open Library (System)

/-! ## Sequences of activates -/

/-- A channel with the activates issued so far, as ranks and clocks. -/
structure ActivationTrace where
  channel : ChannelState
  activates : List (Int × Nat)

/-- Activates at non-decreasing clocks, each when `activationWindowOk` holds. -/
def activationSystem (config : Config) : System ActivationTrace (Int × Nat) where
  init := ⟨{}, []⟩
  step t a t' :=
    (∀ e ∈ t.activates, e.2 ≤ a.2) ∧ t.channel.activationWindowOk config a.1 a.2 = true ∧
      t' = ⟨t.channel.updateActivationTimes config a.1 a.2, t.activates ++ [a]⟩

/-- The clocks of the activates of a rank. -/
def activatesOf (activates : List (Int × Nat)) (rank : Int) : List Nat :=
  (activates.filter fun e => e.1 = rank).map Prod.snd

theorem activatesOf_append (activates : List (Int × Nat)) (a : Int × Nat) (rank : Int) :
    activatesOf (activates ++ [a]) rank =
      if a.1 = rank then activatesOf activates rank ++ [a.2] else activatesOf activates rank := by
  by_cases h : a.1 = rank <;> simp [activatesOf, h]

theorem le_of_mem_activatesOf {t : Nat} (h : ∀ e ∈ activates, e.2 ≤ now)
    (ht : t ∈ activatesOf activates rank) : t ≤ now := by
  obtain ⟨e, he, rfl⟩ := List.mem_map.mp ht
  exact h e (List.mem_filter.mp he).1

/-- Counting over all activates is counting over those of the rank. -/
theorem countP_activatesOf (activates : List (Int × Nat)) (rank : Int) (p : Nat → Prop)
    [DecidablePred p] :
    activates.countP (fun e => e.1 = rank ∧ p e.2) =
      (activatesOf activates rank).countP fun t => p t := by
  rw [activatesOf, List.countP_map, List.countP_filter]
  congr 1
  funext e
  simp [and_comm]

/-! ## Both windows track the activates -/

theorem addClk_monotone (hgap : 0 ≤ gap) : Monotone fun t => addClk t gap := by
  intro t t' hle
  have ht : (addClk t gap : Int) = t + gap := addClk_of_nonneg (by omega)
  have ht' : (addClk t' gap : Int) = t' + gap := addClk_of_nonneg (by omega)
  simp only
  omega

theorem lt_addClk_iff (hgap : 0 ≤ gap) (now t : Nat) :
    now < addClk t gap ↔ (now : Int) < t + gap := by
  have ht : (addClk t gap : Int) = t + gap := addClk_of_nonneg (by omega)
  omega

/-- One window of every rank tracks the activates. -/
def TracksActivates (gap : Int) (size : Nat) (windows : Int → List Nat)
    (activates : List (Int × Nat)) : Prop :=
  ∀ rank, Library.Window.Tracks (fun t => addClk t gap) size (activatesOf activates rank)
    (windows rank)

theorem TracksActivates.push (hgap : 0 ≤ gap) (hsize : 0 < size)
    (h : TracksActivates gap size windows activates) (hle : ∀ e ∈ activates, e.2 ≤ a.2)
    (hready : Library.Window.ready size (windows a.1) a.2 = true) :
    TracksActivates gap size
      (Function.update windows a.1
        (Library.Window.push (windows a.1) a.2 (addClk a.2 gap))) (activates ++ [a]) := by
  intro rank
  rw [activatesOf_append]
  by_cases hrank : a.1 = rank
  · subst hrank
    rw [if_pos rfl, Function.update_self]
    exact (h a.1).push (addClk_monotone hgap) hsize
      (fun t ht => le_of_mem_activatesOf hle ht) hready
  · rw [if_neg hrank, Function.update_of_ne (Ne.symm hrank)]
    exact h rank

/-- What tracking says of the test and of the density of activates. -/
theorem TracksActivates.exact (hgap : 0 ≤ gap) (hsize : 0 < size)
    (h : TracksActivates gap size windows activates) (rank : Int) :
    (∀ now, (∀ e ∈ activates, e.2 ≤ now) →
      (Library.Window.ready size (windows rank) now = true ↔
        activates.countP (fun e => e.1 = rank ∧ (now : Int) < e.2 + gap) < size)) ∧
    ∀ start : Nat,
      activates.countP (fun e => e.1 = rank ∧ start ≤ e.2 ∧ (e.2 : Int) < start + gap) ≤ size := by
  constructor
  · intro now hnow
    rw [(h rank).ready_iff (addClk_monotone hgap) hsize
      (fun t ht => le_of_mem_activatesOf hnow ht), Library.Window.active,
      countP_activatesOf activates rank (fun t => (now : Int) < t + gap)]
    simp only [lt_addClk_iff hgap]
  · intro start
    have hsparse := (h rank).sparse start
    rw [countP_activatesOf activates rank (fun t => start ≤ t ∧ (t : Int) < start + gap)]
    simpa only [Library.Window.within, lt_addClk_iff hgap] using hsparse

/-- Both windows of a channel track the activates, the longer one for GDDR. -/
structure WindowInvariant (config : Config) (t : ActivationTrace) : Prop where
  four : 0 ≤ config.tFAW → TracksActivates config.tFAW 4 t.channel.fourAw t.activates
  thirtyTwo : config.isGDDR = true → 0 ≤ config.t32AW →
    TracksActivates config.t32AW 32 t.channel.thirtyTwoAw t.activates

theorem ChannelState.activationWindowOk_iff {s : ChannelState} :
    s.activationWindowOk config rank now = true ↔
      s.isFAWReady rank now = true ∧ (config.isGDDR = true → s.is32AWReady rank now = true) := by
  unfold activationWindowOk
  cases config.isGDDR with
  | false => simp
  | true => cases s.isFAWReady rank now <;> simp

theorem WindowInvariant.step {t' : ActivationTrace} (hinv : WindowInvariant config t)
    (h : (activationSystem config).step t a t') : WindowInvariant config t' := by
  obtain ⟨hle, hok, rfl⟩ := h
  obtain ⟨hfour, hthirty⟩ := ChannelState.activationWindowOk_iff.mp hok
  constructor
  · intro hgap
    have hpush := (hinv.four hgap).push hgap (by decide) hle hfour
    unfold ChannelState.updateActivationTimes
    split <;> exact hpush
  · intro hgddr hgap
    have hpush := (hinv.thirtyTwo hgddr hgap).push hgap (by decide) hle (hthirty hgddr)
    unfold ChannelState.updateActivationTimes
    rw [if_pos hgddr]
    exact hpush

theorem windowInvariant_of_run {actions : List (Int × Nat)}
    (h : (activationSystem config).Run actions t) : WindowInvariant config t :=
  h.invariant (WindowInvariant config) ⟨fun _ _ => .nil _ _, fun _ _ _ => .nil _ _⟩
    (fun _ _ _ hinv hstep => hinv.step hstep)

/-- The four-activate window is exact, and for GDDR the thirty-two-activate window
is. -/
theorem four_activate_window_exact (config : Config) {t : ActivationTrace}
    {actions : List (Int × Nat)} (h : (activationSystem config).Run actions t) (rank : Int) :
    (0 ≤ config.tFAW →
      (∀ now, (∀ e ∈ t.activates, e.2 ≤ now) →
        (t.channel.isFAWReady rank now = true ↔
          t.activates.countP (fun e => e.1 = rank ∧ (now : Int) < e.2 + config.tFAW) < 4)) ∧
      ∀ start : Nat, t.activates.countP
        (fun e => e.1 = rank ∧ start ≤ e.2 ∧ (e.2 : Int) < start + config.tFAW) ≤ 4) ∧
    (config.isGDDR = true → 0 ≤ config.t32AW →
      (∀ now, (∀ e ∈ t.activates, e.2 ≤ now) →
        (t.channel.is32AWReady rank now = true ↔
          t.activates.countP (fun e => e.1 = rank ∧ (now : Int) < e.2 + config.t32AW) < 32)) ∧
      ∀ start : Nat, t.activates.countP
        (fun e => e.1 = rank ∧ start ≤ e.2 ∧ (e.2 : Int) < start + config.t32AW) ≤ 32) := by
  have hinv := windowInvariant_of_run h
  exact ⟨fun hgap => (hinv.four hgap).exact hgap (by decide) rank,
    fun hgddr hgap => (hinv.thirtyTwo hgddr hgap).exact hgap (by decide) rank⟩

/-- Two activates in one cycle of a GDDR5 rank. -/
theorem four_activate_window_exact_gddr5 :
    ∃ t : ActivationTrace,
      (activationSystem { Config.defaults with protocol := .gddr5 }).Run [(0, 3), (0, 3)] t ∧
      (t.channel.is32AWReady 0 3 = true ↔
        t.activates.countP (fun e => e.1 = 0 ∧ ((3 : Nat) : Int) < e.2 + 330) < 32) ∧
      t.activates.countP
        (fun e => e.1 = 0 ∧ 3 ≤ e.2 ∧ (e.2 : Int) < ((3 : Nat) : Int) + 50) ≤ 4 := by
  have hrun := System.Run.step
    (System.Run.step (S := activationSystem { Config.defaults with protocol := .gddr5 })
      (a := ((0 : Int), 3)) .start ⟨by decide, by decide, rfl⟩)
    (a := ((0 : Int), 3)) ⟨by decide, by decide, rfl⟩
  obtain ⟨hfour, hthirty⟩ := four_activate_window_exact _ hrun 0
  exact ⟨_, hrun, (hthirty (by decide) (by decide)).1 3 (by decide), (hfour (by decide)).2 3⟩

/-- With `tFAW = -1` four activates at clock 0 block the rank, although none of
them is in a window of negative length. -/
theorem four_activate_window_fails_negative :
    ¬ ∀ (t : ActivationTrace) (actions : List (Int × Nat)),
      (activationSystem { Config.defaults with tFAW := -1 }).Run actions t →
      ∀ (rank : Int) (now : Nat), (∀ e ∈ t.activates, e.2 ≤ now) →
        (t.channel.isFAWReady rank now = true ↔
          t.activates.countP (fun e => e.1 = rank ∧ (now : Int) < e.2 + (-1)) < 4) := by
  intro hexact
  have hrun := System.Run.step (System.Run.step (System.Run.step (System.Run.step
    (S := activationSystem { Config.defaults with tFAW := -1 })
    (a := ((0 : Int), 0)) .start ⟨by decide, by decide, rfl⟩)
    (a := ((0 : Int), 0)) ⟨by decide, by decide, rfl⟩)
    (a := ((0 : Int), 0)) ⟨by decide, by decide, rfl⟩)
    (a := ((0 : Int), 0)) ⟨by decide, by decide, rfl⟩
  have hready := (hexact _ _ hrun 0 0 (by decide)).mpr (by decide)
  revert hready
  decide

end Dramsim
