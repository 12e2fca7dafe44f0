import Dramsim.Hmc.Phases

/-!
# Stalled packets and their age

The first packet of a queue is considered once in each drain.  If it stalls, the age counter of the
queue grows by one, and if it moves on, the counter starts again from one for the next packet.  But
a packet that arrives behind the first one sets the counter to one as well, whatever the first one
has waited.

`HeadAge` follows a queue from outside: how often its first packet has stalled, and how often it had
when a packet last arrived behind it.  In every run the age counter and what an arrival has taken
from it make up the stalls (`Tracks`), so the age is at least the number of stalls if and only if
no packet has arrived behind a stalled one (`stall_age_iff`).
-/

namespace Dramsim

open Library

/-! ## The first packet of a queue -/

/-- What has happened to the first packet of a queue since it is the first. -/
structure HeadAge where
  /-- How often it has stalled. -/
  stalls : Nat := 0
  /-- How often it had stalled when a packet last arrived behind it. -/
  lost : Nat := 0
deriving DecidableEq, Repr

namespace HeadAge

variable {α : Type}

/-- After a drain, with the queue before and after it: the first packet moved on, or stalled if
there is one. -/
def drained (h : HeadAge) (before after : List α) : HeadAge :=
  if after.length < before.length then {}
  else if before.isEmpty then h
  else { h with stalls := h.stalls + 1 }

/-- After packets may have arrived. -/
def arrived (h : HeadAge) (before after : List α) : HeadAge :=
  if before.length < after.length then { h with lost := h.stalls } else h

/-- The age counter of a queue, and what an arrival has taken from it, are the stalls of the first
packet. -/
structure Tracks (queue : List α) (age : Nat) (h : HeadAge) : Prop where
  empty : queue = [] → age = 0 ∧ h = {}
  stalled : queue ≠ [] → age + h.lost = h.stalls + 1
  lost_le : h.lost ≤ h.stalls

variable {queue rest : List α} {x : α} {age : Nat} {h : HeadAge}

namespace Tracks

theorem init : Tracks ([] : List α) 0 {} :=
  ⟨fun _ => ⟨rfl, rfl⟩, fun hne => absurd rfl hne, Nat.le_refl _⟩

/-- The queues that are considered are those with a packet. -/
theorem pos_iff (ht : Tracks queue age h) : 0 < age ↔ queue ≠ [] := by
  constructor
  · intro hpos hempty
    have hzero := (ht.empty hempty).1
    omega
  · intro hne
    have hage := ht.stalled hne
    have hlost := ht.lost_le
    omega

theorem pop (ht : Tracks (x :: rest) age h) :
    Tracks rest (if rest.isEmpty then 0 else 1) (h.drained (x :: rest) rest) := by
  have hfresh : h.drained (x :: rest) rest = {} := if_pos (Nat.lt_succ_self _)
  rw [hfresh]
  cases rest with
  | nil => exact init
  | cons y rest => exact ⟨nofun, fun _ => rfl, Nat.le_refl _⟩

theorem stall (ht : Tracks queue age h) (hne : queue ≠ []) :
    Tracks queue (age + 1) (h.drained queue queue) := by
  have hstall : h.drained queue queue = { h with stalls := h.stalls + 1 } := by
    simp [drained, hne]
  rw [hstall]
  refine ⟨fun hempty => absurd hempty hne, fun _ => ?_, ht.lost_le.trans (Nat.le_succ _)⟩
  have hage := ht.stalled hne
  change age + 1 + h.lost = h.stalls + 1 + 1
  omega

/-- A queue without a packet. -/
theorem idle (ht : Tracks queue age h) (hempty : queue = []) :
    Tracks queue age (h.drained queue queue) := by
  subst hempty
  exact ht

/-- Packets arrive. -/
theorem push (ht : Tracks queue age h) (l : List α) :
    Tracks (queue ++ l) (if l.isEmpty then age else 1) (h.arrived queue (queue ++ l)) := by
  cases l with
  | nil => simpa [arrived] using ht
  | cons y l =>
      have hlost : h.arrived queue (queue ++ y :: l) = { h with lost := h.stalls } := by
        simp [arrived]
      rw [hlost]
      refine ⟨fun hempty => ?_, fun _ => Nat.add_comm _ _, Nat.le_refl _⟩
      simp at hempty

/-- The age shows all stalls if and only if no arrival has taken any. -/
theorem age_iff (ht : Tracks queue age h) (hne : queue ≠ []) :
    age + h.lost = h.stalls + 1 ∧ (h.stalls + 1 ≤ age ↔ h.lost = 0) := by
  have hage := ht.stalled hne
  exact ⟨hage, by omega⟩

end Tracks

end HeadAge

/-! ## The queues of a cube -/

/-- What has happened to the first packets of the queues that have an age counter. -/
structure HeadAges (config : HMCConfig) where
  links : Fin config.numLinks → HeadAge := fun _ => {}
  quads : Fin 4 → HeadAge := fun _ => {}

namespace HMCMemorySystem

variable {config : HMCConfig} {σ : Type} {vault : Vault σ} {ctrls : Fin config.channels → σ}
  {s s' : HMCMemorySystem config σ} {todo todo' : List HMCPhase} {g g' : HeadAges config}

/-- The update by a step.  `DrainRequests` considers the links and `DrainResponses` the quads;
requests arrive at the links between two ticks and responses at the quads from the vaults. -/
def followHeads (p : HMCMemorySystem config σ × List HMCPhase) (a : HMCStep)
    (p' : HMCMemorySystem config σ × List HMCPhase) (g : HeadAges config) : HeadAges config :=
  match a with
  | .add _ _ =>
      { g with links := fun i => (g.links i).arrived (p.1.linkReqQueues i) (p'.1.linkReqQueues i) }
  | .phase .drainRequests =>
      { g with links := fun i => (g.links i).drained (p.1.linkReqQueues i) (p'.1.linkReqQueues i) }
  | .phase .drainResponses =>
      { g with quads := fun i =>
        (g.quads i).drained (p.1.quadRespQueues i) (p'.1.quadRespQueues i) }
  | .phase .dramClockTick =>
      { g with quads := fun i =>
        (g.quads i).arrived (p.1.quadRespQueues i) (p'.1.quadRespQueues i) }
  | .tick | .phase .advanceLogic | .phase .advanceDram => g

/-- The request queue of a link with its age counter. -/
def linkView (s : HMCMemorySystem config σ) (i : Fin config.numLinks) :
    List (HMCRequest config.channels) × Nat := (s.linkReqQueues i, s.linkAgeCounter i)

/-- The response queue of a quad with its age counter. -/
def quadView (s : HMCMemorySystem config σ) (i : Fin 4) :
    List (HMCResponse config.numLinks) × Nat := (s.quadRespQueues i, s.quadAgeCounter i)

/-- All age counters of a cube. -/
structure TracksHeads (s : HMCMemorySystem config σ) (g : HeadAges config) : Prop where
  links : ∀ i, HeadAge.Tracks (s.linkView i).1 (s.linkView i).2 (g.links i)
  quads : ∀ i, HeadAge.Tracks (s.quadView i).1 (s.quadView i).2 (g.quads i)

/-- The first packet of a queue moves on, or stalls. -/
def Considered {α : Type} (v v' : List α × Nat) : Prop :=
  (∃ x, v.1 = x :: v'.1 ∧ v'.2 = if v'.1.isEmpty then 0 else 1) ∨
    (v.1 ≠ [] ∧ v' = (v.1, v.2 + 1))

theorem Considered.tracks {α : Type} {v v' : List α × Nat} {h : HeadAge} (hv : Considered v v')
    (ht : HeadAge.Tracks v.1 v.2 h) : HeadAge.Tracks v'.1 v'.2 (h.drained v.1 v'.1) := by
  obtain ⟨queue, age⟩ := v
  obtain ⟨queue', age'⟩ := v'
  rcases hv with ⟨x, hqueue, hage⟩ | ⟨hne, heq⟩
  · dsimp only at hqueue hage ht ⊢
    rw [hage, hqueue]
    rw [hqueue] at ht
    exact ht.pop
  · cases heq
    exact ht.stall hne

/-! ## The phases -/

theorem considered_drainLink (s : HMCMemorySystem config σ) (i : Fin config.numLinks) :
    Ensures (s.drainLink i) (fun s' => Considered (s.linkView i) (s'.linkView i))
      fun _ => True := by
  unfold drainLink
  split
  · trivial
  · rename_i req rest hqueue
    split
    · exact .inl ⟨req, by simp [linkView, hqueue], by simp [linkView]⟩
    · exact .inr ⟨by simp [linkView, hqueue], by simp [linkView]⟩

theorem linkView_drainLink (s : HMCMemorySystem config σ) (i j : Fin config.numLinks) (hj : j ≠ i) :
    Ensures (s.drainLink i) (fun s' => s'.linkView j = s.linkView j) fun _ => True := by
  unfold drainLink
  split
  · trivial
  · split
    · simp [Ensures, linkView, Function.update_of_ne hj]
    · simp [Ensures, linkView, Function.update_of_ne hj]

theorem considered_drainQuadResponse (s : HMCMemorySystem config σ) (i : Fin 4) :
    Ensures (s.drainQuadResponse i) (fun s' => Considered (s.quadView i) (s'.quadView i))
      fun _ => True := by
  unfold drainQuadResponse
  split
  · trivial
  · rename_i resp rest hqueue
    split
    · exact .inl ⟨resp, by simp [quadView, hqueue], by simp [quadView]⟩
    · exact .inr ⟨by simp [quadView, hqueue], by simp [quadView]⟩

theorem quadView_drainQuadResponse (s : HMCMemorySystem config σ) (i j : Fin 4) (hj : j ≠ i) :
    Ensures (s.drainQuadResponse i) (fun s' => s'.quadView j = s.quadView j) fun _ => True := by
  unfold drainQuadResponse
  split
  · trivial
  · split
    · simp [Ensures, quadView, Function.update_of_ne hj]
    · simp [Ensures, quadView, Function.update_of_ne hj]

/-- The queues that are considered keep track of their first packets. -/
theorem tracks_of_considered {α : Type} {n : Nat} {v v' : Fin n → List α × Nat}
    {h : Fin n → HeadAge} {logicClk : Nat} (ht : ∀ i, HeadAge.Tracks (v i).1 (v i).2 (h i))
    (hv : ∀ i, (i ∈ buildAgeQueue logicClk (fun i => (v i).2) → Considered (v i) (v' i)) ∧
      (i ∉ buildAgeQueue logicClk (fun i => (v i).2) → v' i = v i)) (i : Fin n) :
    HeadAge.Tracks (v' i).1 (v' i).2 ((h i).drained (v i).1 (v' i).1) := by
  by_cases hmem : i ∈ buildAgeQueue logicClk fun i => (v i).2
  · exact ((hv i).1 hmem).tracks (ht i)
  · rw [(hv i).2 hmem]
    rw [mem_buildAgeQueue, Int.natCast_pos, (ht i).pos_iff, not_not] at hmem
    exact (ht i).idle hmem

theorem views_drainQuad (t : HMCMemorySystem config σ) (i : Fin 4)
    (h : t.linkView = s.linkView ∧ t.quadView = s.quadView) :
    (t.drainQuad vault i).linkView = s.linkView ∧ (t.drainQuad vault i).quadView = s.quadView := by
  obtain ⟨_, _, hframe⟩ := t.drainQuad_frame vault i
  rw [hframe]
  exact h

theorem quadView_drainLink (t : HMCMemorySystem config σ) (i : Fin config.numLinks)
    (h : t.quadView = s.quadView) :
    Ensures (t.drainLink i) (fun t' => t'.quadView = s.quadView) fun _ => True := by
  refine (t.drainLink_frame i).mono ?_ fun _ h => h
  rintro _ ⟨_, _, _, _, rfl⟩
  exact h

theorem views_answer (t : HMCMemorySystem config σ) (i : Fin config.numLinks)
    (h : t.linkView = s.linkView ∧ t.quadView = s.quadView) :
    (t.answer i).linkView = s.linkView ∧ (t.answer i).quadView = s.quadView := by
  obtain ⟨_, _, hframe⟩ := t.answer_frame i
  rw [hframe]
  exact h

theorem linkView_drainQuadResponse (t : HMCMemorySystem config σ) (i : Fin 4)
    (h : t.linkView = s.linkView) :
    Ensures (t.drainQuadResponse i) (fun t' => t'.linkView = s.linkView) fun _ => True := by
  refine (t.drainQuadResponse_frame i).mono ?_ fun _ h => h
  rintro _ ⟨_, _, _, _, rfl⟩
  exact h

/-- What `DrainRequests` does before it comes to the links. -/
theorem drainRequests_eq (vault : Vault σ) (s : HMCMemorySystem config σ) : ∃ t,
    t.linkView = s.linkView ∧ t.quadView = s.quadView ∧
    s.drainRequests vault =
      (buildAgeQueue t.logicClk fun i => (t.linkView i).2).foldlM drainLink t := by
  let t := (List.finRange 4).foldl (drainQuad vault) s
  have hviews : t.linkView = s.linkView ∧ t.quadView = s.quadView :=
    foldl_invariant (fun t => t.linkView = s.linkView ∧ t.quadView = s.quadView) views_drainQuad _ s
      ⟨rfl, rfl⟩
  exact ⟨{ t with quadBusy := drainXbar t.quadBusy }, hviews.1, hviews.2, rfl⟩

/-- What `DrainResponses` does before it comes to the quads. -/
theorem drainResponses_eq (s : HMCMemorySystem config σ) : ∃ t,
    t.linkView = s.linkView ∧ t.quadView = s.quadView ∧
    s.drainResponses =
      (buildAgeQueue t.logicClk fun i => (t.quadView i).2).foldlM drainQuadResponse t := by
  let t := (List.finRange config.numLinks).foldl answer s
  have hviews : t.linkView = s.linkView ∧ t.quadView = s.quadView :=
    foldl_invariant (fun t => t.linkView = s.linkView ∧ t.quadView = s.quadView) views_answer _ s
      ⟨rfl, rfl⟩
  exact ⟨{ t with linkBusy := drainXbar t.linkBusy }, hviews.1, hviews.2, rfl⟩

/-- `DrainRequests` considers each link with a request once. -/
theorem TracksHeads.drainRequests (h : TracksHeads s g) (hok : s.drainRequests vault = .ok s') :
    TracksHeads s' (followHeads (s, todo) (.phase .drainRequests) (s', todo') g) := by
  obtain ⟨t, hlink, hquad, heq⟩ := drainRequests_eq vault s
  rw [heq] at hok
  have hlinks :=
    (Ensures.foldlM_each linkView Considered considered_drainLink linkView_drainLink _ t
    (nodup_buildAgeQueue _ _)).of_ok hok
  have hquads : s'.quadView = s.quadView :=
    (Ensures.foldlM _ quadView_drainLink _ t hquad).of_ok hok
  rw [hlink] at hlinks
  refine ⟨tracks_of_considered h.links hlinks, ?_⟩
  rw [hquads]
  exact h.quads

/-- `DrainResponses` considers each quad with a response once. -/
theorem TracksHeads.drainResponses (h : TracksHeads s g) (hok : s.drainResponses = .ok s') :
    TracksHeads s' (followHeads (s, todo) (.phase .drainResponses) (s', todo') g) := by
  obtain ⟨t, hlink, hquad, heq⟩ := drainResponses_eq s
  rw [heq] at hok
  have hquads := (Ensures.foldlM_each quadView Considered considered_drainQuadResponse
    quadView_drainQuadResponse _ t (nodup_buildAgeQueue _ _)).of_ok hok
  have hlinks : s'.linkView = s.linkView :=
    (Ensures.foldlM _ linkView_drainQuadResponse _ t hlink).of_ok hok
  rw [hquad] at hquads
  refine ⟨?_, tracks_of_considered h.quads hquads⟩
  rw [hlinks]
  exact h.links

/-- Packets have arrived at a queue. -/
def Grown {α : Type} (v v' : List α × Nat) : Prop :=
  ∃ l, v' = (v.1 ++ l, if l.isEmpty then v.2 else 1)

theorem Grown.refl {α : Type} (v : List α × Nat) : Grown v v := ⟨[], by simp⟩

theorem Grown.push {α : Type} {v v' : List α × Nat} (h : Grown v v') (x : α) :
    Grown v (v'.1 ++ [x], 1) := by
  obtain ⟨l, rfl⟩ := h
  exact ⟨l ++ [x], by simp⟩

theorem Grown.tracks {α : Type} {v v' : List α × Nat} {h : HeadAge} (hv : Grown v v')
    (ht : HeadAge.Tracks v.1 v.2 h) : HeadAge.Tracks v'.1 v'.2 (h.arrived v.1 v'.1) := by
  obtain ⟨l, rfl⟩ := hv
  exact ht.push l

/-- The links are left alone, and responses may arrive at the quads. -/
def Returned (s t : HMCMemorySystem config σ) : Prop :=
  t.linkView = s.linkView ∧ ∀ i, Grown (s.quadView i) (t.quadView i)

theorem returned_vaultCallback (t : HMCMemorySystem config σ) (reqId : Nat) (h : Returned s t) :
    Ensures (t.vaultCallback reqId) (Returned s) fun _ => True := by
  unfold vaultCallback
  split
  · trivial
  · rename_i resp _
    refine ⟨h.1, fun i => ?_⟩
    by_cases hi : i = resp.quad
    · subst hi
      have hpush := (h.2 resp.quad).push resp
      simpa [quadView] using hpush
    · simpa [quadView, Function.update_of_ne hi] using h.2 i

theorem returned_returnVault (t : HMCMemorySystem config σ) (i : Fin config.channels)
    (h : Returned s t) : Ensures (t.returnVault vault i) (Returned s) fun _ => True := by
  rw [returnVault_eq]
  exact Ensures.foldlM _ (fun t it ht => returned_vaultCallback t it.1 ht) _ _ h

theorem returned_tickVault (t : HMCMemorySystem config σ) (i : Fin config.channels)
    (h : Returned s t) : Ensures (t.tickVault vault i) (Returned s) fun _ => True := by
  refine Ensures.of_cases (fun t' hok => ?_) fun _ _ => trivial
  obtain ⟨ctrl, -, hok⟩ := bind_eq_ok.mp hok
  cases hok
  exact h

theorem returned_dramClockTick : Ensures (s.dramClockTick vault) (Returned s) fun _ => True := by
  have hself : Returned s s := ⟨rfl, fun i => .refl _⟩
  refine Ensures.bind (Ensures.foldlM _ returned_returnVault _ _ hself) fun s₁ h₁ => ?_
  exact Ensures.bind (Ensures.foldlM _ returned_tickVault _ _ h₁) fun s₂ h₂ => h₂

theorem TracksHeads.dramClockTick (h : TracksHeads s g) (hok : s.dramClockTick vault = .ok s') :
    TracksHeads s' (followHeads (s, todo) (.phase .dramClockTick) (s', todo') g) := by
  obtain ⟨hlinks, hquads⟩ := returned_dramClockTick.of_ok hok
  refine ⟨?_, fun i => (hquads i).tracks (h.quads i)⟩
  rw [hlinks]
  exact h.links

theorem Entered.quadView {req : HMCRequest config.channels} (h : s.Entered req s') :
    s'.quadView = s.quadView := by
  obtain ⟨link, resp, -, -, hs⟩ := h
  rw [hs]
  rfl

theorem Entered.linkView {req : HMCRequest config.channels} (h : s.Entered req s')
    (i : Fin config.numLinks) : Grown (s.linkView i) (s'.linkView i) := by
  obtain ⟨link, resp, -, -, hs⟩ := h
  rw [hs]
  by_cases hi : i = link
  · subst hi
    have hpush := (Grown.refl (s.linkView i)).push req
    simpa [HMCMemorySystem.linkView, pushed] using hpush
  · have hsame := Grown.refl (s.linkView i)
    simpa [HMCMemorySystem.linkView, pushed, Function.update_of_ne hi] using hsame

/-- A request arrives at a link, or all links are full. -/
theorem TracksHeads.add {hexAddr : Nat} {isWrite accepted : Bool} (h : TracksHeads s g)
    (hok : s.addTransaction hexAddr isWrite = .ok (accepted, s')) :
    TracksHeads s' (followHeads (s, todo) (.add hexAddr isWrite) (s', todo') g) := by
  obtain ⟨_, req, -, -, hcases⟩ := addTransaction_cases hok
  rcases hcases with ⟨-, hentered⟩ | ⟨-, hsame⟩
  · refine ⟨fun i => (hentered.linkView i).tracks (h.links i), ?_⟩
    rw [hentered.quadView]
    exact h.quads
  · rw [hsame]
    exact ⟨fun i => (Grown.refl (s.linkView i)).tracks (h.links i), h.quads⟩

/-! ## Runs -/

/-- The small steps of a cube, next to what has happened to the first packets of its queues. -/
def headSystem (config : HMCConfig) {σ : Type} (vault : Vault σ) (ctrls : Fin config.channels → σ) :
    System ((HMCMemorySystem config σ × List HMCPhase) × HeadAges config) HMCStep :=
  (phaseSystem config vault ctrls).track {} followHeads

/-- Every run of a cube can be followed. -/
theorem exists_heads {ops : List HMCOp} (hrun : (hmcSystem config vault ctrls).Run ops s) :
    ∃ steps g, (headSystem config vault ctrls).Run steps ((s, []), g) ∧
      steps.filterMap HMCStep.op = ops := by
  obtain ⟨steps, hsteps, hops⟩ := run_phases hrun
  obtain ⟨g, hfollowed⟩ := hsteps.track {} followHeads
  exact ⟨steps, g, hfollowed, hops⟩

theorem TracksHeads.step {p p' : HMCMemorySystem config σ × List HMCPhase} {a : HMCStep}
    (h : TracksHeads p.1 g) (hstep : (phaseSystem config vault ctrls).step p a p') :
    TracksHeads p'.1 (followHeads p a p' g) := by
  obtain ⟨s, todo⟩ := p
  obtain ⟨s', todo'⟩ := p'
  cases a with
  | add hexAddr isWrite =>
      obtain ⟨-, -, accepted, hok⟩ := hstep
      exact h.add hok
  | tick =>
      obtain ⟨-, -, hsame⟩ := hstep
      cases hsame
      exact h
  | phase phase =>
      obtain ⟨-, hok⟩ := hstep
      cases phase with
      | drainResponses => exact h.drainResponses hok
      | dramClockTick => exact h.dramClockTick hok
      | drainRequests => exact h.drainRequests hok
      | advanceLogic =>
          cases hok
          exact ⟨h.links, h.quads⟩
      | advanceDram =>
          cases hok
          exact ⟨h.links, h.quads⟩

theorem tracksHeads_run {steps : List HMCStep}
    (hrun : (headSystem config vault ctrls).Run steps ((s, todo), g)) : TracksHeads s g := by
  refine hrun.invariant (fun p => TracksHeads p.1.1 p.2) ⟨fun _ => .init, fun _ => .init⟩ ?_
  rintro ⟨p, g⟩ a ⟨p', g'⟩ h ⟨hstep, hfollow⟩
  dsimp only at h hfollow ⊢
  rw [hfollow]
  exact h.step hstep

/-- In every run, the age of a queue and the stalls that an arrival has taken from it are one more
than the stalls of its first packet.  So the age is at least the stalls and one if and only if no
packet has arrived behind the first one after it had stalled. -/
theorem stall_age_iff {steps : List HMCStep}
    (hrun : (headSystem config vault ctrls).Run steps ((s, todo), g)) :
    (∀ i, s.linkReqQueues i ≠ [] →
      s.linkAgeCounter i + (g.links i).lost = (g.links i).stalls + 1 ∧
      ((g.links i).stalls + 1 ≤ s.linkAgeCounter i ↔ (g.links i).lost = 0)) ∧
    ∀ i, s.quadRespQueues i ≠ [] →
      s.quadAgeCounter i + (g.quads i).lost = (g.quads i).stalls + 1 ∧
      ((g.quads i).stalls + 1 ≤ s.quadAgeCounter i ↔ (g.quads i).lost = 0) := by
  have h := tracksHeads_run hrun
  exact ⟨fun i hne => (h.links i).age_iff hne, fun i hne => (h.quads i).age_iff hne⟩

/-- The small step that is asked for. -/
def performStep (vault : Vault σ) (p : HMCMemorySystem config σ × List HMCPhase) :
    HMCStep → Option (HMCMemorySystem config σ × List HMCPhase)
  | .add hexAddr isWrite =>
      if p.2 = [] then (p.1.addTransaction hexAddr isWrite).toOption.map fun r => (r.2, [])
      else none
  | .tick => if p.2 = [] then some (p.1, p.1.phases) else none
  | .phase phase =>
      if p.2.head? = some phase then
        (p.1.runPhase vault phase).toOption.map fun s => (s, p.2.tail)
      else none

theorem step_of_performStep {p p' : HMCMemorySystem config σ × List HMCPhase} {a : HMCStep}
    (h : performStep vault p a = some p') : (phaseSystem config vault ctrls).step p a p' := by
  cases a with
  | add hexAddr isWrite =>
      obtain ⟨hnone, h⟩ := Option.ite_none_right_eq_some.mp h
      obtain ⟨⟨accepted, s₁⟩, hok, rfl⟩ := Option.map_eq_some_iff.mp h
      exact ⟨hnone, rfl, accepted, toOption_eq_some.mp hok⟩
  | tick =>
      obtain ⟨hnone, h⟩ := Option.ite_none_right_eq_some.mp h
      cases h
      exact ⟨hnone, rfl, rfl⟩
  | phase phase =>
      obtain ⟨hnext, h⟩ := Option.ite_none_right_eq_some.mp h
      obtain ⟨s₁, hok, rfl⟩ := Option.map_eq_some_iff.mp h
      exact ⟨(List.cons_head?_tail hnext).symm, toOption_eq_some.mp hok⟩

/-- A replay of small steps is a run that has been followed. -/
theorem run_of_replay {steps : List HMCStep}
    {p : (HMCMemorySystem config σ × List HMCPhase) × HeadAges config}
    (h : System.replay (System.performTracked (performStep vault) followHeads) steps
      (({ ctrls := ctrls }, []), {}) = some p) : (headSystem config vault ctrls).Run steps p :=
  System.run_of_replay_track (fun _ _ _ => step_of_performStep) h

/-- Four writes to one quad of the default cube enter at its four links, and a tick lets that of
link 1 through. -/
def stalledWrites : List HMCStep :=
  List.replicate 4 (.add 0 true) ++ .tick ::
    [.drainResponses, .dramClockTick, .drainRequests, .advanceLogic, .drainResponses,
      .drainRequests, .advanceLogic, .advanceDram].map .phase

/-- The write at link 0 stalls in both logic cycles of the tick. -/
theorem stall_age_iff_two_stalls :
    ∃ (p : DefaultCube × List HMCPhase)
      (g : HeadAges defaultCube) (link : Fin defaultCube.numLinks),
      (headSystem defaultCube (controllerVault _) fun _ => {}).Run stalledWrites (p, g) ∧
      (g.links link).stalls = 2 ∧ (g.links link).lost = 0 ∧
      (g.links link).stalls + 1 ≤ p.1.linkAgeCounter link := by
  have hsome : (System.replay (System.performTracked (performStep (controllerVault _)) followHeads)
      stalledWrites (({ ctrls := fun _ => {} }, []), {})).any (fun q :
        (DefaultCube × _) × HeadAges defaultCube =>
        (q.1.1.linkReqQueues ⟨0, by decide⟩) ≠ [] ∧
        q.2.links ⟨0, by decide⟩ = { stalls := 2, lost := 0 }) = true := by
    decide +kernel
  obtain ⟨⟨⟨s, todo⟩, g⟩, hs, hhead⟩ := (Option.any_eq_true _ _).mp hsome
  obtain ⟨hne, hstalls⟩ := of_decide_eq_true hhead
  have hrun := run_of_replay hs
  have hage := (stall_age_iff hrun).1 _ hne
  refine ⟨_, g, _, hrun, congrArg HeadAge.stalls hstalls, congrArg HeadAge.lost hstalls, ?_⟩
  exact hage.2.mpr (congrArg HeadAge.lost hstalls)

/-- A fifth write arrives behind the one at link 0, which then looks as if it had never stalled. -/
theorem stall_age_lost :
    ∃ (p : DefaultCube × List HMCPhase)
      (g : HeadAges defaultCube) (link : Fin defaultCube.numLinks),
      (headSystem defaultCube (controllerVault _) fun _ => {}).Run (stalledWrites ++ [.add 0 true])
        (p, g) ∧
      p.1.linkReqQueues link ≠ [] ∧ (g.links link).stalls = 2 ∧ p.1.linkAgeCounter link = 1 := by
  have hsome : (System.replay (System.performTracked (performStep (controllerVault _)) followHeads)
      (stalledWrites ++ [.add 0 true]) (({ ctrls := fun _ => {} }, []), {})).any (fun q :
        (DefaultCube × _) × HeadAges defaultCube =>
        (q.1.1.linkReqQueues ⟨0, by decide⟩) ≠ [] ∧ (q.2.links ⟨0, by decide⟩).stalls = 2 ∧
        q.1.1.linkAgeCounter ⟨0, by decide⟩ = 1) = true := by
    decide +kernel
  obtain ⟨⟨p, g⟩, hp, hhead⟩ := (Option.any_eq_true _ _).mp hsome
  exact ⟨p, g, _, run_of_replay hp, of_decide_eq_true hhead⟩

end HMCMemorySystem

end Dramsim
