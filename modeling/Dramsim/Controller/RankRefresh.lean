import Dramsim.Controller.RefreshOrder
import Dramsim.Library.Queues

/-!
# Simultaneous refresh

With `RANK_LEVEL_SIMULTANEOUS` an interval should end with one request for each rank that is awake.
The loop of `InsertRefresh` stops after the first rank it finds awake, so the others are passed
over: at every interval the rank with the lowest number among those awake gets a request, and no
other does (`simultaneous_refresh_iff`).  Unless the ranks before it go to sleep, a rank other than
the first is never refreshed.
-/

namespace Dramsim

open Library

/-- A tick, as the refresh counter sees it: the time, the ranks in self refresh, and the requests
that are inserted. -/
structure RefreshTick where
  clk : Nat
  isSref : Int → Bool
  inserted : List Command

namespace RefreshTick

/-- The requests for a rank. -/
def requests (t : RefreshTick) (rank : Nat) : Nat :=
  t.inserted.countP fun cmd => cmd.cmdType = .refresh && cmd.addr.rank = (rank : Int)

/-- The tick is at a positive multiple of `tREFI`. -/
def EndsInterval (config : Config) (t : RefreshTick) : Prop :=
  0 < t.clk ∧ t.clk % toU64 config.tREFI = 0

instance (config : Config) : DecidablePred (EndsInterval config) :=
  fun _ => inferInstanceAs (Decidable (_ ∧ _))

/-- The rank is the first that is awake. -/
def FirstAwake (t : RefreshTick) (rank : Nat) : Prop :=
  t.isSref rank = false ∧ ∀ j < rank, t.isSref j = true

end RefreshTick

namespace Refresh

variable {config : Config}

/-- The request for a rank. -/
def rankRequest (rank : Nat) : Command := ⟨.refresh, { rank := rank }, toU64 (-1)⟩

/-- The loop of `InsertRefresh` is a search. -/
theorem firstAwakeNeedsRefresh_eq (channel : ChannelState) (l : List Nat) :
    (firstAwakeNeedsRefresh channel l).refreshQ = channel.refreshQ ++
      ((l.find? fun i : Nat => !channel.rankIsSref i).map rankRequest).toList := by
  induction l with
  | nil => simp [firstAwakeNeedsRefresh]
  | cons i rest ih =>
      rw [firstAwakeNeedsRefresh, List.find?_cons]
      cases hsleep : channel.rankIsSref i with
      | false => simp [ChannelState.rankNeedRefresh, rankRequest]
      | true => simpa using ih

theorem inserted_simultaneous (hpolicy : config.refreshPolicy = .rankLevelSimultaneous)
    (r : Refresh config) (channel : ChannelState) :
    r.inserted channel = if r.isDue then
      (((List.range config.ranks).find? fun i : Nat => !channel.rankIsSref i).map
        rankRequest).toList else [] := by
  rw [inserted, insertRefresh, hpolicy]
  dsimp only
  rw [firstAwakeNeedsRefresh_eq, List.drop_left]

end Refresh

namespace RefreshTick

variable {t : RefreshTick} {config : Config}

/-- What is inserted at a tick: a request for the first rank that is awake, if an interval ends. -/
def Inserts (config : Config) (t : RefreshTick) : Prop :=
  t.inserted = if t.EndsInterval config then
    (((List.range config.ranks).find? fun i : Nat => !t.isSref i).map Refresh.rankRequest).toList
  else []

theorem requests_of_found (found : Option Nat) (rank : Nat)
    (h : t.inserted = (found.map Refresh.rankRequest).toList) :
    t.requests rank ≤ 1 ∧ (t.requests rank = 1 ↔ found = some rank) := by
  rw [requests, h]
  cases found with
  | none => simp
  | some i =>
      refine ⟨List.countP_le_length, ?_⟩
      have hsame : some i = some rank ↔ (i : Int) = rank :=
        Option.some_inj.trans Int.natCast_inj.symm
      rw [hsame]
      simp [Refresh.rankRequest, List.countP_singleton]

theorem find_firstAwake {rank : Nat} (hrank : rank < config.ranks) :
    ((List.range config.ranks).find? fun i : Nat => !t.isSref i) = some rank ↔
      t.FirstAwake rank := by
  rw [List.find?_range_eq_some, FirstAwake]
  simp [hrank]

/-- The first rank that is awake at the end of an interval gets one request, and the others none. -/
theorem Inserts.requests (h : t.Inserts config) {rank : Nat} (hrank : rank < config.ranks) :
    t.requests rank ≤ 1 ∧ (t.requests rank = 1 ↔ t.EndsInterval config ∧ t.FirstAwake rank) := by
  by_cases hends : t.EndsInterval config
  · rw [Inserts, if_pos hends] at h
    have hone := requests_of_found _ rank h
    rw [find_firstAwake hrank] at hone
    exact ⟨hone.1, hone.2.trans (and_iff_right hends).symm⟩
  · rw [Inserts, if_neg hends] at h
    rw [RefreshTick.requests, h]
    simp [hends]

end RefreshTick

namespace Controller

variable {config : Config} {s s' : Controller config} {ticks : List RefreshTick}

/-- The record of a tick. -/
def refreshTick (s : Controller config) : Op → List RefreshTick
  | .tick => [⟨s.clk, s.channelState.rankIsSref, s.inserted⟩]
  | _ => []

theorem inserts_of_run (hpolicy : config.refreshPolicy = .rankLevelSimultaneous) {ops : List Op}
    (hrun : (controllerSystem config).Run ops s) {op : Op} {t : RefreshTick}
    (ht : t ∈ refreshTick s op) : t.Inserts config := by
  cases op with
  | tick =>
      obtain rfl := List.mem_singleton.mp ht
      have hclk : s.refresh.clk = s.clk := congrArg Refresh.clk (run_timer hrun)
      have hdue := s.refresh.isDue_iff
      rw [hclk, Config.refreshInterval, hpolicy, and_comm] at hdue
      rw [RefreshTick.Inserts, inserted, Refresh.inserted_simultaneous hpolicy]
      exact if_congr hdue rfl rfl
  | add | done | pushRdW | pushRdIn | pushWr | setInPim | setWrMultitenant =>
      exact absurd ht List.not_mem_nil

/-- There is a record for every cycle. -/
theorem clk_of_run {ops : List Op}
    (hrun : ((controllerSystem config).observe refreshTick).Run ops (s, ticks)) :
    ticks.map RefreshTick.clk = List.range s.clk := by
  refine hrun.invariant (fun p => p.2.map RefreshTick.clk = List.range p.1.clk) rfl ?_
  rintro ⟨s, ticks⟩ op ⟨s', ticks'⟩ h ⟨hstep, hseen⟩
  dsimp only at h hstep hseen ⊢
  rw [hseen, List.map_append, h]
  cases op with
  | tick => rw [(clockTick_timers hstep).1, List.range_succ, refreshTick, List.map_singleton]
  | add it =>
      obtain ⟨-, rfl⟩ := hstep
      rw [(s.addTransaction_frame it).clk]
      exact List.append_nil _
  | done clk =>
      cases hstep
      rw [(s.returnDoneTrans_frame clk).clk]
      exact List.append_nil _
  | pushRdW | pushRdIn | pushWr =>
      obtain ⟨-, rfl⟩ := hstep
      exact List.append_nil _
  | setInPim | setWrMultitenant =>
      cases hstep
      exact List.append_nil _

end Controller

namespace RefreshTick

variable {t : RefreshTick} {config : Config}

/-- All ranks that are awake are asked for if and only if there is at most one. -/
theorem Inserts.all_requested_iff (h : t.Inserts config) (hends : t.EndsInterval config) :
    (∀ rank < config.ranks, t.isSref rank = false → t.requests rank = 1) ↔
      ∀ rank < config.ranks, ∀ other < config.ranks, t.isSref rank = false →
        t.isSref other = false → rank = other := by
  constructor
  · intro hall rank hrank other hother hawake hawake'
    have hfirst := ((h.requests hrank).2.mp (hall rank hrank hawake)).2.2
    have hfirst' := ((h.requests hother).2.mp (hall other hother hawake')).2.2
    by_contra hne
    rcases Nat.lt_or_gt_of_ne hne with hlt | hlt
    · exact absurd (hfirst' rank hlt) (by simp [hawake])
    · exact absurd (hfirst other hlt) (by simp [hawake'])
  · intro hone rank hrank hawake
    refine (h.requests hrank).2.mpr ⟨hends, hawake, fun j hj => ?_⟩
    by_contra hsleep
    have heq := hone rank hrank j (hj.trans hrank) hawake (by simpa using hsleep)
    omega

end RefreshTick

namespace Controller

variable {config : Config} {s s' : Controller config} {ticks : List RefreshTick}

/-- In every run with simultaneous refresh, which has a record for every cycle: a rank gets at most
one request in a cycle, and gets one if and only if an interval ends then and it is the first rank
that is awake.  So all ranks that are awake get one at the end of an interval if and only if there
is at most one of them, and a rank that is awake at the end of some intervals gets as many requests
as there are intervals if and only if the ranks before it are asleep at all of them. -/
theorem simultaneous_refresh_iff (hpolicy : config.refreshPolicy = .rankLevelSimultaneous)
    {ops : List Op} (hrun : ((controllerSystem config).observe refreshTick).Run ops (s, ticks)) :
    ticks.map RefreshTick.clk = List.range s.clk ∧
    (∀ t ∈ ticks, ∀ rank < config.ranks, t.requests rank ≤ 1 ∧
      (t.requests rank = 1 ↔ t.EndsInterval config ∧ t.FirstAwake rank)) ∧
    (∀ t ∈ ticks, t.EndsInterval config →
      ((∀ rank < config.ranks, t.isSref rank = false → t.requests rank = 1) ↔
        ∀ rank < config.ranks, ∀ other < config.ranks, t.isSref rank = false →
          t.isSref other = false → rank = other)) ∧
    ∀ intervals : List RefreshTick, (∀ t ∈ intervals, t ∈ ticks ∧ t.EndsInterval config) →
      ∀ rank < config.ranks, (∀ t ∈ intervals, t.isSref rank = false) →
        ((intervals.map (RefreshTick.requests · rank)).sum = intervals.length ↔
          ∀ t ∈ intervals, ∀ j < rank, t.isSref j = true) := by
  have hinserts : ∀ t ∈ ticks, t.Inserts config := by
    intro t ht
    obtain ⟨ops, s, op, s', hrun, -, ht⟩ := hrun.of_mem_record.2 t ht
    exact inserts_of_run hpolicy hrun ht
  refine ⟨clk_of_run hrun, fun t ht rank hrank => (hinserts t ht).requests hrank,
    fun t ht hends => (hinserts t ht).all_requested_iff hends, ?_⟩
  intro intervals hmem rank hrank hawake
  rw [sum_map_eq_length fun t ht => ((hinserts t (hmem t ht).1).requests hrank).1]
  refine forall₂_congr fun t ht => ?_
  rw [((hinserts t (hmem t ht).1).requests hrank).2, and_iff_right (hmem t ht).2]
  exact and_iff_right (hawake t ht)

/-- A device with two ranks that are never sent to sleep, and a refresh every fourth cycle. -/
def twoRanks : Config :=
  { Config.dualRank with refreshPolicy := .rankLevelSimultaneous, tREFI := 4 }

/-- Two intervals of it. -/
theorem exists_twoRanks_run : ∃ (s : Controller twoRanks) (ticks : List RefreshTick),
    ((controllerSystem twoRanks).observe refreshTick).Run (List.replicate 9 .tick) (s, ticks) ∧
    (ticks.filter (RefreshTick.EndsInterval twoRanks)).length = 2 ∧
    (∀ t ∈ ticks, t.isSref 0 = false ∧ t.isSref 1 = false) ∧ ∀ t ∈ ticks, t.requests 1 = 0 := by
  have hsome : (System.replay
      (System.performTracked perform fun s op _ ticks => ticks ++ refreshTick s op)
      (List.replicate 9 .tick) ((controllerSystem twoRanks).init, [])).any (fun p =>
        (p.2.filter (RefreshTick.EndsInterval twoRanks)).length = 2 ∧
        (∀ t ∈ p.2, t.isSref 0 = false ∧ t.isSref 1 = false) ∧ ∀ t ∈ p.2, t.requests 1 = 0) =
      true := by
    decide +kernel
  obtain ⟨⟨s, ticks⟩, hp, hticks⟩ := (Option.any_eq_true _ _).mp hsome
  have hrun := System.run_of_replay_observe (fun _ _ _ => step_of_perform) hp
  exact ⟨s, ticks, hrun, of_decide_eq_true hticks⟩

/-- The first rank gets a request in both intervals. -/
theorem simultaneous_refresh_iff_first : ∃ (s : Controller twoRanks) (ticks : List RefreshTick),
    ((controllerSystem twoRanks).observe refreshTick).Run (List.replicate 9 .tick) (s, ticks) ∧
    ((ticks.filter (RefreshTick.EndsInterval twoRanks)).map
      (RefreshTick.requests · 0)).sum = 2 := by
  obtain ⟨s, ticks, hrun, hlength, hawake, -⟩ := exists_twoRanks_run
  have hintervals := (simultaneous_refresh_iff rfl hrun).2.2.2
    (ticks.filter (RefreshTick.EndsInterval twoRanks))
    (fun t ht => by simpa using List.mem_filter.mp ht) 0 Nat.two_pos
    (fun t ht => (hawake t (List.mem_filter.mp ht).1).1)
  refine ⟨s, ticks, hrun, ?_⟩
  rw [← hlength]
  exact hintervals.mpr fun t _ j hj => absurd hj (Nat.not_lt_zero j)

/-- The second rank gets none, although it is awake. -/
theorem simultaneous_refresh_second : ∃ (s : Controller twoRanks) (ticks : List RefreshTick),
    ((controllerSystem twoRanks).observe refreshTick).Run (List.replicate 9 .tick) (s, ticks) ∧
    (ticks.filter (RefreshTick.EndsInterval twoRanks)).length = 2 ∧
    (∀ t ∈ ticks, t.isSref 1 = false) ∧ ∀ t ∈ ticks, t.requests 1 = 0 := by
  obtain ⟨s, ticks, hrun, hlength, hawake, hnone⟩ := exists_twoRanks_run
  exact ⟨s, ticks, hrun, hlength, fun t ht => (hawake t ht).2, hnone⟩

end Controller

end Dramsim
