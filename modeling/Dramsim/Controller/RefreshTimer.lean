import Dramsim.Controller.Frame
import Dramsim.Controller.Ticks
import Dramsim.Library.Counter
import Mathlib.Data.Nat.ModEq

/-!
# The refresh counter

The counter of `Refresh` makes a request once in every interval.  What it does depends on the
clock only (`run_timer`): whether a request is due, and whose turn it is.

*Turns.*  Under the staggered policies the positions form a counter with one or three digits,
which is advanced at every interval, also when the rank whose turn it is sleeps
(`staggered_refresh_covers`).

*Look-ahead.*  `pim_refresh_coming` and `pim_refresh_coming2` predict the next request from a
copy of the clock that is narrowed to `int`.  Up to `2 ^ 31` cycles the prediction is exact, and
for no clock beyond that it is exact for all intervals (`refresh_lookahead_exact`).
-/

namespace Dramsim

open Library

namespace Refresh

variable {config : Config} {r r' : Refresh config} {channel channel' : ChannelState}

/-! ## A tick of the counter -/

/-- The same positions at another time. -/
def setClk (r : Refresh config) (clk : Nat) : Refresh config := { r with clk := clk }

@[simp] theorem setClk_clk (r : Refresh config) (clk : Nat) : (r.setClk clk).clk = clk := rfl

@[simp] theorem setClk_setClk (r : Refresh config) (clk clk' : Nat) :
    (r.setClk clk).setClk clk' = r.setClk clk' := rfl

@[simp] theorem setClk_nextIndex (r : Refresh config) (clk : Nat) :
    (r.setClk clk).nextIndex = r.nextIndex := rfl

/-- The positions are advanced without the clock. -/
theorem iterateNext_setClk (r : Refresh config) (clk : Nat) :
    (r.setClk clk).iterateNext = r.iterateNext.setClk clk := by
  unfold iterateNext setClk
  cases config.refreshPolicy with
  | rankLevelSimultaneous | rankLevelStaggered => rfl
  | bankLevelStaggered =>
      dsimp only
      split
      · split <;> rfl
      · rfl

theorem iterateNext_clk (r : Refresh config) : r.iterateNext.clk = r.clk := by
  have h := congrArg Refresh.clk (r.iterateNext_setClk r.clk)
  exact h

theorem isDue_iff (r : Refresh config) :
    r.isDue = true ↔ r.clk % toU64 config.refreshInterval = 0 ∧ 0 < r.clk := by
  rw [isDue, Bool.and_eq_true, decide_eq_true_eq, decide_eq_true_eq]

theorem insertRefresh_fst (r : Refresh config) (channel : ChannelState) :
    (r.insertRefresh channel).1 = r.iterateNext := by
  unfold insertRefresh
  cases hpolicy : config.refreshPolicy with
  | rankLevelSimultaneous =>
      unfold iterateNext
      rw [hpolicy]
  | rankLevelStaggered | bankLevelStaggered => rfl

/-- The counter does not look at the channel. -/
theorem clockTick_eq (h : r.clockTick channel = .ok (r', channel')) :
    0 < toU64 config.refreshInterval ∧
      r' = (if r.isDue then r.iterateNext else r).setClk (r.clk + 1) ∧
      channel' = if r.isDue then (r.insertRefresh channel).2 else channel := by
  unfold clockTick at h
  simp only [← isDue_iff] at h
  split at h
  · cases h
  · rename_i hpos
    cases h
    refine ⟨Nat.pos_of_ne_zero hpos, ?_⟩
    split
    · exact ⟨by rw [insertRefresh_fst, iterateNext_clk, setClk], rfl⟩
    · exact ⟨rfl, rfl⟩

/-! ## Time -/

/-- The state of the counter at a clock. -/
def timer (config : Config) (clk : Nat) : Refresh config :=
  (iterateNext^[(clk - 1) / toU64 config.refreshInterval] {}).setClk clk

/-- The counter keeps to the clock. -/
theorem clockTick_timer {clk : Nat}
    (h : (timer config clk).clockTick channel = .ok (r', channel')) :
    r' = timer config (clk + 1) := by
  have hdue := isDue_iff (timer config clk)
  rw [(clockTick_eq h).2.1]
  unfold timer at hdue ⊢
  rw [setClk_clk] at hdue ⊢
  rw [Nat.add_sub_cancel]
  cases clk with
  | zero =>
      rw [if_neg fun h => absurd (hdue.mp h).2 (Nat.lt_irrefl 0), setClk_setClk]
  | succ clk =>
      rw [Nat.add_sub_cancel] at hdue ⊢
      rw [Nat.succ_div]
      split
      · rename_i h
        rw [if_pos (Nat.dvd_of_mod_eq_zero (hdue.mp h).1), Function.iterate_succ_apply',
          iterateNext_setClk, setClk_setClk]
      · rename_i h
        have hndvd : ¬ toU64 config.refreshInterval ∣ clk + 1 := fun hdvd =>
          h (hdue.mpr ⟨Nat.mod_eq_zero_of_dvd hdvd, Nat.succ_pos clk⟩)
        rw [if_neg hndvd, setClk_setClk]
        rfl

/-! ## Turns -/

/-- The bank, or the rank, whose turn it is at an interval. -/
def selected (config : Config) (i : Nat) : BankIndex :=
  (iterateNext^[i] ({} : Refresh config)).nextIndex

/-- The turn at the end of an interval. -/
theorem nextIndex_timer {i : Nat} (hpos : 0 < toU64 config.refreshInterval) :
    (timer config ((i + 1) * toU64 config.refreshInterval)).nextIndex = selected config i := by
  have hdiv : ((i + 1) * toU64 config.refreshInterval - 1) / toU64 config.refreshInterval = i := by
    rw [Nat.div_eq_iff hpos, Nat.add_mul]
    omega
  rw [timer, setClk_nextIndex, hdiv, selected]

/-- The positions as a number with three digits.  The bankgroups come last. -/
def number (r : Refresh config) : Nat :=
  ((r.nextRank : Nat) * config.banksPerGroup + (r.nextBank : Nat)) * config.bankgroups +
    (r.nextBg : Nat)

theorem nextIndex_inj : r.nextIndex = r'.nextIndex ↔ r.number = r'.number := by
  unfold nextIndex number
  rw [BankIndex.mk.injEq, Int.natCast_inj, Int.natCast_inj, Int.natCast_inj]
  constructor
  · rintro ⟨hrank, hbg, hbank⟩
    rw [hrank, hbg, hbank]
  · intro h
    obtain ⟨hrest, hbg⟩ := Counter.digits_inj r.nextBg.isLt r'.nextBg.isLt h
    obtain ⟨hrank, hbank⟩ := Counter.digits_inj r.nextBank.isLt r'.nextBank.isLt hrest
    exact ⟨hrank, hbg, hbank⟩

theorem iterateNext_number (hpolicy : config.refreshPolicy = .bankLevelStaggered)
    (r : Refresh config) : r.iterateNext.number =
      (r.number + 1) % (config.ranks * config.banksPerGroup * config.bankgroups) := by
  have hcarry := Counter.carry r.nextBank.isLt r.nextRank.isLt
  have hhigh := Counter.digits_lt r.nextBank.isLt r.nextRank.isLt
  unfold number
  rw [← Counter.carry r.nextBg.isLt hhigh, ← hcarry]
  unfold iterateNext
  rw [hpolicy]
  dsimp only [advance]
  split
  · split <;> rfl
  · rfl

theorem number_iterate (hpolicy : config.refreshPolicy = .bankLevelStaggered) (i : Nat) :
    (iterateNext^[i] ({} : Refresh config)).number =
      i % (config.ranks * config.banksPerGroup * config.bankgroups) := by
  induction i with
  | zero => simp [number]
  | succ i ih => rw [Function.iterate_succ_apply', iterateNext_number hpolicy, ih, Nat.mod_add_mod]

theorem nextRank_iterate (hpolicy : config.refreshPolicy = .rankLevelStaggered) (i : Nat) :
    ((iterateNext^[i] ({} : Refresh config)).nextRank : Nat) = i % config.ranks := by
  induction i with
  | zero => simp
  | succ i ih =>
      rw [Function.iterate_succ_apply', iterateNext, hpolicy]
      simp only [advance]
      rw [ih, Nat.mod_add_mod]

/-- In as many intervals as there are banks, each bank has one turn. -/
theorem existsUnique_selected_bank (hpolicy : config.refreshPolicy = .bankLevelStaggered) (n : Nat)
    {ix : BankIndex} (hix : config.HasBank ix) :
    ∃! i, (n ≤ i ∧ i < n + config.ranks * config.bankgroups * config.banksPerGroup) ∧
      selected config i = ix := by
  obtain ⟨r, rfl⟩ : ∃ r : Refresh config, r.nextIndex = ix := by
    obtain ⟨⟨hr0, hr⟩, ⟨hg0, hg⟩, hb0, hb⟩ := hix
    refine ⟨{
      nextRank := ⟨ix.rank.toNat, by omega⟩
      nextBg := ⟨ix.bankgroup.toNat, by omega⟩
      nextBank := ⟨ix.bank.toNat, by omega⟩ }, ?_⟩
    rw [nextIndex, Int.toNat_of_nonneg hr0, Int.toNat_of_nonneg hg0, Int.toNat_of_nonneg hb0]
  have hlt := Counter.digits_lt r.nextBg.isLt (Counter.digits_lt r.nextBank.isLt r.nextRank.isLt)
  have hturn (i : Nat) : selected config i = r.nextIndex ↔
      i % (config.ranks * config.banksPerGroup * config.bankgroups) = r.number := by
    rw [← number_iterate hpolicy, selected, nextIndex_inj]
  simp only [hturn, Nat.mul_right_comm config.ranks config.bankgroups]
  exact Counter.existsUnique_mod n hlt

/-- In as many intervals as there are ranks, each rank has one turn. -/
theorem existsUnique_selected_rank (hpolicy : config.refreshPolicy = .rankLevelStaggered) (n : Nat)
    {rank : Int} (hrank : 0 ≤ rank ∧ rank < config.ranks) :
    ∃! i, (n ≤ i ∧ i < n + config.ranks) ∧ (selected config i).rank = rank := by
  obtain ⟨k, rfl⟩ := Int.eq_ofNat_of_zero_le hrank.1
  have hturn (i : Nat) : (selected config i).rank = k ↔ i % config.ranks = k := by
    rw [selected, nextIndex, nextRank_iterate hpolicy, Int.natCast_inj]
  simp only [hturn]
  exact Counter.existsUnique_mod n (Int.ofNat_lt.mp hrank.2)

/-! ## Requests -/

/-- The request for the bank, or the rank, whose turn it is. -/
def requestFor (config : Config) (ix : BankIndex) : Command :=
  match config.refreshPolicy with
  | .bankLevelStaggered =>
      ⟨.refreshBank, { rank := ix.rank, bankgroup := ix.bankgroup, bank := ix.bank }, toU64 (-1)⟩
  | _ => ⟨.refresh, { rank := ix.rank }, toU64 (-1)⟩

theorem insertRefresh_refreshQ_eq (hpolicy : config.refreshPolicy ≠ .rankLevelSimultaneous)
    (r : Refresh config) (channel : ChannelState) :
    (r.insertRefresh channel).2.refreshQ = channel.refreshQ ++
      if channel.rankIsSref r.nextIndex.rank then [] else [requestFor config r.nextIndex] := by
  unfold insertRefresh requestFor
  cases hp : config.refreshPolicy with
  | rankLevelSimultaneous => exact absurd hp hpolicy
  | rankLevelStaggered | bankLevelStaggered =>
      dsimp only [nextIndex]
      by_cases hsleep : channel.rankIsSref (r.nextRank : Nat) = true
      · simp [hsleep]
      · simp [hsleep, ChannelState.rankNeedRefresh, ChannelState.bankNeedRefresh]

end Refresh

namespace Controller

variable {config : Config} {s s' : Controller config}

/-- In every run the counter is where the clock puts it. -/
theorem run_timer {ops : List Op} (hrun : (controllerSystem config).Run ops s) :
    s.refresh = Refresh.timer config s.clk := by
  refine hrun.invariant (fun s => s.refresh = Refresh.timer config s.clk) ?_ ?_
  · show _ = Refresh.timer config 0
    rw [Refresh.timer, Nat.zero_sub, Nat.zero_div]
    rfl
  · intro s op s' h hs
    cases op with
    | tick =>
        obtain ⟨hclk, channel, htick⟩ := clockTick_timers hs
        rw [h] at htick
        rw [hclk]
        exact Refresh.clockTick_timer htick
    | add it =>
        obtain ⟨-, rfl⟩ := hs
        have hframe := s.addTransaction_frame it
        rw [hframe.refresh, hframe.clk, h]
    | done clk =>
        cases hs
        have hframe := s.returnDoneTrans_frame clk
        rw [hframe.refresh, hframe.clk, h]
    | pushRdW | pushRdIn | pushWr =>
        obtain ⟨-, rfl⟩ := hs
        exact h
    | setInPim | setWrMultitenant =>
        cases hs
        exact h

/-- The counter of a tick, under a staggered policy. -/
theorem tickRefresh_refreshQ (hpolicy : config.refreshPolicy ≠ .rankLevelSimultaneous)
    (h : s.tickRefresh = .ok s') : 0 < toU64 config.refreshInterval ∧
      s'.channelState.refreshQ = s.channelState.refreshQ ++
        if !s.refresh.isDue || s.channelState.rankIsSref s.refresh.nextIndex.rank then []
        else [Refresh.requestFor config s.refresh.nextIndex] := by
  obtain ⟨⟨refresh, channel⟩, htick, h⟩ := Library.bind_eq_ok.mp h
  cases h
  obtain ⟨hpos, -, rfl⟩ := Refresh.clockTick_eq htick
  refine ⟨hpos, ?_⟩
  cases s.refresh.isDue with
  | false => simp
  | true => exact Refresh.insertRefresh_refreshQ_eq hpolicy s.refresh s.channelState

/-- Under the staggered policies every bank, or every rank, has one turn in as many intervals
as there are of them.  In every run the intervals end at the multiples of the interval, and the
request for the bank or the rank whose turn it is then is made exactly if its rank is awake. -/
theorem staggered_refresh_covers (config : Config) :
    (config.refreshPolicy = .bankLevelStaggered → ∀ n ix, config.HasBank ix →
      ∃! i, (n ≤ i ∧ i < n + config.ranks * config.bankgroups * config.banksPerGroup) ∧
        Refresh.selected config i = ix) ∧
    (config.refreshPolicy = .rankLevelStaggered → ∀ n (rank : Int), 0 ≤ rank ∧ rank < config.ranks →
      ∃! i, (n ≤ i ∧ i < n + config.ranks) ∧ (Refresh.selected config i).rank = rank) ∧
    (config.refreshPolicy ≠ .rankLevelSimultaneous → ∀ (ops : List Op) (s s' : Controller config),
      (controllerSystem config).Run ops s → s.tickRefresh = .ok s' →
      (∀ i, s.clk = (i + 1) * toU64 config.refreshInterval →
        s'.channelState.refreshQ = s.channelState.refreshQ ++
          if s.channelState.rankIsSref (Refresh.selected config i).rank then []
          else [Refresh.requestFor config (Refresh.selected config i)]) ∧
      ((∀ i, s.clk ≠ (i + 1) * toU64 config.refreshInterval) →
        s'.channelState.refreshQ = s.channelState.refreshQ)) := by
  refine ⟨fun hpolicy n ix => Refresh.existsUnique_selected_bank hpolicy n,
    fun hpolicy n rank => Refresh.existsUnique_selected_rank hpolicy n,
    fun hpolicy ops s s' hrun htick => ?_⟩
  obtain ⟨hpos, hq⟩ := tickRefresh_refreshQ hpolicy htick
  have htimer := run_timer hrun
  have hdue := s.refresh.isDue_iff
  rw [htimer, Refresh.timer, Refresh.setClk_clk, ← Refresh.timer] at hdue
  rw [htimer] at hq
  constructor
  · intro i hi
    rw [hq, hdue.mpr ⟨hi ▸ Nat.mul_mod_left _ _, hi ▸ Nat.mul_pos (Nat.succ_pos i) hpos⟩, hi,
      Refresh.nextIndex_timer hpos, Bool.not_true, Bool.false_or]
  · intro hnone
    have hnot : (Refresh.timer config s.clk).isDue = false := by
      rw [Bool.eq_false_iff]
      intro h
      obtain ⟨hmod, hclk⟩ := hdue.mp h
      obtain ⟨q, hmul⟩ := Nat.dvd_of_mod_eq_zero hmod
      cases q with
      | zero => omega
      | succ q => exact hnone q (hmul.trans (Nat.mul_comm _ _))
    rw [hq, hnot, Bool.not_false, Bool.true_or, if_pos rfl, List.append_nil]

/-- A device with two ranks and a request for a bank every second cycle. -/
def staggered : Config :=
  { Config.dualRank with refreshPolicy := .bankLevelStaggered, tREFIb := 2 }

/-- Its first request, and the turn of a bank in a later period. -/
theorem staggered_refresh_covers_first :
    ∃ s s' : Controller staggered, s.clk = 2 ∧ s.tickRefresh = .ok s' ∧
      s'.channelState.refreshQ =
        [⟨.refreshBank, { rank := 0, bankgroup := 0, bank := 0 }, 2 ^ 64 - 1⟩] ∧
      ∃! i, (5 ≤ i ∧ i < 13) ∧ Refresh.selected staggered i = ⟨1, 0, 1⟩ := by
  obtain ⟨hbanks, -, hruns⟩ := staggered_refresh_covers staggered
  have hsome : ((replay staggered [.tick, .tick]).any fun s =>
      s.clk = 2 && s.channelState.refreshQ.isEmpty && !s.channelState.rankIsSref 0 &&
        s.tickRefresh.toOption.isSome) = true := by
    decide +kernel
  obtain ⟨s, hs, h⟩ := (Option.any_eq_true _ _).mp hsome
  simp only [Bool.and_eq_true, decide_eq_true_eq, List.isEmpty_iff, Bool.not_eq_true',
    Option.isSome_iff_exists, toOption_eq_some] at h
  obtain ⟨⟨⟨hclk, hempty⟩, hawake⟩, s', htick⟩ := h
  have hrun := (run_of_replay (fun _ => True) hs fun _ _ => trivial).of_restrict
  have hq := (hruns (by decide) _ s s' hrun htick).1 0 hclk
  have hrank : (Refresh.selected staggered 0).rank = 0 := rfl
  rw [hempty, List.nil_append, hrank, hawake] at hq
  exact ⟨s, s', hclk, htick, hq, hbanks rfl 5 ⟨1, 0, 1⟩ (by decide)⟩

end Controller

/-! ## Look-ahead -/

namespace Refresh

variable {config : Config} {r : Refresh config}

/-- The counter asks for a refresh in the cycle that is `d` ticks ahead. -/
def DueIn (r : Refresh config) (d : Nat) : Prop := (r.setClk (r.clk + d)).isDue = true

/-- The two predictions say whether the next request is at most `tRAS + 1` ticks ahead, and
whether it is at most one tick ahead. -/
structure LookAheadExact (r : Refresh config) : Prop where
  coming : r.pimRefreshComing = true ↔ ∃ d : Nat, (d : Int) ≤ config.tRAS + 1 ∧ r.DueIn d
  coming2 : r.pimRefreshComing2 = true ↔ ∃ d ≤ 1, r.DueIn d

/-- The distance to the next multiple of an interval. -/
theorem exists_le_mod_iff {interval clk : Nat} (hpos : 0 < interval) (hclk : 1 ≤ clk) {x : Int} :
    (∃ d : Nat, (d : Int) ≤ x ∧ (clk + d) % interval = 0) ↔
      (interval : Int) - ((clk - 1) % interval : Nat) < x + 2 := by
  have hlt := Nat.mod_lt (clk - 1) hpos
  have hdiv := Nat.div_add_mod (clk - 1) interval
  constructor
  · rintro ⟨d, hd, hmod⟩
    by_contra hnear
    -- a multiple cannot lie between the clock and the end of its interval
    have hrest : (clk + d) % interval = (clk - 1) % interval + 1 + d := by
      rw [show clk + d = interval * ((clk - 1) / interval) +
        ((clk - 1) % interval + 1 + d) by omega, Nat.mul_add_mod, Nat.mod_eq_of_lt (by omega)]
    omega
  · intro hnear
    refine ⟨interval - 1 - (clk - 1) % interval, by omega, ?_⟩
    rw [show clk + (interval - 1 - (clk - 1) % interval) =
      interval * ((clk - 1) / interval + 1) by rw [Nat.mul_add]; omega, Nat.mul_mod_right]

/-- The clock that the predictions are made from, one behind the clock of the counter. -/
def narrowed (clk : Nat) : Nat := (max 0 (toInt clk - 1)).toNat

theorem narrowed_of_lt {clk : Nat} (h : clk < 2 ^ 31) : narrowed clk = clk - 1 := by
  rw [narrowed, toInt_of_lt h]
  omega

theorem narrowed_lt {clk : Nat} (h : 2 ^ 31 ≤ clk) : narrowed clk < clk - 1 := by
  have hint : toInt clk < (2 ^ 32 + 1) / 2 := Int.bmod_lt (by decide)
  rw [narrowed]
  omega

section Bounds

variable {interval : Nat} (hinterval : config.refreshInterval = interval)
include hinterval

theorem countdown_eq (r : Refresh config) :
    r.countdown = (interval : Int) - (narrowed r.clk % interval : Nat) := by
  have hnarrow : max 0 (toInt r.clk - 1) = (narrowed r.clk : Int) := by
    rw [narrowed]
    omega
  rw [countdown, hinterval, hnarrow, Int.tmod_eq_emod_of_nonneg (Int.natCast_nonneg _),
    Int.natCast_emod]

variable (hpos : 1 ≤ interval) (hint : interval < 2 ^ 31)
include hpos hint

theorem exists_dueIn_iff (hclk : 1 ≤ r.clk) (x : Int) :
    (∃ d : Nat, (d : Int) ≤ x ∧ r.DueIn d) ↔
      (interval : Int) - ((r.clk - 1) % interval : Nat) < x + 2 := by
  have hU64 : toU64 config.refreshInterval = interval := by
    have := toU64_of_nonneg (i := config.refreshInterval) (by omega) (by omega)
    omega
  have hdue (d : Nat) : r.DueIn d ↔ (r.clk + d) % interval = 0 := by
    rw [DueIn, isDue_iff, setClk_clk, hU64]
    exact and_iff_left (by omega)
  simp only [hdue]
  exact exists_le_mod_iff hpos hclk

/-- The predictions are exact where the clock and its copy fall on the same side of both
bounds. -/
theorem lookAheadExact_iff (hclk : 1 ≤ r.clk) :
    r.LookAheadExact ↔ ∀ x, x = config.tRAS + 3 ∨ x = 3 →
      ((interval : Int) - (narrowed r.clk % interval : Nat) < x ↔
        (interval : Int) - ((r.clk - 1) % interval : Nat) < x) := by
  have hcountdown := countdown_eq hinterval r
  have hnear := exists_dueIn_iff hinterval hpos hint hclk (config.tRAS + 1)
  have hnext := exists_dueIn_iff hinterval hpos hint hclk 1
  have hcast (d : Nat) : (d : Int) ≤ 1 ↔ d ≤ 1 := by omega
  simp only [hcast] at hnext
  have hcoming : r.pimRefreshComing = true ↔ r.countdown < config.tRAS + 3 := decide_eq_true_iff
  have hcoming2 : r.pimRefreshComing2 = true ↔ r.countdown < 3 := decide_eq_true_iff
  rw [hcountdown] at hcoming hcoming2
  constructor
  · rintro ⟨h, h2⟩ x (rfl | rfl)
    · rw [← hcoming, h, hnear, Int.add_assoc]
      rfl
    · rw [← hcoming2, h2, hnext]
      rfl
  · intro h
    refine ⟨?_, ?_⟩
    · rw [hcoming, hnear, Int.add_assoc]
      exact h _ (.inl rfl)
    · rw [hcoming2, hnext]
      exact h _ (.inr rfl)

end Bounds

/-- Two numbers that differ have different remainders for one of three intervals. -/
theorem exists_interval_mod_ne {m n : Nat} (hlt : m < n) (hn : n < 2 ^ 64) :
    ∃ interval, 1 ≤ interval ∧ interval < 2 ^ 31 ∧ m % interval ≠ n % interval := by
  by_contra hall
  push Not at hall
  have hdvd (interval : Nat) (hpos : 1 ≤ interval) (hint : interval < 2 ^ 31) :
      interval ∣ n - m :=
    (Nat.modEq_iff_dvd' hlt.le).mp (hall interval hpos hint)
  have hprod : (2 ^ 31 - 1) * (2 ^ 31 - 2) * (2 ^ 31 - 3) ∣ n - m := by
    refine Nat.Coprime.mul_dvd_of_dvd_of_dvd (by decide) ?_ (hdvd _ (by omega) (by omega))
    exact Nat.Coprime.mul_dvd_of_dvd_of_dvd (by decide) (hdvd _ (by omega) (by omega))
      (hdvd _ (by omega) (by omega))
  have := Nat.le_of_dvd (by omega) hprod
  omega

/-- Before `2 ^ 31` cycles the predictions are exact, and after that for no clock for all
intervals. -/
theorem refresh_lookahead_exact {clk : Nat} (hclk : 1 ≤ clk) (h64 : clk < 2 ^ 64) :
    (∀ config : Config, 1 ≤ config.refreshInterval → config.refreshInterval < 2 ^ 31 →
      ∀ r : Refresh config, r.clk = clk → r.LookAheadExact) ↔ clk < 2 ^ 31 := by
  constructor
  · intro hall
    by_contra hbig
    have hnarrow := narrowed_lt (Nat.le_of_not_lt hbig)
    obtain ⟨interval, hpos, hint, hne⟩ := exists_interval_mod_ne hnarrow (by omega)
    -- a bound that lies between the two countdowns
    generalize hx : max ((interval : Int) - (narrowed clk % interval : Nat))
      ((interval : Int) - ((clk - 1) % interval : Nat)) = x
    have hinterval : Config.refreshInterval
        { Config.defaults with tREFI := interval, tRAS := x - 3 } = interval := by
      simp [Config.refreshInterval, Config.defaults]
    have hexact := hall { Config.defaults with tREFI := interval, tRAS := x - 3 } (by omega)
      (by omega) { clk := clk } rfl
    have := (lookAheadExact_iff hinterval hpos hint hclk).mp hexact x (.inl (by simp))
    simp only at this
    omega
  · rintro hlt config hI hI' r rfl
    obtain ⟨interval, hinterval⟩ := Int.eq_ofNat_of_zero_le (Int.le_of_lt hI)
    rw [lookAheadExact_iff hinterval (by omega) (by omega) hclk, narrowed_of_lt hlt]
    exact fun _ _ => Iff.rfl

/-- The default device, five cycles before its first refresh. -/
theorem refresh_lookahead_exact_near :
    LookAheadExact ({ clk := 7795 } : Refresh Config.defaults) ∧
      pimRefreshComing ({ clk := 7795 } : Refresh Config.defaults) = true :=
  ⟨(refresh_lookahead_exact (by decide) (by decide)).mpr (by decide) _ (by decide)
    (by decide) _ rfl, by decide⟩

/-- In the 275319th interval of the default device, after more than `2 ^ 31` cycles, a refresh
is asked for without having been announced. -/
theorem refresh_lookahead_late :
    ¬ LookAheadExact ({ clk := 275319 * 7800 } : Refresh Config.defaults) := by
  intro h
  have hdue : DueIn ({ clk := 275319 * 7800 } : Refresh Config.defaults) 0 := by
    rw [DueIn]
    decide
  have hcoming := h.coming2.mpr ⟨0, by decide, hdue⟩
  exact absurd hcoming (by decide)

end Refresh

end Dramsim
