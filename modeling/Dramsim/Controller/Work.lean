import Dramsim.Controller.Ordering
import Dramsim.Controller.RowHits
import Dramsim.Controller.TimingBound
import Dramsim.Controller.Turns
import Dramsim.Library.Queues
import Mathlib.Algebra.Order.BigOperators.Group.Finset

/-!
# What the queued transactions can still cost

A transaction takes at most three commands: a `PRECHARGE`, an `ACTIVATE` and the column command.
That the bound holds in spite of the row-hit limit, which may close a row although commands for it
are left, is a matter of counting.  The work that is left is three for each queued command, four
for each transaction that has not been scheduled, and for each bank the number of commands that its
row buffer needs before a column command can go (`preparation`).  Every command from the queues
lowers it (`Dispatched.work_add_le`), and scheduling a transaction does (`endTick_work`).

Between two commands a controller waits no longer than the longest gap of the timing tables
(`Settled`).
-/

namespace Dramsim

namespace Config

variable {config : Config}

/-- The types of the commands that the queues need. -/
def queueTypes : List CommandType :=
  [.read, .readPrecharge, .write, .writePrecharge, .activate, .precharge]

theorem mem_queueTypes {ty : CommandType} (h : ty.IsQueued) : ty ∈ queueTypes := by
  rcases h with h | rfl | rfl
  · cases ty <;> first | decide | cases h
  · decide
  · decide

/-- How long a command of the queues may have to wait after a command of one of the given types. -/
def waits (config : Config) (sources : List CommandType) : List Int :=
  config.gaps sources queueTypes ++ ([config.tFAW] ++ if config.isGDDR then [config.t32AW] else [])

def longestWait (config : Config) (sources : List CommandType) : Nat :=
  longest (config.waits sources)

theorem waits_subset {sources sources' : List CommandType} (h : sources ⊆ sources') :
    config.waits sources ⊆ config.waits sources' :=
  List.append_subset.mpr ⟨fun _ hd => List.mem_append_left _ (gaps_subset h hd),
    List.subset_append_right _ _⟩

/-- All banks of the device. -/
def bankSet (config : Config) : Finset BankIndex :=
  ((List.range config.ranks).flatMap fun (rank : Nat) => config.rankBanks rank).toFinset

theorem mem_bankSet {ix : BankIndex} : ix ∈ config.bankSet ↔ config.HasBank ix := by
  simp only [bankSet, List.mem_toFinset, List.mem_flatMap, List.mem_range, mem_rankBanks]
  constructor
  · rintro ⟨rank, hrank, hix, hrest⟩
    exact ⟨by omega, hrest⟩
  · rintro ⟨hrank, hrest⟩
    exact ⟨ix.rank.toNat, by omega, by omega, hrest⟩

end Config

namespace Controller

variable {config : Config} {s s' : Controller config} {cmd : Command} {ops : List Op} {time : Nat}

/-! ## How long a controller waits -/

/-- From `time` on every command that the queues need can go. -/
structure Settled (s : Controller config) (time : Nat) : Prop where
  banks : s.channelState.DueBy config.HasBank CommandType.IsQueued time
  windows : s.channelState.WindowsBy time

theorem Settled.mono {time' : Nat} (h : s.Settled time) (hle : time ≤ time') : s.Settled time' :=
  ⟨h.banks.mono hle, h.windows.mono hle⟩

theorem Settled.same (h : s.Settled time) (hs : s.channelState.SameBanks s'.channelState) :
    s'.Settled time :=
  ⟨h.banks.same hs, h.windows.same hs⟩

/-- A command puts the others off by one of its gaps. -/
theorem Settled.update {sources : List CommandType} (h : s.Settled time)
    (hnonneg : ∀ d ∈ config.waits sources, 0 ≤ d) (hcmd : cmd.cmdType ∈ sources)
    (hle : s.clk + config.longestWait sources ≤ time)
    (hok : s.channelState.updateTimingAndStates config (Timing.ofConfig config) cmd s.clk =
      .ok s'.channelState) : s'.Settled time := by
  have hwait : ∀ d ∈ config.waits sources, addClk s.clk d ≤ time := by
    intro d hd
    have hlong := le_longest hd
    exact addClk_le (hnonneg d hd) (by rw [Config.longestWait] at hle; omega)
  refine ⟨h.banks.update (fun _ hix => hix) hok ?_, h.windows.update hok ?_ ?_⟩
  · intro ix _ ty hty d hd
    exact hwait d (List.mem_append_left _
      (Config.mem_gaps_of_governing hcmd (Config.mem_queueTypes hty) hd))
  · exact fun _ => hwait _ (by simp [Config.waits])
  · exact fun _ hgddr => hwait _ (by simp [Config.waits, hgddr])

/-- In a run nothing is put off by more than the longest gap. -/
theorem settled_of_run {cond : Controller config → Op → Prop}
    (hnonneg : ∀ d ∈ config.waits CommandType.all, 0 ≤ d)
    (hrun : ((controllerSystem config).restrict cond).Run ops s) :
    s.Settled (s.clk + config.longestWait CommandType.all) := by
  refine issue_invariant hrun (fun s => s.Settled (s.clk + config.longestWait CommandType.all))
    ?_ ⟨?_, ?_⟩
  · exact ⟨fun _ _ _ _ => Nat.zero_le _, fun _ _ ht => absurd ht List.not_mem_nil,
      fun _ _ ht => absurd ht List.not_mem_nil⟩
  · intro s s' hs hsame
    exact (hs.same hsame.banks).mono (Nat.add_le_add_right hsame.clk _)
  · intro o s cmd s' _ _ _ _ _ hs _ hissued
    rw [hissued.clk]
    exact hs.update hnonneg (CommandType.mem_all _) le_rfl hissued.channel

end Controller

/-! ## The preparation of a bank -/

namespace ChannelState

variable {ch ch' : ChannelState} {entries entries' : List Command} {ix : BankIndex}

/-- A queued command for the bank asks for the row that is open there. -/
def wanted (ch : ChannelState) (entries : List Command) (ix : BankIndex) : Bool :=
  entries.any fun e => e.bankIndex = ix && e.addr.row = (ch.bankStates ix).openRow

/-- The commands that the row buffer of a bank needs before a column command can go: an activate,
or a precharge and an activate. -/
def preparation (ch : ChannelState) (entries : List Command) (ix : BankIndex) : Nat :=
  if (ch.bankStates ix).isRowOpen then
    if (ch.bankStates ix).rowHitCount < 4 && ch.wanted entries ix then 0 else 2
  else 1

theorem preparation_le (ch : ChannelState) (entries : List Command) (ix : BankIndex) :
    ch.preparation entries ix ≤ 2 := by
  unfold preparation
  repeat' split
  all_goals omega

theorem preparation_closed (h : (ch.bankStates ix).state = .closed) :
    ch.preparation entries ix = 1 := by
  simp [preparation, BankState.isRowOpen, h]

/-- A row that is wanted stays wanted as long as the commands of its bank are queued. -/
theorem preparation_mono (hrow : (ch.bankStates ix).SameRow (ch'.bankStates ix))
    (hsub : ∀ e ∈ entries, e.bankIndex = ix → e ∈ entries') :
    ch'.preparation entries' ix ≤ ch.preparation entries ix := by
  have hwanted : ch.wanted entries ix = true → ch'.wanted entries' ix = true := by
    simp only [wanted, List.any_eq_true, Bool.and_eq_true, decide_eq_true_eq, hrow.openRow]
    rintro ⟨e, he, hbank, hopen⟩
    exact ⟨e, hsub e he hbank, hbank, hopen⟩
  unfold preparation
  rw [BankState.isRowOpen, BankState.isRowOpen, hrow.state, hrow.rowHitCount]
  split
  · cases hw : ch.wanted entries ix with
    | true => rw [hwanted hw]
    | false =>
        rw [Bool.and_false, if_neg Bool.false_ne_true]
        split <;> omega
  · exact le_rfl

end ChannelState

namespace Controller

variable {config : Config} {s s' : Controller config} {cmd entry : Command} {ops : List Op}
  {i : Nat} {floor : BankIndex → Nat}

theorem Sound.queue_of_bankIndex (hs : s.Sound) {e : Command} (he : e ∈ s.cmdQueue.entries)
    (hentry : entry ∈ s.cmdQueue.queues i) (hbank : e.bankIndex = entry.bankIndex) :
    e ∈ s.cmdQueue.queues i := by
  obtain ⟨j, _, hj⟩ := List.mem_flatMap.mp he
  have hsame : config.queueOf e.addr = config.queueOf entry.addr := by
    obtain ⟨hr, hg, hb⟩ := CommandQueue.bankIndex_eq_iff.mp hbank
    rw [Config.queueOf, Config.queueOf, hr, hg, hb]
  rw [(hs.entries j e hj).1, (hs.entries i entry hentry).1] at hsame
  exact hsame ▸ hj

/-- A row is closed only if no queued command wants it or the limit of hits is reached. -/
theorem Sound.preparation_of_arbitrate (hs : s.Sound) {before after : List Command}
    (hsplit : s.cmdQueue.queues i = before ++ entry :: after)
    (hopen : (s.channelState.bankStates entry.bankIndex).state = .opened)
    (harb : CommandQueue.arbitratePrecharge s.channelState before entry (entry :: after) = true) :
    s.channelState.preparation s.cmdQueue.entries entry.bankIndex = 2 := by
  rw [ChannelState.preparation, BankState.isRowOpen, hopen, decide_eq_true rfl, if_pos rfl]
  refine if_neg fun hwant => ?_
  simp only [ChannelState.wanted, Bool.and_eq_true, decide_eq_true_eq, List.any_eq_true] at hwant
  obtain ⟨hlimit, e, he, hbank, hrow⟩ := hwant
  have hmem : e ∈ before ++ entry :: after :=
    hsplit ▸ hs.queue_of_bankIndex he (by simp [hsplit]) hbank
  obtain ⟨hr, hg, hb⟩ := CommandQueue.bankIndex_eq_iff.mp hbank
  rw [CommandQueue.arbitratePrecharge] at harb
  split at harb
  · cases harb
  · rename_i hbefore
    simp only [List.any_eq_true, List.any_eq_false, Bool.and_eq_true, Bool.or_eq_true,
      Bool.not_eq_true', decide_eq_true_eq] at hbefore harb
    grind

/-- A closed bank has no row hits. -/
def Fresh (s : Controller config) : Prop :=
  ∀ ix, (s.channelState.bankStates ix).state ≠ .opened →
    (s.channelState.bankStates ix).rowHitCount = 0

/-- An open bank ends in a closed one, or the other way round, with fewer commands to prepare. -/
theorem Dispatched.preparation_lt (h : s.Healthy) (hfresh : s.Fresh)
    (hd : Dispatched s i entry cmd s') (hnot : cmd.isReadWrite = false) :
    s'.channelState.preparation s.cmdQueue.entries entry.bankIndex <
      s.channelState.preparation s.cmdQueue.entries entry.bankIndex := by
  obtain ⟨b, hb, hrow⟩ := hd.rowBuffer h
  rcases hd.cases h with ⟨hclosed, hty⟩ | ⟨_, rfl⟩ | ⟨hopen, hty⟩
  · -- the row that the bank opens is wanted
    rw [BankState.updateState, hclosed, hty] at hb
    cases hb
    have hwanted : s'.channelState.wanted s.cmdQueue.entries entry.bankIndex = true := by
      rw [ChannelState.wanted, List.any_eq_true]
      exact ⟨entry, hd.mem_entries, by simp [hrow.openRow, (hd.answer h).2.1]⟩
    have hzero := hfresh entry.bankIndex (by rw [hclosed]; decide)
    rw [ChannelState.preparation_closed hclosed, ChannelState.preparation, BankState.isRowOpen,
      hrow.state, hrow.rowHitCount, hwanted, hzero]
    simp
  · rw [hd.isReadWrite h] at hnot
    cases hnot
  · -- the row was not wanted any more
    obtain ⟨before, after, hyields, _⟩ := hd.queue
    rw [h.sound.preparation_of_arbitrate hyields.split hopen (hyields.precharge hty)]
    rw [BankState.updateState, hopen, hty] at hb
    cases hb
    rw [ChannelState.preparation_closed hrow.state]
    decide

/-! ## The work that is left -/

/-- The commands that the queued transactions can still cost, if the preparation of a bank is taken
to be no less than the given number. -/
def work (floor : BankIndex → Nat) (s : Controller config) : Nat :=
  4 * s.unifiedQueue.length + 3 * s.cmdQueue.entries.length +
    ∑ ix ∈ config.bankSet, max (s.channelState.preparation s.cmdQueue.entries ix) (floor ix)

theorem work_mono {floor' : BankIndex → Nat} (h : ∀ ix, floor ix ≤ floor' ix) :
    s.work floor ≤ s.work floor' :=
  Nat.add_le_add_left (Finset.sum_le_sum fun ix _ => max_le_max le_rfl (h ix)) _

theorem work_le_of_banks (hwait : s'.unifiedQueue = s.unifiedQueue)
    (hqueues : s'.cmdQueue.queues = s.cmdQueue.queues)
    (hbanks : ∀ ix, (s.channelState.bankStates ix).SameRow (s'.channelState.bankStates ix) ∨
      s'.channelState.preparation s.cmdQueue.entries ix ≤ floor ix) :
    s'.work floor ≤ s.work floor := by
  have hentries : s'.cmdQueue.entries = s.cmdQueue.entries := by
    rw [CommandQueue.entries, hqueues]
    rfl
  rw [work, work, hwait, hentries]
  refine Nat.add_le_add_left (Finset.sum_le_sum fun ix _ => max_le ?_ (le_max_right _ _)) _
  rcases hbanks ix with hrow | hle
  · exact le_max_of_le_left (ChannelState.preparation_mono hrow fun e he _ => he)
  · exact le_max_of_le_right hle

theorem Quiet.work_le (h : Quiet s s') (floor : BankIndex → Nat) :
    s'.work floor ≤ s.work floor := by
  refine work_le_of_banks h.unifiedQueue h.queues.queues fun ix => Or.inl ?_
  rw [h.banks.bankStates]
  exact ⟨rfl, rfl, rfl⟩

/-- One term of a sum grows, or falls, and no other grows. -/
theorem sum_add_le {ι : Type} [DecidableEq ι] {banks : Finset ι} {f g : ι → Nat} {b : ι} {m n : Nat}
    (hb : b ∈ banks) (hothers : ∀ i, i ≠ b → f i ≤ g i) (hself : f b + m ≤ g b + n) :
    ∑ i ∈ banks, f i + m ≤ ∑ i ∈ banks, g i + n := by
  have hrest := Finset.sum_le_sum fun i (hi : i ∈ banks.erase b) =>
    hothers i (Finset.ne_of_mem_erase hi)
  rw [← Finset.add_sum_erase banks f hb, ← Finset.add_sum_erase banks g hb]
  omega

/-- Every command from the queues lowers the work. -/
theorem Dispatched.work_add_le (floor : BankIndex → Nat) (h : s.Healthy) (hfresh : s.Fresh)
    (hd : Dispatched s i entry cmd s') :
    s'.work floor + (if floor entry.bankIndex = 0 then 1 else 0) ≤ s.work floor := by
  have hbank := Config.mem_bankSet.mpr (hd.hasBank h)
  obtain ⟨before, after, hyields, hqueues⟩ := hd.queue
  rw [work, work, hd.unifiedQueue]
  cases hcol : cmd.isReadWrite with
  | false =>
      have hentries : s'.cmdQueue.entries = s.cmdQueue.entries := by
        rw [CommandQueue.entries, hqueues, hcol, if_neg Bool.false_ne_true]
        rfl
      have hprep := hd.preparation_lt h hfresh hcol
      have hsum := sum_add_le (n := 0) (m := if floor entry.bankIndex = 0 then 1 else 0)
        (g := fun ix => max (s.channelState.preparation s.cmdQueue.entries ix) (floor ix)) hbank
        (fun ix hne => max_le_max
          (ChannelState.preparation_mono (hd.sameRow h hne) fun e he _ => he) (le_refl (floor ix)))
        (by split <;> omega)
      rw [hentries]
      omega
  | true =>
      have hperm : s.cmdQueue.entries.Perm (entry :: s'.cmdQueue.entries) := by
        rw [CommandQueue.entries, CommandQueue.entries, hqueues, if_pos hcol]
        exact Library.flatMap_pop_perm hd.turn.1 hyields.split
      have hlength := hperm.length_eq
      rw [List.length_cons] at hlength
      have hle := s'.channelState.preparation_le s'.cmdQueue.entries entry.bankIndex
      have hsum := sum_add_le (n := 2) (m := 0)
        (f := fun ix => max (s'.channelState.preparation s'.cmdQueue.entries ix) (floor ix))
        (g := fun ix => max (s.channelState.preparation s.cmdQueue.entries ix) (floor ix)) hbank
        (fun ix hne => max_le_max (ChannelState.preparation_mono (hd.sameRow h hne)
          fun e he hix => (List.mem_cons.mp (hperm.subset he)).resolve_left fun heq =>
            hne (by rw [← hix, heq])) le_rfl)
        (by omega)
      split <;> omega

theorem Scheduled.work_le (hunified : config.unifiedQueue = true) (floor : BankIndex → Nat)
    (h : Scheduled s s') :
    s'.unifiedQueue.length ≤ s.unifiedQueue.length ∧
      s'.work floor + s.unifiedQueue.length ≤ s.work floor + s'.unifiedQueue.length := by
  cases h with
  | held => exact ⟨le_rfl, le_rfl⟩
  | write _ hsplit | read _ hsplit => rw [hunified] at hsplit; cases hsplit
  | @unified before after it _ hsplit hacc _ =>
      have hperm : (s.cmdQueue.addCommand (transToCommand config it)).entries.Perm
          (transToCommand config it :: s.cmdQueue.entries) := by
        rw [CommandQueue.entries, CommandQueue.addCommand_queues hacc]
        exact Library.flatMap_push_perm (Config.queueOf_lt (hasBank_transToCommand it)) _ _
      have hsum : ∑ ix ∈ config.bankSet, max (s.channelState.preparation
            (s.cmdQueue.addCommand (transToCommand config it)).entries ix) (floor ix) ≤
          ∑ ix ∈ config.bankSet,
            max (s.channelState.preparation s.cmdQueue.entries ix) (floor ix) :=
        Finset.sum_le_sum fun ix _ => max_le_max (ChannelState.preparation_mono ⟨rfl, rfl, rfl⟩
          fun e he _ => hperm.mem_iff.mpr (List.mem_cons_of_mem _ he)) le_rfl
      have hlength := hperm.length_eq
      have hwait := congrArg List.length hsplit
      simp only [List.length_cons, List.length_append] at hlength hwait
      simp only [work, List.length_append]
      omega

/-- With empty command queues a waiting transaction is scheduled. -/
theorem scheduleTransaction_length (hunified : config.unifiedQueue = true)
    (hsize : 0 < config.cmdQueueSize) (hempty : s.cmdQueue.entries = [])
    (hne : s.unifiedQueue ≠ []) :
    s.scheduleTransaction.unifiedQueue.length < s.unifiedQueue.length := by
  obtain ⟨it, rest, hsplit⟩ := List.exists_cons_of_ne_nil hne
  have hstart : s.startDraining = s := by simp [startDraining, hunified]
  have hqueue : s.cmdQueue.queues (config.queueOf (transToCommand config it).addr) = [] :=
    List.flatMap_eq_nil_iff.mp hempty _
      (List.mem_range.mpr (Config.queueOf_lt (hasBank_transToCommand it)))
  have hacc : s.cmdQueue.willAcceptCommand (transToCommand config it).addr = true := by
    rw [CommandQueue.willAcceptCommand, hqueue]
    exact decide_eq_true hsize
  have hfirst : firstAccepted s.cmdQueue [] s.startDraining.scheduledQueue =
      some ([], it, rest) := by
    rw [hstart, scheduledQueue, if_pos hunified, hsplit, firstAccepted, if_pos hacc]
  simp [scheduleTransaction_of_some hfirst, hunified, hstart, setScheduledQueue, hsplit]

/-- Scheduling a transaction lowers the work, and with empty command queues one is scheduled. -/
theorem endTick_work (floor : BankIndex → Nat) (hunified : config.unifiedQueue = true)
    (hsize : 0 < config.cmdQueueSize) (hs : SplitQueues s.readQueue s.writeBuffer) :
    s.endTick.work floor ≤ s.work floor ∧ (s.cmdQueue.entries = [] → s.unifiedQueue ≠ [] →
      s.endTick.work floor < s.work floor) := by
  have hsched : Scheduled s.updateIdleCycles s.updateIdleCycles.scheduleTransaction :=
    scheduleTransaction_spec hs
  have hboth := hsched.work_le hunified floor
  obtain ⟨hle, hwork⟩ : s.endTick.unifiedQueue.length ≤ s.unifiedQueue.length ∧
    s.endTick.work floor + s.unifiedQueue.length ≤ s.work floor + s.endTick.unifiedQueue.length :=
    hboth
  refine ⟨by omega, fun hempty hne => ?_⟩
  have hlt : s.endTick.unifiedQueue.length < s.unifiedQueue.length :=
    scheduleTransaction_length (s := s.updateIdleCycles) hunified hsize hempty hne
  omega

end Controller

end Dramsim
