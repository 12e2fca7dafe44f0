import Dramsim.Controller.Ticks

/-!
# Recovery of a bank from its refresh

`Timing::Timing` files the gaps that follow a `REFRESH_BANK` under `same_rank`, a
table that `UpdateTiming` consults for commands of a whole rank only.  For the bank
that is refreshed it consults `same_bank`, whose row is empty.  So a bank recovers
only while nothing waits for it.
-/

namespace Dramsim

/-- The commands that a bank must not take before it has recovered. -/
def CommandType.needsRecovery : CommandType → Bool
  | .activate | .pimActivate | .refreshBank | .srefEnter => true
  | _ => false

/-- A command that reaches a bank keeps `tRFCb` cycles to a refresh of it. -/
def Config.KeepsRecovery (config : Config) (e e' : Nat × Command) : Prop :=
  e.2.cmdType = .refreshBank → e'.2.cmdType.needsRecovery = true →
    config.Reaches e'.2 e.2.bankIndex → (e.1 : Int) + config.tRFCb ≤ e'.1

namespace Controller

variable {config : Config} {o s : Controller config} {cmd : Command}

/-! ## Nothing waits for a bank that recovers -/

/-- The bank has been refreshed less than `tRFCb` cycles ago. -/
def recovering (s : Controller config) (ix : BankIndex) : Bool :=
  s.issuedCommands.any fun e =>
    e.2.cmdType = .refreshBank && e.2.bankIndex = ix && (s.clk : Int) < e.1 + config.tRFCb

/-- At the start of a tick no queued command, no `PIM_ACTIVATE` of the streams and no
refresh that waits or is due goes to a bank that recovers, and its rank does not fall
asleep. -/
def leavesRecovering (s : Controller config) : Op → Bool
  | .tick =>
      (s.cmdQueue.entries.all fun cmd => !s.recovering cmd.bankIndex) &&
      (s.pimCmds.all fun cmd => cmd.cmdType ≠ .pimActivate || !s.recovering cmd.bankIndex) &&
      (s.channelState.refreshQ.all fun req =>
        req.cmdType ≠ .refreshBank || !s.recovering req.bankIndex) &&
      (!s.refresh.isDue || !s.recovering s.refresh.nextIndex) &&
      (!config.enableSelfRefresh || (List.range config.ranks).all fun (i : Nat) =>
        !s.cmdQueue.rankQEmpty i || (config.rankBanks i).all fun ix => !s.recovering ix)
  | _ => true

/-- The same, as the facts that the proof uses. -/
structure LeavesRecovering (s : Controller config) : Prop where
  queues : ∀ i < config.numQueues, ∀ cmd ∈ s.cmdQueue.queues i, s.recovering cmd.bankIndex = false
  pim : ∀ cmd ∈ s.pimCmds, cmd.cmdType = .pimActivate → s.recovering cmd.bankIndex = false
  requests : ∀ req ∈ s.channelState.refreshQ, req.cmdType = .refreshBank →
    s.recovering req.bankIndex = false
  due : s.refresh.isDue = true → s.recovering s.refresh.nextIndex = false
  sleep : config.enableSelfRefresh = true → ∀ i : Nat, i < config.ranks →
    s.cmdQueue.rankQEmpty i = true → ∀ ix ∈ config.rankBanks i, s.recovering ix = false

theorem LeavesRecovering.of_eq_true (h : s.leavesRecovering .tick = true) : s.LeavesRecovering := by
  simp only [leavesRecovering, Bool.and_eq_true, List.all_eq_true, Bool.or_eq_true,
    Bool.not_eq_true', List.mem_range, decide_eq_true_eq, ne_eq] at h
  obtain ⟨⟨⟨⟨hqueues, hpim⟩, hreq⟩, hdue⟩, hsleep⟩ := h
  refine ⟨fun i hi cmd hcmd => hqueues cmd ?_, fun cmd hcmd hty => ?_, fun req hmem hty => ?_,
    fun h => ?_, fun hs i hi hempty ix hix => ?_⟩
  · exact List.mem_flatMap.mpr ⟨i, List.mem_range.mpr hi, hcmd⟩
  · exact (hpim cmd hcmd).resolve_left fun hne => hne hty
  · exact (hreq req hmem).resolve_left fun hne => hne hty
  · rw [h] at hdue
    exact hdue.resolve_left (by decide)
  · rw [hs] at hsleep
    have hrank := hsleep.resolve_left (by decide) i hi
    rw [hempty] at hrank
    exact hrank.resolve_left (by decide) ix hix

/-- A refresh of a bank that does not recover lies back far enough. -/
theorem le_of_recovering {e : Nat × Command} (he : e ∈ s.issuedCommands)
    (hty : e.2.cmdType = .refreshBank) (h : s.recovering e.2.bankIndex = false) :
    (e.1 : Int) + config.tRFCb ≤ s.clk := by
  rw [recovering, List.any_eq_false] at h
  have hnot := h e he
  simp only [hty, decide_true, Bool.true_and, decide_eq_true_eq] at hnot
  omega

/-! ## What is issued to a bank -/

/-- A request is answered by a command that needs a recovered bank only if nothing
forbids it. -/
theorem Wanted.recovered {ix : BankIndex} (hs : s.Sound) (hin : Within o s)
    (ho : o.LeavesRecovering) (h : s.Wanted cmd) (hty : cmd.cmdType.needsRecovery = true)
    (hreach : config.Reaches cmd ix) : o.recovering ix = false := by
  obtain ⟨hcol, req, clk, hwants, _, hready⟩ := h
  have hans := ChannelState.getReadyCommand_spec hready
  cases hans with
  | bankOfRank hrank hmem hdue hne haddr =>
      -- an open bank of the rank is closed first
      rcases BankState.requiredType_of_isRankCMD hdue.1 hrank with ⟨_, he⟩ | ⟨_, he⟩
      · exact absurd he hne
      · rw [he] at hty
        cases hty
  | wholeRank hrank _ =>
      rw [Config.Reaches, if_pos hrank] at hreach
      cases hwants with
      | refresh hmem =>
          have href := (hs.requests cmd hmem).2
          rw [Command.isRefresh] at href
          cases hc : cmd.cmdType <;> rw [Command.isRankCMD] at hrank <;>
            simp [hc, CommandType.isRefresh, CommandType.isRankCMD,
              CommandType.needsRecovery] at href hrank hty
      | queued _ hmem =>
          obtain ⟨_, it, rfl⟩ := hs.entries _ cmd hmem
          rw [Command.isReadWrite, transToCommand, columnType_isReadWrite] at hcol
          cases hcol
      | @sleep i hi hsleep hempty =>
          exact ho.sleep hsleep i hi (hin.rankQEmpty ▸ hempty) ix hreach
  | bank hrank hdue haddr _ _ =>
      have hix : config.Reaches cmd ix → cmd.isRankCMD = false → ix = req.bankIndex := by
        intro hreach hnot
        rw [Config.Reaches, hnot] at hreach
        rw [if_neg Bool.false_ne_true, Command.bankIndex, haddr] at hreach
        exact hreach
      cases hwants with
      | refresh hmem =>
          have href := (hs.requests req hmem).2
          have hbank : req.cmdType = .refreshBank := by
            rw [Command.isRefresh] at href
            cases hc : req.cmdType <;> rw [Command.isRankCMD] at hrank <;>
              simp [hc, CommandType.isRefresh, CommandType.isRankCMD] at href hrank
          have hcmd : cmd.isRankCMD = false := by
            by_contra hrankcmd
            rw [Bool.not_eq_false] at hrankcmd
            obtain ⟨_, hcolumn, _⟩ := BankState.requiredType_isRankCMD hdue.1 hrank hrankcmd
            rw [hbank] at hcolumn
            cases hcolumn
          rw [hix hreach hcmd]
          rcases hin.requests req hmem with hold | ⟨hdue, hnext⟩
          · exact ho.requests req hold hbank
          · rw [hnext hbank]
            exact ho.due hdue
      | queued hi hmem =>
          have hcmd : cmd.isRankCMD = false := by
            by_contra hrankcmd
            rw [Bool.not_eq_false] at hrankcmd
            obtain ⟨_, _, hexit⟩ := BankState.requiredType_isRankCMD hdue.1 hrank hrankcmd
            rw [hexit] at hty
            cases hty
          rw [hix hreach hcmd]
          exact ho.queues _ hi req (hin.queues _ req hmem)
      | sleep => cases hrank

theorem Issues.keepsRecovery (hs : s.Sound) (hpim : o.Streams) (hin : Within o s)
    (ho : o.LeavesRecovering) (h : Issues o s cmd) :
    ∀ e ∈ s.issuedCommands, config.KeepsRecovery e (s.clk, cmd) := by
  intro e he hrefresh hty hreach
  have hold : e ∈ o.issuedCommands → o.recovering e.2.bankIndex = false →
      (e.1 : Int) + config.tRFCb ≤ s.clk := fun hmem hrec =>
    hin.clk ▸ le_of_recovering hmem hrefresh hrec
  cases h with
  | serve _ hcol _ _ =>
      rw [Command.isReadWrite] at hcol
      cases hc : cmd.cmdType <;> simp [hc, CommandType.isReadWrite, CommandType.isRead,
        CommandType.isWrite, CommandType.needsRecovery] at hcol hty
  | answer hwanted hsince =>
      rcases hsince.mem he with hmem | hcol
      · exact hold hmem (hwanted.recovered hs hin ho hty hreach)
      · rw [Command.isReadWrite, hrefresh] at hcol
        cases hcol
  | pim hdue hsince hmem =>
      rcases hsince.mem he with hemem | hstream
      · have hcmd : cmd.cmdType = .pimActivate := by
          rcases hpim cmd hmem with hp | hp
          · cases hc : cmd.cmdType <;> simp [hc, CommandType.isPim, CommandType.isPimColumn,
              CommandType.needsRecovery] at hp hty ⊢
          · rw [hp] at hty
            cases hty
        have hix : e.2.bankIndex = cmd.bankIndex := by
          rw [Config.Reaches, Command.isRankCMD, hcmd] at hreach
          exact hreach
        exact hold hemem (hix ▸ ho.pim cmd hmem hcmd)
      · rcases hpim e.2 hstream with hp | hp <;> rw [hrefresh] at hp <;> cases hp

/-- A bank that has been refreshed recovers, in every run in which nothing waits for
it meanwhile. -/
theorem refreshed_banks_recover (config : Config) {ops : List Op} {s : Controller config}
    (h : ((controllerSystem config).restrict fun s op =>
      s.leavesRecovering op = true).Run ops s) :
    s.issuedCommands.Pairwise fun e e' =>
      e.2.cmdType = .refreshBank → e'.2.cmdType.needsRecovery = true →
        config.Reaches e'.2 e.2.bankIndex → (e.1 : Int) + config.tRFCb ≤ e'.1 := by
  refine issue_invariant h (fun s => s.issuedCommands.Pairwise config.KeepsRecovery)
    List.Pairwise.nil ⟨fun s s' hinv hsame => ?_, ?_⟩
  · rw [hsame.issued]
    exact hinv
  · intro o s cmd s' hcond ho hpim hs hin hinv hissues hissue
    rw [hissue.issuedCommands, List.pairwise_append]
    refine ⟨hinv, List.pairwise_singleton _ _, fun e he e' he' => ?_⟩
    rw [List.mem_singleton.mp he']
    exact hissues.keepsRecovery hs hpim hin (.of_eq_true hcond) e he

/-- A device with `tRFCb = 2`: a bank is refreshed at clock 4, and a read that arrives
in time for clock 6 opens it then. -/
theorem refreshed_banks_recover_late_read :
    ∃ s : Controller { Config.defaults with
        refreshPolicy := .bankLevelStaggered, tREFIb := 4, tRFCb := 2 },
      (s.issuedCommands.map fun e => (e.1, e.2.cmdType)) = [(4, .refreshBank), (6, .activate)] ∧
      s.issuedCommands.Pairwise fun e e' =>
        e.2.cmdType = .refreshBank → e'.2.cmdType.needsRecovery = true →
          Config.Reaches { Config.defaults with
            refreshPolicy := .bankLevelStaggered, tREFIb := 4, tRFCb := 2 } e'.2 e.2.bankIndex →
          (e.1 : Int) + 2 ≤ e'.1 := by
  have hsome : ((replayWhere (fun (s : Controller { Config.defaults with
        refreshPolicy := .bankLevelStaggered, tREFIb := 4, tRFCb := 2 }) op =>
      s.leavesRecovering op)
      (List.replicate 5 .tick ++ [.add ⟨0, false, 0, 0⟩] ++ List.replicate 2 .tick)).map
      fun s => s.issuedCommands.map fun e => (e.1, e.2.cmdType)) =
      some [(4, .refreshBank), (6, .activate)] := by
    decide +kernel
  obtain ⟨s, hs, hissued⟩ := Option.map_eq_some_iff.mp hsome
  exact ⟨s, hissued, refreshed_banks_recover _ (run_of_replayWhere hs)⟩

/-- With the default `tRFCb = 20`: a read waits for bank 0 when that bank is refreshed
at clock 20, and the bank is activated in the next cycle. -/
theorem refreshed_bank_activated_early :
    ∃ s : Controller { Config.defaults with refreshPolicy := .bankLevelStaggered, tREFIb := 20 },
      (∃ ops, (controllerSystem _).Run ops s) ∧
      (s.issuedCommands.map fun e => (e.1, e.2.cmdType, e.2.bankIndex)) =
        [(20, .refreshBank, ⟨0, 0, 0⟩), (21, .activate, ⟨0, 0, 0⟩)] := by
  have hsome : ((replay { Config.defaults with
      refreshPolicy := .bankLevelStaggered, tREFIb := 20 }
      (List.replicate 19 .tick ++ [.add ⟨0, false, 0, 0⟩] ++ List.replicate 3 .tick)).map
      fun s => s.issuedCommands.map fun e => (e.1, e.2.cmdType, e.2.bankIndex)) =
      some [(20, .refreshBank, ⟨0, 0, 0⟩), (21, .activate, ⟨0, 0, 0⟩)] := by
    decide +kernel
  obtain ⟨s, hs, hissued⟩ := Option.map_eq_some_iff.mp hsome
  exact ⟨s, ⟨_, (run_of_replay (fun _ => True) hs fun _ _ => trivial).of_restrict⟩, hissued⟩

end Controller

end Dramsim
