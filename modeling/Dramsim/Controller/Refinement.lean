import Dramsim.Channel.ActivationWindow
import Dramsim.Channel.Bursts
import Dramsim.Controller.Ticks

/-!
# A controller drives its channel by runs of the channel

Seen from the channel, a controller without PIM commands makes requests, applies
the answers, and does nothing else: `refines_of_run` finds the run of the channel
behind every run of the controller.  What is proved of the channel then holds of the
commands that a controller has issued.
-/

namespace Dramsim

namespace Controller

variable {config : Config} {s s' : Controller config}

/-- The channel of the controller is at the end of a run with its commands. -/
structure Refines (s : Controller config) : Prop where
  run : ∃ actions, (ordinaryChannelSystem config).Run actions ⟨s.channelState, s.issuedCommands⟩
  clocks : ∀ e ∈ s.issuedCommands, e.1 ≤ s.clk

theorem Refines.init : Refines ({} : Controller config) :=
  ⟨⟨[], .start⟩, fun _ he => absurd he List.not_mem_nil⟩

/-- Steps that issue nothing. -/
theorem Refines.idle (h : s.Refines) (hbanks : s.channelState.SameBanks s'.channelState)
    (hissued : s'.issuedCommands = s.issuedCommands) (hclk : s.clk ≤ s'.clk) : s'.Refines := by
  obtain ⟨actions, hrun⟩ := h.run
  have hstep : (ordinaryChannelSystem config).step ⟨s.channelState, s.issuedCommands⟩ .environment
      ⟨s'.channelState, s'.issuedCommands⟩ := ⟨⟨hbanks, hissued⟩, trivial⟩
  refine ⟨⟨_, hrun.step hstep⟩, fun e he => ?_⟩
  rw [hissued] at he
  exact Nat.le_trans (h.clocks e he) hclk

/-- A step that issues the answer to a request. -/
theorem Refines.issued {req cmd : Command} (h : s.Refines) (hreq : config.Request req)
    (hord : req.cmdType.isPimColumn = false)
    (hready : s.channelState.getReadyCommand config req s.clk = .ok (some cmd))
    (hissue : Issued s cmd s') : s'.Refines := by
  have hissued := hissue.issuedCommands
  obtain ⟨actions, hrun⟩ := h.run
  have hstep : (ordinaryChannelSystem config).step ⟨s.channelState, s.issuedCommands⟩
      (.command req s.clk) ⟨s'.channelState, s'.issuedCommands⟩ :=
    ⟨⟨cmd, ⟨hreq, h.clocks, hready⟩, hissue.channel, hissued⟩, hord⟩
  refine ⟨⟨_, hrun.step hstep⟩, fun e he => ?_⟩
  rw [hissued, List.mem_append, List.mem_singleton] at he
  rw [hissue.clk]
  rcases he with he | rfl
  · exact h.clocks e he
  · exact Nat.le_refl _

/-! ## The refinement -/

theorem Refines.step {o : Controller config} (h : s.Refines) (hs : s.Sound) (hpim : s.pimCmds = [])
    (hstep : Step o s s') : s'.Refines := by
  cases hstep with
  | quiet hquiet =>
      refine h.idle hquiet.banks ?_ (Nat.le_of_eq hquiet.clk.symm)
      rw [issuedCommands, hquiet.log, issuedCommands]
  | @serve s₁ _ cmd hrem hissue =>
      obtain ⟨_, _, _, ⟨it, rfl⟩, hready, _⟩ := hs.offered hrem.column hrem.offered
      have hask : config.Request (transToCommand config it) ∧ _ := request_transToCommand it
      obtain ⟨_, _, hframe⟩ := hrem.spec hs
      have h₁ : s₁.Refines := by
        refine h.idle ?_ ?_ ?_ <;> rw [hframe]
        · exact .refl _
        · simp [issuedCommands, Event.command?]
      refine h₁.issued hask.1 hask.2 ?_ (issueCommand_spec hissue)
      rw [hframe]
      exact hready
  | discard hrem _ =>
      obtain ⟨_, _, hframe⟩ := hrem.spec hs
      refine h.idle ?_ ?_ ?_ <;> rw [hframe]
      · exact .refl _
      · simp [issuedCommands, Event.command?]
  | answer hans hissue =>
      obtain ⟨_, req, clk, hask, hclk, hready⟩ := hans
      obtain ⟨hreq, hord⟩ := hask.request hs
      have hnow : clk = s.clk := hclk.elim id fun hq => hq.trans hs.clock
      exact h.issued hreq hord (hnow ▸ hready) (issueCommand_spec hissue)
  | pim hdue _ =>
      have hmem := hdue.1
      rw [hpim] at hmem
      cases hmem
  | schedule =>
      have hsched := scheduleTransaction_spec hs.split
      refine h.idle ?_ ?_ (Nat.le_of_eq hsched.clk.symm)
      · rw [hsched.channelState]
        exact .refl _
      · rw [issuedCommands, hsched.log, issuedCommands]
  | advance => exact h.idle (.refl _) rfl (Nat.le_succ _)

theorem Refines.sameDevice (h : s.Refines) (hsame : SameDevice s s')
    (hissued : s'.issuedCommands = s.issuedCommands) : s'.Refines := by
  refine h.idle ?_ hissued (Nat.le_of_eq hsame.clk.symm)
  rw [hsame.channelState]
  exact .refl _

theorem Refines.addTransaction (h : s.Refines) (it : Transaction) :
    (s.addTransaction it).Refines := by
  obtain ⟨forwarded, hlog, _⟩ := s.addTransaction_log it
  refine h.sameDevice (s.addTransaction_sameDevice it) ?_
  simp [issuedCommands, hlog, Event.command?]

theorem Refines.returnDoneTrans (h : s.Refines) (clk : Nat) :
    (s.returnDoneTrans clk).2.Refines := by
  refine h.sameDevice (s.returnDoneTrans_sameDevice clk) ?_
  rcases s.returnDoneTrans_log clk with hlog | ⟨_, _, hlog⟩
  · rw [issuedCommands, hlog, issuedCommands]
  · simp [issuedCommands, hlog, Event.command?]

theorem Refines.preservesOrdinary :
    PreservesOrdinary (fun (_ : Controller config) op => op.IsOrdinary) Refines where
  ordinary := fun _ _ hop => hop
  add := fun _ it _ hinv _ _ => hinv.addTransaction it
  done := fun _ clk _ hinv => hinv.returnDoneTrans clk
  step := fun _ _ _ _ _ _ hs hpim hinv hstep => hinv.step hs hpim hstep

/-- Behind every run of a controller without PIM commands is a run of its channel. -/
theorem refines_of_run {ops : List Op} (h : (ordinarySystem config).Run ops s) : s.Refines :=
  (ordinary_invariant h Refines.init Refines.preservesOrdinary).2.2

/-! ## What the channel guarantees -/

/-- No two data bursts collide: the intervals of any two column commands that a
controller has issued are disjoint, whatever their ranks and banks and also where
both were issued in one cycle. The gaps are exact integers, which are those of the source as long
as they are values of `int`. -/
theorem bursts_disjoint (config : Config) (hfit : config.BurstsFit) {ops : List Op}
    {s : Controller config} (h : (ordinarySystem config).Run ops s) :
    (s.issuedCommands.filter fun e => e.2.isReadWrite).Pairwise fun e e' =>
      config.burst e ∩ config.burst e' = ∅ := by
  obtain ⟨actions, hrun⟩ := (refines_of_run h).run
  have hapart := apart_of_run hfit hrun
  rw [List.pairwise_filter]
  exact hapart.imp fun hap he he' => hap.disjoint he he'

/-- Eight writes to one rank of the HBM2 device and a read of the other. -/
theorem bursts_disjoint_two_ranks :
    ∃ s : Controller .hbm2, ∃ ops, (ordinarySystem .hbm2).Run ops s ∧
      (s.issuedCommands.filter fun e => e.2.isReadWrite).length = 9 ∧
      (s.issuedCommands.filter fun e => e.2.isReadWrite).Pairwise fun e e' =>
        Config.hbm2.burst e ∩ Config.hbm2.burst e' = ∅ := by
  have hfit : Config.hbm2.BurstsFit := by
    constructor <;> decide
  have hsome : ((replay .hbm2 ((List.range 9).map (fun i => .add ⟨64 * i, true, 0, 0⟩) ++
      List.replicate 10 .tick ++ [.add ⟨131072, false, 0, 0⟩] ++ List.replicate 26 .tick)).map
      fun s => (s.issuedCommands.filter fun e => e.2.isReadWrite).length) = some 9 := by
    decide +kernel
  obtain ⟨s, hs, hlen⟩ := Option.map_eq_some_iff.mp hsome
  have hrun := ordinary_of_replay hs (by decide)
  exact ⟨s, _, hrun, hlen, bursts_disjoint .hbm2 hfit hrun⟩

end Controller

end Dramsim
