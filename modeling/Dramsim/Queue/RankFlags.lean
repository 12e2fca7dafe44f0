import Dramsim.Library.System
import Dramsim.Queue.Selection

/-!
# The ranks with queued commands

`rank_q_empty` should say of each rank whether a queue holds a command of it.  `AddCommand` clears
the flag of the rank of an accepted command, and no other function writes it: a command that leaves
its queue takes it out of `queues_` only.

So the flag of a rank says that no command of it has ever been accepted (`Flagged`).  It tells the
truth about the queues until the last of the accepted commands has left them, and is wrong from then
on until another command of the rank comes (`rank_q_empty_iff`).
-/

namespace Dramsim

open Library

/-- The operations on the command queues.  The channel that the selection reads may be any. -/
inductive QueueOp where
  | addCommand (cmd : Command)
  | getCommandToIssue (channel : ChannelState)
  | finishRefresh (channel : ChannelState)
  | clockTick

namespace CommandQueue

variable {config : Config} {q q' : CommandQueue config} {accepted : List Command} {cmd : Command}

/-- Command queues on their own. -/
def queueSystem (config : Config) : System (CommandQueue config) QueueOp where
  init := {}
  step q op q' := match op with
    | .addCommand cmd => q' = q.addCommand cmd
    | .getCommandToIssue channel => ∃ cmd, q.getCommandToIssue channel = .ok (cmd, q')
    | .finishRefresh channel => ∃ cmd, q.finishRefresh channel = .ok (cmd, q')
    | .clockTick => q' = q.clockTick

/-- The command that an operation adds. -/
def acceptedBy (q : CommandQueue config) : QueueOp → List Command
  | .addCommand cmd => if q.willAcceptCommand cmd.addr then [cmd] else []
  | .getCommandToIssue _ | .finishRefresh _ | .clockTick => []

/-- The flags, and the commands of the queues, come from the accepted commands. -/
structure Flagged (q : CommandQueue config) (accepted : List Command) : Prop where
  cleared : ∀ rank, q.rankQEmpty rank = false ↔ ∃ cmd ∈ accepted, cmd.addr.rank = rank
  queued : ∀ i, ∀ cmd ∈ q.queues i, cmd ∈ accepted

namespace Flagged

theorem init : Flagged ({} : CommandQueue config) [] :=
  ⟨fun rank => by simp, fun i cmd hcmd => absurd hcmd List.not_mem_nil⟩

theorem of_same (h : Flagged q accepted) (hsame : SameQueues q q') : Flagged q' accepted := by
  constructor
  · rw [hsame.rankQEmpty]
    exact h.cleared
  · rw [hsame.queues]
    exact h.queued

theorem addCommand (h : Flagged q accepted) (cmd : Command) :
    Flagged (q.addCommand cmd) (accepted ++ q.acceptedBy (.addCommand cmd)) := by
  by_cases haccept : q.willAcceptCommand cmd.addr = true
  · have hseen : q.acceptedBy (.addCommand cmd) = [cmd] := if_pos haccept
    rw [hseen]
    refine ⟨fun rank => ?_, fun i c hc => ?_⟩
    · rw [addCommand_rankQEmpty haccept]
      by_cases hrank : rank = cmd.addr.rank
      · subst hrank
        simp
      · rw [Function.update_of_ne hrank, h.cleared]
        simp [Ne.symm hrank]
    · rw [List.mem_append, List.mem_singleton]
      exact (mem_addCommand_queues hc).imp (h.queued i c) And.left
  · have hseen : q.acceptedBy (.addCommand cmd) = [] := if_neg haccept
    rw [hseen, List.append_nil, addCommand_of_full haccept]
    exact h

/-- A command leaves its queue, and the flag of its rank stays as it is. -/
theorem eraseRWCommand (h : Flagged q accepted) (hok : q.eraseRWCommand cmd = .ok q') :
    Flagged q' accepted := by
  unfold CommandQueue.eraseRWCommand at hok
  dsimp only at hok
  split at hok
  · cases hok
    refine ⟨h.cleared, fun i c hc => ?_⟩
    dsimp only at hc
    by_cases hi : i = config.queueOf cmd.addr
    · subst hi
      rw [Function.update_self] at hc
      exact h.queued _ c (List.mem_of_mem_eraseP hc)
    · rw [Function.update_of_ne hi] at hc
      exact h.queued i c hc
  · cases hok

theorem getCommandToIssue {channel : ChannelState} {answer : Option Command}
    (h : Flagged q accepted) (hok : q.getCommandToIssue channel = .ok (answer, q')) :
    Flagged q' accepted := by
  have hselects := (getCommandToIssue_ensures channel q).of_ok hok
  cases answer with
  | none => exact h.of_same hselects
  | some cmd =>
      obtain ⟨-, hcolumn, hother⟩ := hselects
      cases hrw : cmd.isReadWrite with
      | false => exact h.of_same (hother hrw)
      | true =>
          obtain ⟨q₀, hsame, herase⟩ := hcolumn hrw
          exact (h.of_same hsame).eraseRWCommand herase

theorem step {op : QueueOp} (h : Flagged q accepted) (hstep : (queueSystem config).step q op q') :
    Flagged q' (accepted ++ q.acceptedBy op) := by
  cases op with
  | addCommand cmd =>
      cases hstep
      exact h.addCommand cmd
  | getCommandToIssue channel =>
      obtain ⟨cmd, hok⟩ := hstep
      rw [acceptedBy, List.append_nil]
      exact h.getCommandToIssue hok
  | finishRefresh channel =>
      obtain ⟨cmd, hok⟩ := hstep
      rw [acceptedBy, List.append_nil]
      exact h.of_same ((finishRefresh_ensures channel q).of_ok hok).1
  | clockTick =>
      cases hstep
      rw [acceptedBy, List.append_nil]
      exact ⟨h.cleared, h.queued⟩

end Flagged

theorem flagged_run {ops : List QueueOp}
    (hrun : ((queueSystem config).observe acceptedBy).Run ops (q, accepted)) :
    Flagged q accepted := by
  refine hrun.invariant (fun p => Flagged p.1 p.2) .init ?_
  rintro ⟨q, accepted⟩ op ⟨q', accepted'⟩ h ⟨hstep, hseen⟩
  dsimp only at h hstep hseen ⊢
  rw [hseen]
  exact h.step hstep

/-- In every run of the command queues, next to the commands they have accepted: the flag of a rank
says that no command of it has been accepted, so that none is queued.  It says whether one is queued
if and only if none has been accepted or not all of them have left. -/
theorem rank_q_empty_iff {ops : List QueueOp}
    (hrun : ((queueSystem config).observe acceptedBy).Run ops (q, accepted)) (rank : Int) :
    (q.rankQEmpty rank = true ↔ ∀ cmd ∈ accepted, cmd.addr.rank ≠ rank) ∧
    (q.rankQEmpty rank = true → ∀ cmd ∈ q.entries, cmd.addr.rank ≠ rank) ∧
    ((q.rankQEmpty rank = true ↔ ∀ cmd ∈ q.entries, cmd.addr.rank ≠ rank) ↔
      (∀ cmd ∈ accepted, cmd.addr.rank ≠ rank) ∨ ∃ cmd ∈ q.entries, cmd.addr.rank = rank) := by
  have h := flagged_run hrun
  have hflag : q.rankQEmpty rank = true ↔ ∀ cmd ∈ accepted, cmd.addr.rank ≠ rank := by
    rw [← Bool.not_eq_false, h.cleared]
    simp only [not_exists, not_and, ne_eq]
  have hnone : q.rankQEmpty rank = true → ∀ cmd ∈ q.entries, cmd.addr.rank ≠ rank := by
    intro hempty cmd hcmd
    obtain ⟨i, -, hqueued⟩ := List.mem_flatMap.mp hcmd
    exact hflag.mp hempty cmd (h.queued i cmd hqueued)
  refine ⟨hflag, hnone, ?_⟩
  rw [← hflag]
  constructor
  · intro htruth
    by_cases hempty : q.rankQEmpty rank = true
    · exact .inl hempty
    · rw [htruth] at hempty
      simp only [ne_eq, not_forall, not_not, exists_prop] at hempty
      exact .inr hempty
  · rintro (hempty | ⟨cmd, hcmd, hrank⟩)
    · exact ⟨hnone, fun _ => hempty⟩
    · exact ⟨hnone, fun hall => absurd hrank (hall cmd hcmd)⟩

/-- The operation that is asked for. -/
def perform (q : CommandQueue config) : QueueOp → Option (CommandQueue config)
  | .addCommand cmd => some (q.addCommand cmd)
  | .getCommandToIssue channel => (q.getCommandToIssue channel).toOption.map Prod.snd
  | .finishRefresh channel => (q.finishRefresh channel).toOption.map Prod.snd
  | .clockTick => some q.clockTick

theorem step_of_perform {op : QueueOp} (h : q.perform op = some q') :
    (queueSystem config).step q op q' := by
  cases op with
  | addCommand cmd => exact (Option.some.inj h).symm
  | getCommandToIssue channel =>
      obtain ⟨⟨cmd, q₁⟩, hok, rfl⟩ := Option.map_eq_some_iff.mp h
      exact ⟨cmd, toOption_eq_some.mp hok⟩
  | finishRefresh channel =>
      obtain ⟨⟨cmd, q₁⟩, hok, rfl⟩ := Option.map_eq_some_iff.mp h
      exact ⟨cmd, toOption_eq_some.mp hok⟩
  | clockTick => exact (Option.some.inj h).symm

/-- A replay of operations is a run that can be observed. -/
theorem exists_run {ops : List QueueOp} {P : CommandQueue config → Bool}
    (h : (System.replay perform ops {}).any P = true) :
    ∃ q accepted, ((queueSystem config).observe acceptedBy).Run ops (q, accepted) ∧ P q = true := by
  obtain ⟨q, hq, hP⟩ := (Option.any_eq_true _ _).mp h
  have hrun : (queueSystem config).Run ops q :=
    System.run_of_replay (fun _ _ _ (_ : True) h => step_of_perform h) .start
      (fun _ _ => trivial) hq
  obtain ⟨accepted, hobserved⟩ := hrun.observe acceptedBy
  exact ⟨q, accepted, hobserved, hP⟩

/-- A read of row 0. -/
def firstRead : Command := ⟨.read, ⟨0, 0, 0, 0, 0, 0⟩, 0⟩

/-- While the read is queued, the flag of its rank tells the truth. -/
theorem rank_q_empty_iff_one_read :
    ∃ (q : CommandQueue Config.defaults) (accepted : List Command),
      ((queueSystem Config.defaults).observe acceptedBy).Run [.addCommand firstRead] (q, accepted) ∧
      q.entries = [firstRead] ∧
      (q.rankQEmpty 0 = true ↔ ∀ cmd ∈ q.entries, cmd.addr.rank ≠ 0) := by
  have hreplay : (System.replay perform [.addCommand firstRead] {}).any
      (fun q : CommandQueue Config.defaults => q.entries = [firstRead]) = true := by
    decide
  obtain ⟨q, accepted, hrun, hone⟩ := exists_run hreplay
  have hentries := of_decide_eq_true hone
  refine ⟨q, accepted, hrun, hentries, (rank_q_empty_iff hrun 0).2.2.mpr
    (.inr ⟨firstRead, ?_, rfl⟩)⟩
  rw [hentries]
  exact List.mem_singleton_self _

/-- The read is selected when its row is open.  No queue holds a command then, but the flag of the
rank stays clear. -/
theorem rank_q_empty_drained :
    ∃ (q : CommandQueue Config.defaults) (accepted : List Command),
      ((queueSystem Config.defaults).observe acceptedBy).Run
        [.addCommand firstRead,
          .getCommandToIssue { bankStates := fun _ => { state := .opened, openRow := 0 } }]
        (q, accepted) ∧
      (∀ cmd ∈ q.entries, cmd.addr.rank ≠ 0) ∧ q.rankQEmpty 0 = false := by
  have hreplay : (System.replay perform [.addCommand firstRead,
      .getCommandToIssue { bankStates := fun _ => { state := .opened, openRow := 0 } }] {}).any
      (fun q : CommandQueue Config.defaults =>
        (∀ cmd ∈ q.entries, cmd.addr.rank ≠ 0) ∧ q.rankQEmpty 0 = false) = true := by
    decide
  obtain ⟨q, accepted, hrun, hdrained⟩ := exists_run hreplay
  exact ⟨q, accepted, hrun, of_decide_eq_true hdrained⟩

end CommandQueue

end Dramsim
