import Dramsim.Controller.SelfRefresh

/-!
# The order of selection

`GetCommandToIssue` looks at the queues in turn, from the one after the queue it served last,
and takes the first that is not held back by a refresh and has something to offer.  A column
command leaves its queue at once.  `EraseRWCommand` finds it again by its address and type and
not by its position: that this is the same entry rests on `Booked`, which allows one entry for
a read, and one for a write, of an address.
-/

namespace Dramsim

open Library (System)

namespace CommandQueue

variable {config : Config} {channel : ChannelState} {cmd : Command} {q q' : CommandQueue config}
  {clk : Nat}

/-! ## The first entry that can go -/

/-- None of the entries before can go. -/
def PassedOver (config : Config) (channel : ChannelState) (clk : Nat)
    (before rest : List Command) : Prop :=
  ∀ before' entry mid, before = before' ++ entry :: mid →
    ∀ cmd, ¬ Yields config channel clk (before ++ rest) cmd before' entry (mid ++ rest)

theorem PassedOver.nil (clk : Nat) (rest : List Command) :
    PassedOver config channel clk [] rest := by
  intro before' entry mid h
  simp at h

theorem PassedOver.snoc {before rest : List Command} {entry : Command}
    (h : PassedOver config channel clk before (entry :: rest))
    (hentry : ∀ cmd, ¬ Yields config channel clk (before ++ entry :: rest) cmd before entry rest) :
    PassedOver config channel clk (before ++ [entry]) rest := by
  intro before' entry' mid hsplit cmd
  rw [List.append_assoc, List.singleton_append]
  rcases List.eq_nil_or_concat mid with rfl | ⟨mid', last, rfl⟩
  · obtain ⟨rfl, hlast⟩ := List.append_inj' hsplit rfl
    cases hlast
    exact hentry cmd
  · rw [List.concat_eq_append, ← List.cons_append, ← List.append_assoc] at hsplit
    obtain ⟨rfl, hlast⟩ := List.append_inj' hsplit rfl
    cases hlast
    rw [List.concat_eq_append, List.append_assoc mid', List.singleton_append]
    exact h before' entry' mid' rfl cmd

/-- The entry a queue is served at: it can go and none before it can. -/
structure FirstReady (config : Config) (channel : ChannelState) (clk : Nat) (queue : List Command)
    (cmd : Command) (before : List Command) (entry : Command) (after : List Command) : Prop
    extends Yields config channel clk queue cmd before entry after where
  first : PassedOver config channel clk before (entry :: after)

theorem firstReadyFrom_first (clk : Nat) :
    ∀ before rest : List Command, PassedOver config channel clk before rest →
      firstReadyFrom config channel clk before rest = .ok (some cmd) →
      ∃ pre entry post, FirstReady config channel clk (before ++ rest) cmd pre entry post
  | before, [], _, h => by cases h
  | before, entry :: rest, hpassed, h => by
      -- an entry that yields nothing is passed over
      have hskip (hentry : ∀ cmd, ¬ Yields config channel clk (before ++ entry :: rest) cmd before
          entry rest) (h : firstReadyFrom config channel clk (before ++ [entry]) rest =
            .ok (some cmd)) :
          ∃ pre entry' post,
            FirstReady config channel clk (before ++ entry :: rest) cmd pre entry' post := by
        have := firstReadyFrom_first clk (before ++ [entry]) rest (hpassed.snoc hentry) h
        rwa [List.append_assoc, List.singleton_append] at this
      rw [firstReadyFrom] at h
      obtain ⟨answer, hanswer, h⟩ := Library.bind_eq_ok.mp h
      cases answer with
      | none =>
          refine hskip (fun c hyield => ?_) h
          have := hyield.answer
          rw [hanswer] at this
          cases this
      | some found =>
          have hself {c : Command} (hyield : Yields config channel clk (before ++ entry :: rest) c
              before entry rest) : found = c := by
            have := hyield.answer
            rw [hanswer] at this
            cases this
            rfl
          have htake (hpre : found.cmdType = .precharge →
              arbitratePrecharge channel before entry (entry :: rest) = true)
              (hwrite : found.isWrite = true → hasRWDependency before entry = false)
              (h : Except.ok (ε := Exit) (some found) = .ok (some cmd)) :
              ∃ pre entry' post,
                FirstReady config channel clk (before ++ entry :: rest) cmd pre entry' post := by
            cases h
            exact ⟨before, entry, rest, ⟨rfl, hanswer, hpre, hwrite⟩, hpassed⟩
          dsimp only at h
          split at h
          · rename_i hty
            have hnot : found.isWrite = false := by
              rw [Command.isWrite, hty]
              rfl
            split at h
            · rename_i harb
              exact htake (fun _ => harb) (fun hw => by rw [hnot] at hw; cases hw) h
            · rename_i harb
              exact hskip (fun c hyield => harb (hyield.precharge (hself hyield ▸ hty))) h
          · rename_i hty
            split at h
            · rename_i hw
              split at h
              · rename_i hdep
                refine hskip (fun c hyield => ?_) h
                have := hyield.write (hself hyield ▸ hw)
                rw [hdep] at this
                cases this
              · rename_i hdep
                exact htake (fun he => absurd he hty) (fun _ => by simpa using hdep) h
            · rename_i hw
              exact htake (fun he => absurd he hty) (fun hw' => absurd hw' hw) h

theorem getFirstReadyInQueue_first {queue : List Command}
    (h : getFirstReadyInQueue config channel clk queue = .ok (some cmd)) :
    ∃ before entry after, FirstReady config channel clk queue cmd before entry after :=
  firstReadyFrom_first clk [] queue (.nil clk queue) h

/-! ## The queue that is served -/

/-- The queue is not held back by a refresh, and a command of it can go. -/
def OffersAt (channel : ChannelState) (q : CommandQueue config) (i : Nat) (cmd : Command) : Prop :=
  ¬ q.Skips i ∧ getFirstReadyInQueue config channel q.clk (q.queues i) = .ok (some cmd)

/-- The turn leaves every queue as it is. -/
theorem offersAt_getNextQueue {i : Nat} :
    OffersAt channel q.getNextQueue i cmd ↔ OffersAt channel q i cmd :=
  Iff.rfl

/-- The loop with nothing to show for it has moved on by the queues it looked at. -/
theorem commandFrom_none_eq :
    ∀ (n : Nat) (q : CommandQueue config), commandFrom channel n q = .ok (none, q') →
      q' = { q with queueIdx := q'.queueIdx } ∧
        (q'.queueIdx : Nat) = (q.queueIdx + n) % config.numQueues
  | 0, q, h => by
      cases h
      exact ⟨rfl, (Nat.mod_eq_of_lt q'.queueIdx.isLt).symm⟩
  | n + 1, q, h => by
      have hrest (h : commandFrom channel n q.getNextQueue = .ok (none, q')) :
          q' = { q with queueIdx := q'.queueIdx } ∧
            (q'.queueIdx : Nat) = (q.queueIdx + (n + 1)) % config.numQueues := by
        obtain ⟨heq, hidx⟩ := commandFrom_none_eq n q.getNextQueue h
        refine ⟨heq, ?_⟩
        rw [hidx, getNextQueue_queueIdx, Nat.mod_add_mod, Nat.add_assoc, Nat.add_comm 1 n]
      rw [commandFrom] at h
      split at h
      · exact hrest h
      · obtain ⟨ready, _, h⟩ := Library.bind_eq_ok.mp h
        cases ready with
        | none => exact hrest h
        | some found =>
            dsimp only at h
            split at h
            · obtain ⟨_, _, h⟩ := Library.bind_eq_ok.mp h
              cases h
            · cases h

/-- What the loop has done when it has found a command at the `k`-th queue. -/
structure Found (channel : ChannelState) (q : CommandQueue config) (k : Nat) (cmd : Command)
    (q' : CommandQueue config) : Prop where
  offers : OffersAt channel q (q.turn k) cmd
  first : ∀ j < k, ∀ cmd, ¬ OffersAt channel q (q.turn j) cmd
  result : ∃ q₀ : CommandQueue config, q₀ = { q with queueIdx := q₀.queueIdx } ∧
    (q₀.queueIdx : Nat) = q.turn k ∧
      if cmd.isReadWrite then q₀.eraseRWCommand cmd = .ok q' else q' = q₀

theorem Found.next {k : Nat} (hfirst : ∀ cmd, ¬ OffersAt channel q (q.turn 0) cmd)
    (h : Found channel q.getNextQueue k cmd q') : Found channel q (k + 1) cmd q' where
  offers := by
    have := h.offers
    rwa [offersAt_getNextQueue, turn_getNextQueue] at this
  first := by
    intro j hj c
    cases j with
    | zero => exact hfirst c
    | succ j =>
        rw [← turn_getNextQueue, ← offersAt_getNextQueue]
        exact h.first j (Nat.lt_of_succ_lt_succ hj) c
  result := by
    obtain ⟨q₀, heq, hidx, hres⟩ := h.result
    rw [turn_getNextQueue] at hidx
    exact ⟨q₀, heq, hidx, hres⟩

theorem commandFrom_found :
    ∀ (n : Nat) (q : CommandQueue config), commandFrom channel n q = .ok (some cmd, q') →
      ∃ k < n, Found channel q k cmd q'
  | 0, _, h => by cases h
  | n + 1, q, h => by
      have hrest (hnone : ∀ cmd, ¬ OffersAt channel q (q.turn 0) cmd)
          (h : commandFrom channel n q.getNextQueue = .ok (some cmd, q')) :
          ∃ k < n + 1, Found channel q k cmd q' := by
        obtain ⟨k, hk, hfound⟩ := commandFrom_found n q.getNextQueue h
        exact ⟨k + 1, Nat.succ_lt_succ hk, hfound.next hnone⟩
      rw [commandFrom] at h
      split at h
      · rename_i hwaits
        rw [Bool.and_eq_true, decide_eq_true_eq, getNextQueue_queueIdx_eq] at hwaits
        exact hrest (fun _ hoffers => hoffers.1 hwaits) h
      · rename_i hwaits
        obtain ⟨ready, hready, h⟩ := Library.bind_eq_ok.mp h
        rw [Bool.and_eq_true, decide_eq_true_eq, getNextQueue_queueIdx_eq] at hwaits
        rw [getNextQueue_queueIdx_eq] at hready
        cases ready with
        | none =>
            refine hrest (fun c hoffers => ?_) h
            have := hready.symm.trans hoffers.2
            cases this
        | some found =>
            refine ⟨0, Nat.succ_pos n, ?_⟩
            have hfound (hcmd : found = cmd) (hres : if cmd.isReadWrite then
                q.getNextQueue.eraseRWCommand cmd = .ok q' else q' = q.getNextQueue) :
                Found channel q 0 cmd q' :=
              ⟨⟨hwaits, hcmd ▸ hready⟩, fun j hj => absurd hj (Nat.not_lt_zero j),
                q.getNextQueue, rfl, q.getNextQueue_queueIdx_eq, hres⟩
            dsimp only at h
            split at h
            · rename_i hrw
              obtain ⟨q₁, herase, h⟩ := Library.bind_eq_ok.mp h
              cases h
              refine hfound rfl ?_
              rw [if_pos hrw]
              exact herase
            · rename_i hrw
              cases h
              refine hfound rfl ?_
              rw [if_neg hrw]

/-- What a selection that finds a command has done: it has served the first queue, in the
order of turns, that offers anything.  Only a column command leaves that queue, and the entry
it leaves is the one that was found. -/
structure Served (channel : ChannelState) (q : CommandQueue config) (cmd : Command)
    (q' : CommandQueue config) : Prop where
  offers : OffersAt channel q q'.queueIdx cmd
  turn : ∃ k < config.numQueues, (q'.queueIdx : Nat) = q.turn k ∧
    ∀ j < k, ∀ cmd, ¬ OffersAt channel q (q.turn j) cmd
  column : cmd.isReadWrite = true → ∃ before after,
    FirstReady config channel q.clk (q.queues q'.queueIdx) cmd before cmd after ∧
      q' = { q with
        queueIdx := q'.queueIdx
        queues := Function.update q.queues q'.queueIdx (before ++ after) }
  other : cmd.isReadWrite = false → q' = { q with queueIdx := q'.queueIdx }

end CommandQueue

namespace Controller

variable {config : Config} {o s : Controller config} {cmd : Command} {after before : List Command}

/-- The entry that `EraseRWCommand` finds for a queued command is the command itself. -/
theorem Booked.eraseP_eq (hs : s.Sound) (hb : s.Booked)
    (hsplit : s.cmdQueue.queues (config.queueOf cmd.addr) = before ++ cmd :: after) :
    (s.cmdQueue.queues (config.queueOf cmd.addr)).eraseP (fun entry =>
      cmd.hexAddr = entry.hexAddr && cmd.cmdType = entry.cmdType) = before ++ after := by
  have hmem : cmd ∈ s.cmdQueue.queues (config.queueOf cmd.addr) := by
    rw [hsplit]
    simp
  obtain ⟨_, it, hit⟩ := hs.entries _ cmd hmem
  have hcarries : cmd.carries it.addr it.isWrite = true := by
    rw [hit, transToCommand_carries, carries_iff]
    exact ⟨rfl, rfl⟩
  -- one entry of the queue is for this read, or this write, and it is the command
  have hnone : before.countP (Command.carries it.addr it.isWrite) = 0 := by
    have hcount := hb.entry it.isWrite it.addr
    have hqueue : config.queueAt it.addr = config.queueOf cmd.addr := by
      rw [hit]
      rfl
    rw [entryCount, hqueue, hsplit, List.countP_append, List.countP_cons, if_pos hcarries] at hcount
    omega
  have hother : ∀ entry ∈ before,
      ¬ (decide (cmd.hexAddr = entry.hexAddr) && decide (cmd.cmdType = entry.cmdType)) = true := by
    intro entry hentry hsame
    rw [Bool.and_eq_true, decide_eq_true_eq, decide_eq_true_eq] at hsame
    refine List.countP_eq_zero.mp hnone entry hentry ?_
    rw [Command.carries, Command.isWrite, Command.isRead, ← hsame.1, ← hsame.2]
    exact hcarries
  rw [hsplit, List.eraseP_append_right _ hother, List.eraseP_cons_of_pos (by simp)]

/-- The queue that offers a column command is the queue of its bank. -/
theorem Sound.queueOf_eq (hs : s.Sound) {i : Nat}
    (hsplit : s.cmdQueue.queues i = before ++ cmd :: after) : config.queueOf cmd.addr = i := by
  refine (hs.entries i cmd ?_).1
  rw [hsplit]
  simp

theorem served_of_found {k : Nat} {q' : CommandQueue config} (hs : s.Sound) (hb : s.Booked)
    (hk : k < config.numQueues) (h : CommandQueue.Found s.channelState s.cmdQueue k cmd q') :
    CommandQueue.Served s.channelState s.cmdQueue cmd q' := by
  obtain ⟨q₀, heq, hidx, hres⟩ := h.result
  by_cases hcol : cmd.isReadWrite = true
  · rw [if_pos hcol] at hres
    obtain ⟨before, entry, after, hfirst⟩ := CommandQueue.getFirstReadyInQueue_first h.offers.2
    obtain rfl := ChannelState.eq_of_isReadWrite hfirst.answer hcol
    have hqueue := hs.queueOf_eq hfirst.split
    have herase := hb.eraseP_eq hs (hqueue ▸ hfirst.split)
    rw [hqueue] at herase
    unfold CommandQueue.eraseRWCommand at hres
    dsimp only at hres
    split at hres
    · cases hres
      have hqueues : q₀.queues = s.cmdQueue.queues := by rw [heq]
      rw [hqueue, hqueues, herase]
      refine ⟨hidx ▸ h.offers, ⟨k, hk, hidx, h.first⟩, fun _ => ⟨before, after, ?_, ?_⟩, ?_⟩
      · rw [hidx]
        exact hfirst
      · rw [hidx, heq]
      · intro hnot
        rw [hcol] at hnot
        cases hnot
    · cases hres
  · rw [if_neg hcol] at hres
    subst hres
    exact ⟨hidx ▸ h.offers, ⟨k, hk, hidx, h.first⟩, fun hcol' => absurd hcol' hcol, fun _ => heq⟩

/-- Within a tick the selection never ends the process. -/
theorem exists_getCommandToIssue (hs : s.Sound) (halive : s.channelState.Alive) :
    ∃ found q', s.cmdQueue.getCommandToIssue s.channelState = .ok (found, q') := by
  cases h : s.cmdQueue.getCommandToIssue s.channelState with
  | ok r => exact ⟨r.1, r.2, rfl⟩
  | error e =>
      have hbank : ¬ e.OfBank :=
        (CommandQueue.commandFrom_survives (halive.servesColumns config) _ _
          hs.holdsColumns).of_error h
      rcases (CommandQueue.getCommandToIssue_ensures _ _).of_error h with
        hreq | ⟨cmd, q₀, hcol, hoffers, hsame, herr⟩
      · rcases hreq with rfl | rfl <;> exact absurd (by decide) hbank
      · -- the command stands in the queue it came from
        obtain ⟨before, after, hsplit, _⟩ := hs.offered hcol hoffers
        unfold CommandQueue.eraseRWCommand at herr
        rw [hsame.queues, hsplit] at herr
        simp at herr

/-- In every state of every tick, a command is selected if and only if some queue offers one.
The first queue in turn is served; nothing leaves the queues but a selected column command. -/
theorem selection_serves_first_in_turn {ops : List Op}
    (hrun : (controllerSystem config).Run ops o) (htick : Relation.ReflTransGen (Step o) o s) :
    ∃ found q', s.cmdQueue.getCommandToIssue s.channelState = .ok (found, q') ∧
      (found.isSome = true ↔ ∃ i < config.numQueues, ∃ cmd,
        CommandQueue.OffersAt s.channelState s.cmdQueue i cmd) ∧
      (found = none → q' = s.cmdQueue) ∧
      ∀ cmd, found = some cmd → CommandQueue.Served s.channelState s.cmdQueue cmd q' := by
  have hany : ((controllerSystem config).restrict fun _ _ => True).Run ops o :=
    hrun.restrict_labels fun _ _ => trivial
  obtain ⟨hs, hb, halive⟩ : s.Sound ∧ s.Booked ∧ s.channelState.Alive := by
    obtain ⟨hs, hb⟩ := run_invariant hany Booked.init (Booked.preserves _)
    have halive := alive_of_run hany
    induction htick with
    | refl => exact ⟨hs, hb, halive⟩
    | tail _ hstep ih =>
        obtain ⟨hs, hb, halive⟩ := ih
        exact ⟨hs.step hstep, hb.step hs hstep, hstep.alive hs halive⟩
  obtain ⟨found, q', hok⟩ := exists_getCommandToIssue hs halive
  refine ⟨found, q', hok, ?_, ?_, ?_⟩
  · cases found with
    | some cmd =>
        obtain ⟨k, _, hfound⟩ := CommandQueue.commandFrom_found _ _ hok
        have hlt : s.cmdQueue.turn k < config.numQueues := Nat.mod_lt _ config.numQueues_pos
        exact iff_of_true rfl ⟨_, hlt, cmd, hfound.offers⟩
    | none =>
        refine iff_of_false Bool.false_ne_true ?_
        rintro ⟨i, hi, cmd, hskip, hoffers⟩
        rw [CommandQueue.getCommandToIssue_none hok hi hskip] at hoffers
        cases hoffers
  · intro hnone
    rw [hnone] at hok
    obtain ⟨heq, hidx⟩ := CommandQueue.commandFrom_none_eq _ _ hok
    -- a whole turn ends where it began
    rw [Nat.add_mod_right, Nat.mod_eq_of_lt s.cmdQueue.queueIdx.isLt] at hidx
    rw [heq, Fin.ext hidx]
  · intro cmd hsome
    rw [hsome] at hok
    obtain ⟨k, hk, hfound⟩ := CommandQueue.commandFrom_found _ _ hok
    exact served_of_found hs hb hk hfound

/-- The queue of a read that has been scheduled is served with its `ACTIVATE`. -/
theorem selection_serves_first_in_turn_activate : ∃ s : Controller Config.defaults,
    (controllerSystem Config.defaults).Run [.add ⟨0, false, 0, 0⟩, .tick] s ∧
      ∃ found q', s.cmdQueue.getCommandToIssue s.channelState = .ok (some found, q') ∧
        found.cmdType = .activate ∧
          CommandQueue.Served s.channelState s.cmdQueue found q' := by
  have hsome : (replay Config.defaults [.add ⟨0, false, 0, 0⟩, .tick]).any (fun s =>
      (s.cmdQueue.getCommandToIssue s.channelState).toOption.any fun r =>
        r.1.any fun cmd => cmd.cmdType = .activate) = true := by
    decide +kernel
  obtain ⟨s, hs, hanswer⟩ := (Option.any_eq_true _ _).mp hsome
  have hrun : (controllerSystem Config.defaults).Run [.add ⟨0, false, 0, 0⟩, .tick] s :=
    (run_of_replay (fun _ => True) hs fun _ _ => trivial).of_restrict
  obtain ⟨found, q', hok, _, _, hserved⟩ := selection_serves_first_in_turn hrun .refl
  rw [hok] at hanswer
  obtain ⟨cmd, rfl, hty⟩ := (Option.any_eq_true _ found).mp hanswer
  exact ⟨s, hrun, cmd, q', hok, of_decide_eq_true hty, hserved cmd rfl⟩

end Controller

end Dramsim
