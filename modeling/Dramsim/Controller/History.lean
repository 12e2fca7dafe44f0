import Dramsim.Controller.Accounting
import Dramsim.Library.Since

/-!
# What the record of events says about pending transactions

A transaction that was accepted, was not forwarded, and has seen no command of its
kind and address since, is still pending.
-/

namespace Dramsim

/-- A transaction of this address and kind is accepted and has to wait for a
command. -/
def Event.awaits (addr : Nat) (isWrite : Bool) : Event → Bool
  | .accepted it forwarded => it.carries addr isWrite && !forwarded
  | _ => false

/-- A command for the transactions of this address and kind is issued. -/
def Event.serves (addr : Nat) (isWrite : Bool) : Event → Bool
  | .issued _ cmd _ => cmd.carries addr isWrite
  | _ => false

/-- A transaction has been accepted and not been served since. -/
def Event.Unserved (addr : Nat) (isWrite : Bool) (log : List Event) : Prop :=
  Library.Since (fun e => e.awaits addr isWrite = true) (fun e => e.serves addr isWrite = true) log

theorem Event.unserved_append {addr : Nat} {isWrite : Bool} {log : List Event} {e : Event} :
    Event.Unserved addr isWrite (log ++ [e]) ↔
      e.awaits addr isWrite = true ∨ (Event.Unserved addr isWrite log ∧
        e.serves addr isWrite = false) := by
  rw [Event.Unserved, Library.since_append, Bool.not_eq_true, Event.Unserved]

namespace Controller

variable {config : Config} {s s' : Controller config} {cmd : Command}

/-- Whatever has not been served is pending. -/
def Outstanding (s : Controller config) : Prop :=
  ∀ isWrite addr, Event.Unserved addr isWrite s.log → s.pendingOf isWrite addr ≠ []

theorem Outstanding.init : Outstanding ({} : Controller config) :=
  fun _ _ h => absurd h Library.not_since_nil

theorem Outstanding.congr (h : s.Outstanding) (hlog : s'.log = s.log)
    (hpend : ∀ isWrite addr, s'.pendingOf isWrite addr = s.pendingOf isWrite addr) :
    s'.Outstanding := by
  intro isWrite addr hsince
  rw [hlog] at hsince
  rw [hpend]
  exact h isWrite addr hsince

/-- One more event. -/
theorem Outstanding.append (h : s.Outstanding) {e : Event} (hlog : s'.log = s.log ++ [e])
    (hkeep : ∀ isWrite addr, e.serves addr isWrite = false → s.pendingOf isWrite addr ≠ [] →
      s'.pendingOf isWrite addr ≠ [])
    (hnew : ∀ isWrite addr, e.awaits addr isWrite = true → s'.pendingOf isWrite addr ≠ []) :
    s'.Outstanding := by
  intro isWrite addr hsince
  rw [hlog, Event.unserved_append] at hsince
  rcases hsince with hawait | ⟨hold, hserve⟩
  · exact hnew isWrite addr hawait
  · exact hkeep isWrite addr hserve (h isWrite addr hold)

theorem Outstanding.issued (hb : s.Booked) (ho : s.Outstanding) (h : Issued s cmd s') :
    s'.Outstanding := by
  refine ho.append h.log (fun isWrite addr hserve hne => ?_) (fun _ _ hawait => ?_)
  · have hcar : cmd.carries addr isWrite = false := hserve
    rw [h.pendingOf (hb.single addr), hcar, if_neg Bool.false_ne_true]
    exact hne
  · cases hawait

theorem Outstanding.removed (ho : s.Outstanding) (h : Removed s cmd s') : s'.Outstanding := by
  refine ho.append h.log (fun isWrite addr _ hne => ?_) (fun _ _ hawait => ?_)
  · rw [h.pendingOf]
    exact hne
  · cases hawait

theorem Outstanding.step {o : Controller config} (hs : s.Sound) (hb : s.Booked) (ho : s.Outstanding)
    (h : Step o s s') : s'.Outstanding := by
  cases h with
  | quiet hquiet =>
      exact ho.congr hquiet.log (pendingOf_congr hquiet.pendingRdQ hquiet.pendingWrQ)
  | serve hrem hissue =>
      exact (ho.removed hrem).issued (hb.removed hs hrem) (issueCommand_spec hissue)
  | discard hrem _ => exact ho.removed hrem
  | answer _ hissue => exact ho.issued hb (issueCommand_spec hissue)
  | pim _ hissue => exact ho.issued hb (issueCommand_spec hissue)
  | schedule =>
      have h := scheduleTransaction_spec hs.split
      exact ho.congr h.log (pendingOf_congr h.pendingRdQ h.pendingWrQ)
  | advance => exact ho.congr rfl (fun _ _ => rfl)

/-- The event of a new transaction: it is forwarded, or pending from now on. -/
theorem addTransaction_log (s : Controller config) (it : Transaction) :
    ∃ forwarded, (s.addTransaction it).log =
        s.log ++ [.accepted { it with addedCycle := s.clk } forwarded] ∧
      (forwarded = true ↔ it.isWrite = false ∧ s.writesOf it.addr ≠ []) ∧
      (forwarded = false → (s.addTransaction it).pendingOf it.isWrite it.addr ≠ []) := by
  have hwrite : ∀ {s' : Controller config}, it.isWrite = true →
      s'.pendingWrQ = s.pendingWrQ ++ [{ it with addedCycle := s.clk }] →
      s'.pendingOf it.isWrite it.addr ≠ [] := by
    intro s' hw hpend
    rw [pendingOf, hw, if_pos rfl, writesOf, hpend, List.filter_append]
    simp
  have hread : ∀ {s' : Controller config}, it.isWrite = false →
      s'.pendingRdQ = s.pendingRdQ ++ [{ it with addedCycle := s.clk }] →
      s'.pendingOf it.isWrite it.addr ≠ [] := by
    intro s' hw hpend
    rw [pendingOf, hw, if_neg Bool.false_ne_true, readsOf, hpend, List.filter_append]
    simp
  rcases s.addTransaction_cases it with ⟨hw, hnil, he⟩ | ⟨hne, he⟩ | ⟨hw, hnil, _, he⟩ |
    ⟨hw, hnil, _, he⟩ <;> rw [he]
  · refine ⟨false, by rw [enqueue_eq]; rfl, by simp [hw], fun _ => hwrite hw ?_⟩
    rw [enqueue_eq]
    rfl
  · refine ⟨!it.isWrite, rfl, by simp [hne], fun hforward => ?_⟩
    rw [Bool.not_eq_false'] at hforward
    rw [pendingOf, hforward]
    exact hne
  · refine ⟨false, by rw [enqueue_eq]; rfl, by simp [hnil], fun _ => hread hw ?_⟩
    rw [enqueue_eq]
    rfl
  · exact ⟨false, rfl, by simp [hnil], fun _ => hread hw rfl⟩

theorem Outstanding.addTransaction (ho : s.Outstanding) (it : Transaction) :
    (s.addTransaction it).Outstanding := by
  obtain ⟨forwarded, hlog, _, hpend⟩ := s.addTransaction_log it
  refine ho.append hlog (fun isWrite addr _ hne => ?_) (fun isWrite addr hawait => ?_)
  · rcases s.addTransaction_entries it with ⟨_, hnew⟩ | hsame
    · rw [(hnew isWrite addr).1]
      split
      · exact List.cons_ne_nil _ _
      · exact hne
    · exact fun hnil => hne ((hsame isWrite addr).1.mp hnil)
  · rw [Event.awaits, Bool.and_eq_true, Bool.not_eq_true', carries_iff] at hawait
    obtain ⟨⟨rfl, rfl⟩, hforward⟩ := hawait
    exact hpend hforward

theorem Outstanding.returnDoneTrans (ho : s.Outstanding) (clk : Nat) :
    (s.returnDoneTrans clk).2.Outstanding := by
  have hpend := fun isWrite addr => (s.returnDoneTrans_entries clk isWrite addr).2
  rcases s.returnDoneTrans_log clk with hlog | ⟨_, _, hlog⟩
  · exact ho.congr hlog hpend
  · refine ho.append hlog (fun isWrite addr _ hne => ?_) (fun _ _ hawait => ?_)
    · rw [hpend]
      exact hne
    · cases hawait

theorem Outstanding.preserves (cond : Controller config → Op → Prop) :
    Preserves cond fun s => s.Booked ∧ s.Outstanding where
  add := fun _ it _ hinv _ _ => ⟨hinv.1.addTransaction it, hinv.2.addTransaction it⟩
  done := fun s clk hs hinv =>
    ⟨(Booked.preserves cond).done s clk hs hinv.1, hinv.2.returnDoneTrans clk⟩
  pim := fun s op s' hc hop hs hinv hpim => by
    refine ⟨(Booked.preserves cond).pim s op s' hc hop hs hinv.1 hpim, ?_⟩
    rw [hpim]
    exact hinv.2.congr rfl (fun _ _ => rfl)
  step := fun _ _ _ _ _ _ hs hinv hstep => ⟨hinv.1.step hs hstep, hinv.2.step hs hinv.1 hstep⟩

end Controller

end Dramsim
