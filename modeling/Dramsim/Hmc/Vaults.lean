import Dramsim.Controller.Conservation
import Dramsim.Model.Hmc

/-!
# Vaults

What a cube needs of its vaults: each accepted transaction is returned exactly once.
`Vault.Lawful` says it with the number of transactions of an address that a vault holds.  It
grows with an accepted transaction, shrinks with a returned one, and a tick leaves it alone.
`Vault.Faithful` says it for reads and writes apart, and counts also what has been completed.

Controllers are such vaults (`controllerVault_lawful`, `controllerVault_faithful`), and the loop
over `ReturnDoneTrans` ends when nothing is left to return (`returnAllDone_exhausts`).
-/

namespace Dramsim

/-- A vault that returns each accepted transaction exactly once.  `held` counts the
transactions of an address that it has accepted and not returned yet. -/
structure Vault.Lawful {σ : Type} (vault : Vault σ) where
  Inv : σ → Prop
  held : σ → Nat → Nat
  add : ∀ v hexAddr isWrite, Inv v → vault.willAcceptTransaction v hexAddr isWrite = true →
    Inv (vault.addTransaction v hexAddr isWrite) ∧ ∀ a,
      held (vault.addTransaction v hexAddr isWrite) a = held v a + if hexAddr = a then 1 else 0
  done : ∀ v clk, Inv v → Inv (vault.returnDone v clk).2 ∧ ∀ a,
    held v a = held (vault.returnDone v clk).2 a + ((vault.returnDone v clk).1.map Prod.fst).count a
  tick : ∀ v v', Inv v → vault.clockTick v = .ok v' → Inv v' ∧ ∀ a, held v' a = held v a

/-- A vault that returns each accepted transaction exactly once as the read or write that it is.
`held` counts the transactions of an address and kind that it has accepted and not returned yet,
`completed` those that it has returned. -/
structure Vault.Faithful {σ : Type} (vault : Vault σ) where
  Inv : σ → Prop
  held : σ → Nat × Bool → Nat
  completed : σ → Nat × Bool → Nat
  add : ∀ v hexAddr isWrite, Inv v → vault.willAcceptTransaction v hexAddr isWrite = true →
    Inv (vault.addTransaction v hexAddr isWrite) ∧ ∀ it,
      held (vault.addTransaction v hexAddr isWrite) it =
        held v it + (if (hexAddr, isWrite) = it then 1 else 0) ∧
      completed (vault.addTransaction v hexAddr isWrite) it = completed v it
  done : ∀ v clk, Inv v → Inv (vault.returnDone v clk).2 ∧ ∀ it,
    held v it = held (vault.returnDone v clk).2 it + (vault.returnDone v clk).1.count it ∧
    completed (vault.returnDone v clk).2 it = completed v it + (vault.returnDone v clk).1.count it
  tick : ∀ v v', Inv v → vault.clockTick v = .ok v' →
    Inv v' ∧ ∀ it, held v' it = held v it ∧ completed v' it = completed v it

namespace Controller

variable {config : Config} {s s' : Controller config}

/-- The transactions of an address that are pending or complete. -/
def held (s : Controller config) (a : Nat) : Nat := s.unreturned false a + s.unreturned true a

theorem held_addTransaction (s : Controller config) (it : Transaction) (a : Nat) :
    (s.addTransaction it).held a = s.held a + if it.addr = a then 1 else 0 := by
  have hread := s.unreturned_addTransaction it false a
  have hwrite := s.unreturned_addTransaction it true a
  have hcar (isWrite : Bool) : it.carries a isWrite = true ↔ it.addr = a ∧ it.isWrite = isWrite :=
    carries_iff
  simp only [hcar] at hread hwrite
  rw [held, held, hread, hwrite]
  cases it.isWrite <;> simp <;> omega

theorem unreturned_init (isWrite : Bool) (a : Nat) :
    ({} : Controller config).unreturned isWrite a = 0 := by
  cases isWrite <;> rfl

theorem unreturned_addTransaction_kind (s : Controller config) (hexAddr : Nat) (isWrite : Bool)
    (it : Nat × Bool) :
    (s.addTransaction { addr := hexAddr, isWrite := isWrite }).unreturned it.2 it.1 =
      s.unreturned it.2 it.1 + if (hexAddr, isWrite) = it then 1 else 0 := by
  have hcar : Transaction.carries it.1 it.2 { addr := hexAddr, isWrite := isWrite } = true ↔
      (hexAddr, isWrite) = it := by
    rw [carries_iff, Prod.ext_iff]
  rw [unreturned_addTransaction]
  simp only [hcar]

/-- A tick moves transactions from pending to complete. -/
theorem counts_clockTick (hs : s.Sound) (h : s.clockTick = .ok s') :
    s'.Sound ∧ ∀ isWrite a, s'.unreturned isWrite a = s.unreturned isWrite a ∧
      s'.returnedCount isWrite a = s.returnedCount isWrite a := by
  refine (clockTick_proceeds hs.requests).preserves h
    (fun t => t.Sound ∧ ∀ isWrite a, t.unreturned isWrite a = s.unreturned isWrite a ∧
      t.returnedCount isWrite a = s.returnedCount isWrite a) ⟨hs, fun _ _ => ⟨rfl, rfl⟩⟩ ?_
  intro t t' ht hstep
  refine ⟨ht.1.step hstep, fun isWrite a => ?_⟩
  rw [unreturned_step ht.1 hstep, returnedCount_step ht.1 hstep]
  exact ht.2 isWrite a

theorem held_clockTick (hs : s.Sound) (h : s.clockTick = .ok s') :
    s'.Sound ∧ ∀ a, s'.held a = s.held a := by
  obtain ⟨hs', hcounts⟩ := counts_clockTick hs h
  refine ⟨hs', fun a => ?_⟩
  rw [held, (hcounts false a).1, (hcounts true a).1, held]

/-! ## The loop over the completed transactions -/

theorem eq_of_returnDoneTrans_none {clk : Nat} (h : s.returnDoneTrans clk = (none, s')) :
    s' = s := by
  obtain hnone | ⟨_, _, _, _, hsome⟩ := s.returnDoneTrans_cases clk
  · rw [hnone] at h
    exact (Prod.mk.inj h).2.symm
  · rw [hsome] at h
    cases h

theorem counts_returnAllDone (clk : Nat) :
    ∀ (n : Nat) {s : Controller config}, s.Sound → (returnAllDone clk n s).2.Sound ∧
      ∀ isWrite a, s.unreturned isWrite a = (returnAllDone clk n s).2.unreturned isWrite a +
          (returnAllDone clk n s).1.count (a, isWrite) ∧
        (returnAllDone clk n s).2.returnedCount isWrite a = s.returnedCount isWrite a +
          (returnAllDone clk n s).1.count (a, isWrite)
  | 0, _, hs => ⟨hs, fun _ _ => ⟨rfl, rfl⟩⟩
  | n + 1, s, hs => by
      have hnext := hs.returnDoneTrans clk
      rw [returnAllDone]
      split
      · rename_i it s' hdone
        simp only [hdone] at hnext
        obtain ⟨hsound, hrest⟩ := counts_returnAllDone clk n hnext
        refine ⟨hsound, fun isWrite a => ?_⟩
        have hfirst := s.unreturned_returnDoneTrans clk isWrite a
        have hcount := s.returnedCount_returnDoneTrans clk isWrite a
        simp only [hdone, Option.some.injEq] at hfirst hcount
        obtain ⟨hunreturned, hreturned⟩ := hrest isWrite a
        simp only [List.count_cons, beq_iff_eq]
        omega
      · rename_i s' hdone
        rw [eq_of_returnDoneTrans_none hdone]
        exact ⟨hs, fun _ _ => ⟨rfl, rfl⟩⟩

/-- An address is returned as a read or as a write. -/
theorem count_map_fst (a : Nat) : ∀ done : List (Nat × Bool),
    (done.map Prod.fst).count a = done.count (a, false) + done.count (a, true)
  | [] => rfl
  | (b, isWrite) :: done => by
      rw [List.map_cons, List.count_cons, List.count_cons, List.count_cons, count_map_fst a done]
      cases isWrite <;> simp <;> omega

theorem held_returnAllDone (clk : Nat) (n : Nat) (hs : s.Sound) :
    (returnAllDone clk n s).2.Sound ∧ ∀ a, s.held a =
      (returnAllDone clk n s).2.held a + ((returnAllDone clk n s).1.map Prod.fst).count a := by
  obtain ⟨hs', hcounts⟩ := counts_returnAllDone clk n hs
  refine ⟨hs', fun a => ?_⟩
  rw [held, (hcounts false a).1, (hcounts true a).1, held, count_map_fst]
  omega

theorem length_returnDoneTrans_some {clk : Nat} {it : Nat × Bool}
    (h : s.returnDoneTrans clk = (some it, s')) :
    s'.returnQueue.length + 1 = s.returnQueue.length := by
  obtain hnone | ⟨before, it, after, hsplit, hsome⟩ := s.returnDoneTrans_cases clk
  · rw [hnone] at h
    cases h
  · rw [hsome] at h
    cases h
    rw [hsplit, List.length_append, List.length_append, List.length_cons]
    omega

/-- The loop has enough rounds. -/
theorem returnAllDone_exhausts (clk : Nat) :
    ∀ (n : Nat) {s : Controller config}, s.returnQueue.length ≤ n →
      ((returnAllDone clk n s).2.returnDoneTrans clk).1 = none
  | 0, s, hlen => by
      obtain hnone | ⟨before, it, after, hsplit, _⟩ := s.returnDoneTrans_cases clk
      · rw [returnAllDone, hnone]
      · rw [hsplit, List.length_append, List.length_cons] at hlen
        omega
  | n + 1, s, hlen => by
      rw [returnAllDone]
      split
      · rename_i it s' hdone
        have hshort := length_returnDoneTrans_some hdone
        exact returnAllDone_exhausts clk n (by omega)
      · rename_i s' hdone
        rw [eq_of_returnDoneTrans_none hdone, hdone]

end Controller

/-- A controller returns each accepted transaction exactly once. -/
def controllerVault_lawful (config : Config) : (controllerVault config).Lawful where
  Inv := Controller.Sound
  held := Controller.held
  add v _ _ hs _ := ⟨hs.addTransaction _, v.held_addTransaction _⟩
  done _ clk hs := Controller.held_returnAllDone clk _ hs
  tick _ _ hs h := Controller.held_clockTick hs h

/-- A controller does not mix up reads and writes. -/
def controllerVault_faithful (config : Config) : (controllerVault config).Faithful where
  Inv := Controller.Sound
  held s it := s.unreturned it.2 it.1
  completed s it := s.returnedCount it.2 it.1
  add v hexAddr isWrite hs _ := ⟨hs.addTransaction _, fun it =>
    ⟨v.unreturned_addTransaction_kind hexAddr isWrite it, v.returnedCount_addTransaction _ _ _⟩⟩
  done _ clk hs :=
    (Controller.counts_returnAllDone clk _ hs).imp_right fun hcounts it => hcounts it.2 it.1
  tick _ _ hs h := (Controller.counts_clockTick hs h).imp_right fun hcounts it => hcounts it.2 it.1

end Dramsim
