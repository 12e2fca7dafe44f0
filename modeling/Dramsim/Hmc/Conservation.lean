import Dramsim.Hmc.AgeOrder
import Dramsim.Hmc.Loops
import Dramsim.Hmc.Vaults
import Dramsim.Library.System

/-!
# Requests and responses of a cube

Every accepted request is at one place: in the queue of a link, in that of a quad, or in a
vault, with its response in `resp_lookup_table_`, and later its response in the queue of a quad
or of a link, until the callback is made.  Requests and responses are matched by their address
only, so the books are kept for each address.

`Balanced` has an entry for every place, and for the addresses that a vault has returned and
`VaultCallback` has not seen yet.  Every piece of `ClockTick` preserves it and, because of it,
does not fail: an arbiter takes queues with a positive age counter, each of them once, and these
are not empty.  What is assumed of the vaults is `Vault.Lawful`.
-/

namespace Dramsim

open Library

/-- The exits of the vaults. -/
def HMCExit.OfVault (e : HMCExit) : Prop := ∃ e', e = .vault e'

namespace HMCMemorySystem

variable {config : HMCConfig} {σ : Type} {vault : Vault σ}

/-! ## The books -/

/-- The entries of an address in `resp_lookup_table_`. -/
def entries (s : HMCMemorySystem config σ) (a : Nat) : Nat :=
  s.respLookupTable.countP fun resp => resp.respId = a

/-- The requests for an address at the links. -/
def inLinks (s : HMCMemorySystem config σ) (a : Nat) : Nat :=
  countIn s.linkReqQueues fun req => req.memOperand = a

/-- The requests for an address at the quads. -/
def inQuads (s : HMCMemorySystem config σ) (a : Nat) : Nat :=
  countIn s.quadReqQueues fun req => req.memOperand = a

/-- The transactions of an address in the vaults. -/
def inVaults (held : σ → Nat → Nat) (s : HMCMemorySystem config σ) (a : Nat) : Nat :=
  total fun i => held (s.ctrls i) a

/-- The responses for an address on their way. -/
def responses (s : HMCMemorySystem config σ) (a : Nat) : Nat :=
  countIn s.quadRespQueues (fun resp => resp.respId = a) +
    countIn s.linkRespQueues fun resp => resp.respId = a

/-- The callbacks that have been made for an address. -/
def answered (s : HMCMemorySystem config σ) (a : Nat) : Nat :=
  s.callbacks.countP fun call => call.1 = a

/-- The books agree with the requests that have been accepted, up to the addresses that
`VaultCallback` still has to be told. -/
structure Balanced (law : vault.Lawful) (history owed : List Nat) (s : HMCMemorySystem config σ) :
    Prop where
  vaults : ∀ i, law.Inv (s.ctrls i)
  entries : ∀ a, s.entries a = s.inLinks a + s.inQuads a + s.inVaults law.held a + owed.count a
  flow : ∀ a, history.count a = s.entries a + s.responses a + s.answered a
  linkAge : ∀ i, 0 < s.linkAgeCounter i ↔ s.linkReqQueues i ≠ []
  quadAge : ∀ i, 0 < s.quadAgeCounter i ↔ s.quadRespQueues i ≠ []

variable {law : vault.Lawful} {history owed : List Nat} {s s' : HMCMemorySystem config σ}

theorem inVaults_update (held : σ → Nat → Nat) (s : HMCMemorySystem config σ)
    (i : Fin config.channels) (ctrl : σ) (a : Nat) :
    inVaults held { s with ctrls := Function.update s.ctrls i ctrl } a + held (s.ctrls i) a =
      inVaults held s a + held ctrl a :=
  total_comp_update (fun v => held v a) s.ctrls i ctrl

/-- One vault goes on. -/
theorem forall_vaults_update {inv : σ → Prop} (h : ∀ j, inv (s.ctrls j)) {i : Fin config.channels}
    {ctrl : σ} (hctrl : inv ctrl) : ∀ j, inv (Function.update s.ctrls i ctrl j) :=
  (Function.forall_update_iff s.ctrls fun _ => inv).mpr ⟨hctrl, fun j _ => h j⟩

/-- The counters that follow one of their queues. -/
theorem age_update {n : Nat} {α : Type} {age : Fin n → Nat} {queues : Fin n → List α} {i : Fin n}
    {k : Nat} {q : List α} (h : ∀ j, 0 < age j ↔ queues j ≠ []) (hi : 0 < k ↔ q ≠ []) (j : Fin n) :
    0 < Function.update age i k j ↔ Function.update queues i q j ≠ [] := by
  by_cases hj : j = i
  · rw [hj, Function.update_self, Function.update_self]
    exact hi
  · rw [Function.update_of_ne hj, Function.update_of_ne hj]
    exact h j

/-- The counter of a queue that has to wait. -/
theorem age_older {n : Nat} {α : Type} {age : Fin n → Nat} {queues : Fin n → List α} {i : Fin n}
    {k : Nat} (h : ∀ j, 0 < age j ↔ queues j ≠ []) (hi : queues i ≠ []) (j : Fin n) :
    0 < Function.update age i (k + 1) j ↔ queues j ≠ [] := by
  by_cases hj : j = i
  · rw [hj, Function.update_self]
    exact ⟨fun _ => hi, fun _ => Nat.succ_pos k⟩
  · rw [Function.update_of_ne hj]
    exact h j

theorem age_of_rest {α : Type} (rest : List α) :
    0 < (if rest.isEmpty then 0 else 1) ↔ rest ≠ [] := by
  cases rest <;> simp

/-! ## Requests -/

theorem Balanced.drainQuad (h : Balanced law history owed s) (i : Fin 4) :
    Balanced law history owed (s.drainQuad vault i) := by
  unfold HMCMemorySystem.drainQuad
  split
  · exact h
  · rename_i req rest hq
    split
    · rename_i hready
      obtain ⟨hinv, hheld⟩ := law.add _ _ _ (h.vaults req.vault) hready.2.2
      refine ⟨forall_vaults_update h.vaults hinv, fun a => ?_, h.flow, h.linkAge, h.quadAge⟩
      have hbooks := h.entries a
      have hpop := countIn_pop hq fun req => decide (req.memOperand = a)
      have hvault := inVaults_update law.held s req.vault
        (vault.addTransaction (s.ctrls req.vault) req.memOperand req.isWrite) a
      have hadd := hheld a
      simp only [decide_eq_true_eq] at hpop
      simp only [HMCMemorySystem.entries, inLinks, inQuads, inVaults] at hbooks hvault ⊢
      omega
    · exact h

theorem Balanced.drainLink (h : Balanced law history owed s) {link : Fin config.numLinks}
    (hlink : s.linkReqQueues link ≠ []) :
    Ensures (s.drainLink link) (fun s' => Balanced law history owed s' ∧
      ∀ j, j ≠ link → s.linkReqQueues j ≠ [] → s'.linkReqQueues j ≠ []) fun _ => False := by
  unfold HMCMemorySystem.drainLink
  split
  · rename_i hq
    exact absurd hq hlink
  · rename_i req rest hq
    split
    · refine ⟨⟨h.vaults, fun a => ?_, h.flow, age_update h.linkAge (age_of_rest rest), h.quadAge⟩,
        fun j hj hready => ?_⟩
      · have hbooks := h.entries a
        have hpop := countIn_pop hq fun req => decide (req.memOperand = a)
        have hpush := countIn_push s.quadReqQueues req.quad
          { req with exitTime := s.logicClk + req.flits } fun req => decide (req.memOperand = a)
        dsimp only at hpush
        simp only [HMCMemorySystem.entries, inLinks, inQuads, inVaults] at hbooks ⊢
        omega
      · simpa only [Function.update_of_ne hj] using hready
    · exact ⟨⟨h.vaults, h.entries, h.flow, age_older h.linkAge hlink, h.quadAge⟩,
        fun _ _ hready => hready⟩

theorem Balanced.drainRequests (h : Balanced law history owed s) :
    Ensures (s.drainRequests vault) (Balanced law history owed) fun _ => False := by
  have hquads : Balanced law history owed
      ((List.finRange 4).foldl (HMCMemorySystem.drainQuad vault) s) :=
    foldl_invariant _ (fun _ i hs => hs.drainQuad i) _ s h
  have hbusy : Balanced law history owed
      { (List.finRange 4).foldl (HMCMemorySystem.drainQuad vault) s with
        quadBusy :=
          drainXbar ((List.finRange 4).foldl (HMCMemorySystem.drainQuad vault) s).quadBusy } :=
    ⟨hquads.vaults, hquads.entries, hquads.flow, hquads.linkAge, hquads.quadAge⟩
  refine Ensures.foldlM_serve _ (fun s link => s.linkReqQueues link ≠ [])
    (fun _ _ hs hready => hs.drainLink hready) _ _ (nodup_buildAgeQueue _ _) hbusy fun i hi => ?_
  exact (hbusy.linkAge i).mp (Int.natCast_pos.mp (mem_buildAgeQueue.mp hi))

/-! ## Responses -/

theorem Balanced.answer (h : Balanced law history owed s) (i : Fin config.numLinks) :
    Balanced law history owed (s.answer i) := by
  unfold HMCMemorySystem.answer
  split
  · exact h
  · rename_i resp rest hq
    split
    · refine ⟨h.vaults, h.entries, fun a => ?_, h.linkAge, h.quadAge⟩
      have hflow := h.flow a
      have hpop := countIn_pop hq fun resp => decide (resp.respId = a)
      simp only [HMCMemorySystem.entries, responses, answered, List.countP_append,
        List.countP_singleton] at hflow ⊢
      omega
    · exact h

theorem Balanced.drainQuadResponse (h : Balanced law history owed s) {quad : Fin 4}
    (hquad : s.quadRespQueues quad ≠ []) :
    Ensures (s.drainQuadResponse quad) (fun s' => Balanced law history owed s' ∧
      ∀ j, j ≠ quad → s.quadRespQueues j ≠ [] → s'.quadRespQueues j ≠ []) fun _ => False := by
  unfold HMCMemorySystem.drainQuadResponse
  split
  · rename_i hq
    exact absurd hq hquad
  · rename_i resp rest hq
    split
    · refine ⟨⟨h.vaults, h.entries, fun a => ?_, h.linkAge,
        age_update h.quadAge (age_of_rest rest)⟩, fun j hj hready => ?_⟩
      · have hflow := h.flow a
        have hpop := countIn_pop hq fun resp => decide (resp.respId = a)
        have hpush := countIn_push s.linkRespQueues resp.link
          { resp with exitTime := s.logicClk + resp.flits } fun resp => decide (resp.respId = a)
        dsimp only at hpush
        simp only [HMCMemorySystem.entries, responses, answered] at hflow ⊢
        omega
      · simpa only [Function.update_of_ne hj] using hready
    · exact ⟨⟨h.vaults, h.entries, h.flow, h.linkAge, age_older h.quadAge hquad⟩,
        fun _ _ hready => hready⟩

theorem Balanced.drainResponses (h : Balanced law history owed s) :
    Ensures s.drainResponses (Balanced law history owed) fun _ => False := by
  have hlinks : Balanced law history owed
      ((List.finRange config.numLinks).foldl HMCMemorySystem.answer s) :=
    foldl_invariant _ (fun _ i hs => hs.answer i) _ s h
  have hbusy : Balanced law history owed
      { (List.finRange config.numLinks).foldl HMCMemorySystem.answer s with
        linkBusy :=
          drainXbar ((List.finRange config.numLinks).foldl HMCMemorySystem.answer s).linkBusy } :=
    ⟨hlinks.vaults, hlinks.entries, hlinks.flow, hlinks.linkAge, hlinks.quadAge⟩
  refine Ensures.foldlM_serve _ (fun s quad => s.quadRespQueues quad ≠ [])
    (fun _ _ hs hready => hs.drainQuadResponse hready) _ _
    (nodup_buildAgeQueue _ _) hbusy fun i hi => ?_
  exact (hbusy.quadAge i).mp (Int.natCast_pos.mp (mem_buildAgeQueue.mp hi))

/-! ## The vaults -/

/-- `VaultCallback` finds the response of an address that a vault has returned. -/
theorem Balanced.vaultCallback {a : Nat} (h : Balanced law history (a :: owed) s) :
    Ensures (s.vaultCallback a) (Balanced law history owed) fun _ => False := by
  have hentry := h.entries a
  rw [List.count_cons_self] at hentry
  unfold HMCMemorySystem.vaultCallback
  split
  · rename_i hfind
    have hnone : s.entries a = 0 := by
      rw [HMCMemorySystem.entries, List.countP_eq_zero]
      exact List.find?_eq_none.mp hfind
    omega
  · rename_i resp hfind
    have hid : resp.respId = a := by simpa using List.find?_some hfind
    have hresp (b : Nat) := countP_find hfind fun resp => decide (resp.respId = b)
    refine ⟨h.vaults, fun b => ?_, fun b => ?_, h.linkAge, age_update h.quadAge (by simp)⟩
    · have hbooks := h.entries b
      have hcount := hresp b
      rw [List.count_cons] at hbooks
      simp only [hid, decide_eq_true_eq, beq_iff_eq] at hcount hbooks
      simp only [HMCMemorySystem.entries, inLinks, inQuads, inVaults] at hbooks ⊢
      omega
    · have hflow := h.flow b
      have hcount := hresp b
      have hpush :=
        countIn_push s.quadRespQueues resp.quad resp fun resp => decide (resp.respId = b)
      simp only [HMCMemorySystem.entries, responses, answered] at hflow ⊢
      omega

theorem Balanced.vaultCallbacks :
    ∀ {done : List (Nat × Bool)} {s : HMCMemorySystem config σ},
      Balanced law history (done.map Prod.fst) s →
      Ensures (done.foldlM (fun s it => s.vaultCallback it.1) s) (Balanced law history [])
        fun _ => False
  | [], _, h => h
  | it :: done, s, h => by
      rw [List.foldlM_cons]
      exact Ensures.bind (vaultCallback h) fun s' hs' => vaultCallbacks hs'

theorem Balanced.returnVault (h : Balanced law history [] s) (i : Fin config.channels) :
    Ensures (s.returnVault vault i) (Balanced law history []) fun _ => False := by
  rw [returnVault_eq]
  obtain ⟨hinv, hheld⟩ := law.done (s.ctrls i) s.clk (h.vaults i)
  refine vaultCallbacks ⟨forall_vaults_update h.vaults hinv, fun a => ?_, h.flow, h.linkAge,
    h.quadAge⟩
  have hbooks := h.entries a
  have hvault := inVaults_update law.held s i (vault.returnDone (s.ctrls i) s.clk).2 a
  have hdone := hheld a
  rw [List.count_nil] at hbooks
  simp only [HMCMemorySystem.entries, inLinks, inQuads, inVaults] at hbooks hvault ⊢
  omega

theorem Balanced.tickVault (h : Balanced law history [] s) (i : Fin config.channels) :
    Ensures (s.tickVault vault i) (Balanced law history []) HMCExit.OfVault := by
  unfold HMCMemorySystem.tickVault
  cases hctrl : vault.clockTick (s.ctrls i) with
  | error e => exact ⟨e, rfl⟩
  | ok ctrl =>
      obtain ⟨hinv, hheld⟩ := law.tick _ _ (h.vaults i) hctrl
      refine ⟨forall_vaults_update h.vaults hinv, fun a => ?_, h.flow, h.linkAge, h.quadAge⟩
      have hbooks := h.entries a
      have hvault := inVaults_update law.held s i ctrl a
      have htick := hheld a
      simp only [HMCMemorySystem.entries, inLinks, inQuads, inVaults] at hbooks hvault ⊢
      omega

theorem Balanced.dramClockTick (h : Balanced law history [] s) :
    Ensures (s.dramClockTick vault) (Balanced law history []) HMCExit.OfVault := by
  refine Ensures.bind (P := Balanced law history []) ?_ fun s₁ h₁ => ?_
  · refine Ensures.foldlM _ (fun _ i hs => ?_) _ s h
    exact (hs.returnVault i).mono (fun _ hs' => hs') fun _ he => he.elim
  · refine Ensures.bind (Ensures.foldlM _ (fun _ i hs => hs.tickVault i) _ s₁ h₁) fun s₂ h₂ => ?_
    exact ⟨h₂.vaults, h₂.entries, h₂.flow, h₂.linkAge, h₂.quadAge⟩

/-! ## A tick -/

theorem Balanced.advanceLogic (h : Balanced law history owed s) :
    Balanced law history owed s.advanceLogic :=
  ⟨h.vaults, h.entries, h.flow, h.linkAge, h.quadAge⟩

/-- The crossbar does not fail. -/
theorem Balanced.ensures_ofVault {x : Except HMCExit (HMCMemorySystem config σ)}
    (h : Ensures x (Balanced law history []) fun _ => False) :
    Ensures x (Balanced law history []) HMCExit.OfVault :=
  h.mono (fun _ hs => hs) fun _ he => he.elim

theorem Balanced.logicTicks :
    ∀ (n : Nat) {s : HMCMemorySystem config σ}, Balanced law history [] s →
      Ensures (logicTicks vault n s) (Balanced law history []) HMCExit.OfVault
  | 0, _, h => h
  | n + 1, s, h => by
      rw [HMCMemorySystem.logicTicks]
      split
      · refine Ensures.bind (ensures_ofVault h.drainResponses) fun s₁ h₁ => ?_
        refine Ensures.bind (ensures_ofVault h₁.drainRequests) fun s₂ h₂ => ?_
        exact logicTicks n h₂.advanceLogic
      · exact h

theorem Balanced.meetClocks (h : Balanced law history [] s) :
    Ensures (s.meetClocks vault) (Balanced law history []) HMCExit.OfVault := by
  unfold HMCMemorySystem.meetClocks
  split
  · refine Ensures.bind (ensures_ofVault h.drainResponses) fun s₁ h₁ => ?_
    refine Ensures.bind h₁.dramClockTick fun s₂ h₂ => ?_
    refine Ensures.bind (ensures_ofVault h₂.drainRequests) fun s₃ h₃ => ?_
    exact h₃.advanceLogic
  · exact h.dramClockTick

theorem Balanced.clockTick (h : Balanced law history [] s) :
    Ensures (s.clockTick vault) (Balanced law history []) HMCExit.OfVault := by
  refine Ensures.bind h.meetClocks fun s₁ h₁ => ?_
  refine Ensures.bind (logicTicks _ h₁) fun s₂ h₂ => ?_
  exact ⟨h₂.vaults, h₂.entries, h₂.flow, h₂.linkAge, h₂.quadAge⟩

/-! ## New requests -/

/-- The addresses that are accepted in addition. -/
def newly (a : Nat) (accepted : Bool) : List Nat := if accepted then [a] else []

theorem Balanced.entered (h : Balanced law history [] s) {req : HMCRequest config.channels}
    (hs : s.Entered req s') : Balanced law (history ++ [req.memOperand]) [] s' := by
  obtain ⟨link, resp, _, hresp, hs⟩ := hs
  have hid : resp.respId = req.memOperand := by
    obtain ⟨_, _, hresp⟩ := bind_eq_ok.mp hresp
    cases hresp
    rfl
  rw [hs]
  refine ⟨h.vaults, fun a => ?_, fun a => ?_, age_update h.linkAge (by simp), h.quadAge⟩
  · have hbooks := h.entries a
    have hpush := countIn_push s.linkReqQueues link req fun req => decide (req.memOperand = a)
    simp only [HMCMemorySystem.entries, inLinks, inQuads, inVaults, pushed, List.countP_append,
      List.countP_singleton, hid] at hbooks ⊢
    omega
  · have hflow := h.flow a
    simp only [List.count_append, List.count_singleton, beq_iff_eq]
    simp only [HMCMemorySystem.entries, responses, answered, pushed, List.countP_append,
      List.countP_singleton, hid, decide_eq_true_eq] at hflow ⊢
    omega

theorem Balanced.addTransaction (h : Balanced law history [] s) {hexAddr : Nat}
    {isWrite accepted : Bool} (hok : s.addTransaction hexAddr isWrite = .ok (accepted, s')) :
    Balanced law (history ++ newly hexAddr accepted) [] s' := by
  obtain ⟨type, req, _, hreq, ⟨rfl, hentered⟩ | ⟨rfl, hsame⟩⟩ := addTransaction_cases hok
  · have hid : req.memOperand = hexAddr := by
      obtain ⟨_, _, hreq⟩ := bind_eq_ok.mp hreq
      cases hreq
      rfl
    have hnext := h.entered hentered
    rwa [hid] at hnext
  · rw [hsame]
    refine ⟨h.vaults, h.entries, ?_, h.linkAge, h.quadAge⟩
    rw [newly, if_neg Bool.false_ne_true, List.append_nil]
    exact h.flow

end HMCMemorySystem

/-! ## Runs -/

/-- The operations of a cube. -/
inductive HMCOp where
  | add (hexAddr : Nat) (isWrite : Bool)
  | tick
deriving DecidableEq, Repr

/-- A cube with the given vaults. -/
def hmcSystem (config : HMCConfig) {σ : Type} (vault : Vault σ) (ctrls : Fin config.channels → σ) :
    System (HMCMemorySystem config σ) HMCOp where
  init := { ctrls := ctrls }
  step s op s' := match op with
    | .add hexAddr isWrite => ∃ accepted, s.addTransaction hexAddr isWrite = .ok (accepted, s')
    | .tick => s.clockTick vault = .ok s'

namespace HMCMemorySystem

variable {config : HMCConfig} {σ : Type} {vault : Vault σ}

/-- The address that an operation adds to the accepted ones. -/
def acceptedBy (s : HMCMemorySystem config σ) : HMCOp → List Nat
  | .add hexAddr isWrite =>
      match s.addTransaction hexAddr isWrite with
      | .ok (accepted, _) => newly hexAddr accepted
      | .error _ => []
  | .tick => []

/-- The step that an operation asks for. -/
def perform (vault : Vault σ) (s : HMCMemorySystem config σ) :
    HMCOp → Option (HMCMemorySystem config σ)
  | .add hexAddr isWrite => (s.addTransaction hexAddr isWrite).toOption.map Prod.snd
  | .tick => (s.clockTick vault).toOption

theorem step_of_perform {ctrls : Fin config.channels → σ} {s s' : HMCMemorySystem config σ}
    {op : HMCOp} (h : s.perform vault op = some s') :
    (hmcSystem config vault ctrls).step s op s' := by
  cases op with
  | add hexAddr isWrite =>
      obtain ⟨⟨accepted, s₁⟩, hok, rfl⟩ := Option.map_eq_some_iff.mp h
      exact ⟨accepted, toOption_eq_some.mp hok⟩
  | tick => exact toOption_eq_some.mp h

theorem Balanced.init (law : vault.Lawful) {ctrls : Fin config.channels → σ}
    (hinv : ∀ i, law.Inv (ctrls i)) (hempty : ∀ i a, law.held (ctrls i) a = 0) :
    Balanced law [] [] { ctrls := ctrls : HMCMemorySystem config σ } := by
  refine ⟨hinv, fun a => ?_, fun a => ?_, fun i => ?_, fun i => ?_⟩
  · simp [HMCMemorySystem.entries, inLinks, inQuads, inVaults, hempty]
  · simp [HMCMemorySystem.entries, responses, answered]
  · simp
  · simp

theorem balanced_of_run (law : vault.Lawful) {ctrls : Fin config.channels → σ}
    (hinv : ∀ i, law.Inv (ctrls i)) (hempty : ∀ i a, law.held (ctrls i) a = 0) {ops : List HMCOp}
    {s : HMCMemorySystem config σ} {history : List Nat}
    (hrun : ((hmcSystem config vault ctrls).observe acceptedBy).Run ops (s, history)) :
    Balanced law history [] s := by
  refine hrun.invariant (fun p => Balanced law p.2 [] p.1) (.init law hinv hempty) ?_
  rintro ⟨s, history⟩ op ⟨s', history'⟩ h ⟨hstep, hseen⟩
  cases op with
  | add hexAddr isWrite =>
      obtain ⟨accepted, hok⟩ := hstep
      have hnew : history' = history ++ newly hexAddr accepted := by
        simpa only [acceptedBy, hok] using hseen
      rw [hnew]
      exact h.addTransaction hok
  | tick =>
      have hnew : history' = history := by simpa only [acceptedBy, List.append_nil] using hseen
      rw [hnew]
      exact h.clockTick.of_ok hstep

/-- In every run of a cube whose vaults return each accepted transaction exactly once, next to
the history of the accepted addresses: the entries of `resp_lookup_table_` for an address are as
many as the requests for it that have not come back from a vault, an accepted request is waiting,
on its way back or answered, and a counter is positive if and only if its queue is not empty.  A
tick takes no packet from an empty queue and finds the response of each returned transaction, and
no address has more callbacks than accepted requests. -/
theorem hmc_requests_conserved (law : vault.Lawful) {ctrls : Fin config.channels → σ}
    (hinv : ∀ i, law.Inv (ctrls i)) (hempty : ∀ i a, law.held (ctrls i) a = 0) {ops : List HMCOp}
    {s : HMCMemorySystem config σ} {history : List Nat}
    (hrun : ((hmcSystem config vault ctrls).observe acceptedBy).Run ops (s, history)) :
    (∀ a, s.entries a = s.inLinks a + s.inQuads a + s.inVaults law.held a) ∧
    (∀ a, history.count a = s.entries a + s.responses a + s.answered a) ∧
    (∀ i, 0 < s.linkAgeCounter i ↔ s.linkReqQueues i ≠ []) ∧
    (∀ i, 0 < s.quadAgeCounter i ↔ s.quadRespQueues i ≠ []) ∧
    (∀ e, s.clockTick vault = .error e → ∃ e', e = .vault e') ∧
    ∀ a, s.answered a ≤ history.count a := by
  have h := balanced_of_run law hinv hempty hrun
  refine ⟨fun a => ?_, h.flow, h.linkAge, h.quadAge, fun e he => h.clockTick.of_error he,
    fun a => ?_⟩
  · exact h.entries a
  · have := h.flow a
    omega

/-- The default cube, with controllers as vaults. -/
abbrev DefaultCube : Type := HMCMemorySystem defaultCube (Controller defaultCube.toConfig)

abbrev defaultSystem : System DefaultCube HMCOp :=
  hmcSystem defaultCube (controllerVault _) fun _ => {}

/-- The state after some operations, as far as each meets a condition. -/
def replayCube (cond : DefaultCube → HMCOp → Prop) [∀ s op, Decidable (cond s op)]
    (ops : List HMCOp) : Option DefaultCube :=
  System.replay (fun s op => if cond s op then s.perform (controllerVault _) op else none) ops
    { ctrls := fun _ => {} }

theorem exists_run_of_replayCube (cond : DefaultCube → HMCOp → Prop)
    [∀ s op, Decidable (cond s op)] (ops : List HMCOp) (P : DefaultCube → Prop) [DecidablePred P]
    (h : ((replayCube cond ops).any fun s => P s) = true) :
    ∃ s, (defaultSystem.restrict cond).Run ops s ∧ P s := by
  obtain ⟨s, hs, hP⟩ := (Option.any_eq_true _ _).mp h
  refine ⟨s, ?_, of_decide_eq_true hP⟩
  refine System.run_of_replay (S := defaultSystem.restrict cond) (fun s op s' (_ : True) hop => ?_)
    .start (fun _ _ => trivial) hs
  obtain ⟨hcond, hop⟩ := Option.ite_none_right_eq_some.mp hop
  exact ⟨step_of_perform hop, hcond⟩

/-- Two reads share one command of their vault.  One of them has been answered, and the response
of the other waits at its link. -/
theorem hmc_requests_conserved_shared_read :
    ∃ (s : DefaultCube) (ops : List HMCOp) (history : List Nat),
      (defaultSystem.observe acceptedBy).Run ops (s, history) ∧
      s.entries 0 = 0 ∧ s.responses 0 = 1 ∧ s.answered 0 = 1 ∧
      history.count 0 = s.entries 0 + s.responses 0 + s.answered 0 := by
  obtain ⟨s, hrun, hentries, hresponses, hanswered⟩ := exists_run_of_replayCube
    (fun _ _ => True) ([.add 0 false, .add 0 false, .add 512 true] ++ List.replicate 60 .tick)
    (fun s => s.entries 0 = 0 ∧ s.responses 0 = 1 ∧ s.answered 0 = 1) (by decide +kernel)
  obtain ⟨history, hobserved⟩ := hrun.of_restrict.observe acceptedBy
  have h := hmc_requests_conserved (controllerVault_lawful _) (fun _ => Controller.Sound.init)
    (fun _ _ => rfl) hobserved
  exact ⟨s, _, history, hobserved, hentries, hresponses, hanswered, h.2.1 0⟩

end HMCMemorySystem

end Dramsim
