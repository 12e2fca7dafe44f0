import Dramsim.Hmc.Conservation
import Dramsim.Hmc.Loops

/-!
# Callbacks of a cube

A vault returns an address, and `VaultCallback` takes the first response of this address from
`resp_lookup_table_`, whichever request it was made for.  As long as the requests of an address
that are under way are all reads or all writes, this is a response of the right kind, and the
callbacks follow what the vault has completed (`Sorted`).  A write that overtakes a read of its
address in the vault gets the read its callback instead.

The books are kept for each address and kind, in the same way as those of `Balanced`.
-/

namespace Dramsim

open Library

/-- A request of this address and kind. -/
def HMCRequest.carries {vaults : Nat} (it : Nat × Bool) (req : HMCRequest vaults) : Bool :=
  (req.memOperand, req.isWrite) == it

/-- A response of this address that ends in the callback of this kind. -/
def HMCResponse.carries {links : Nat} (it : Nat × Bool) (resp : HMCResponse links) : Bool :=
  (resp.respId, decide (resp.type ≠ .rdRs)) == it

namespace HMCMemorySystem

variable {config : HMCConfig} {σ : Type} {vault : Vault σ} {s s' : HMCMemorySystem config σ}
  {req : HMCRequest config.channels}

/-! ## The books by kind -/

/-- The entries of an address and kind in `resp_lookup_table_`. -/
def entriesOf (s : HMCMemorySystem config σ) (it : Nat × Bool) : Nat :=
  s.respLookupTable.countP (HMCResponse.carries it)

/-- The requests on their way to the vaults. -/
def requestsOf (s : HMCMemorySystem config σ) (it : Nat × Bool) : Nat :=
  countIn s.linkReqQueues (HMCRequest.carries it) + countIn s.quadReqQueues (HMCRequest.carries it)

/-- What the vaults count. -/
def inVaultsOf (count : σ → Nat × Bool → Nat) (s : HMCMemorySystem config σ)
    (it : Nat × Bool) : Nat :=
  total fun i => count (s.ctrls i) it

/-- The responses on their way back. -/
def responsesOf (s : HMCMemorySystem config σ) (it : Nat × Bool) : Nat :=
  countIn s.quadRespQueues (HMCResponse.carries it) +
    countIn s.linkRespQueues (HMCResponse.carries it)

/-- The books agree for reads and writes apart, up to the transactions that `VaultCallback` still
has to be told, and the entries of an address are of one kind. -/
structure Sorted (law : vault.Faithful) (owed : List (Nat × Bool)) (s : HMCMemorySystem config σ) :
    Prop where
  vaults : ∀ i, law.Inv (s.ctrls i)
  entries : ∀ it, s.entriesOf it = s.requestsOf it + s.inVaultsOf law.held it + owed.count it
  oneKind : ∀ a, s.entriesOf (a, false) = 0 ∨ s.entriesOf (a, true) = 0
  flow : ∀ it, s.inVaultsOf law.completed it =
    s.responsesOf it + s.callbacks.count it + owed.count it

theorem inVaultsOf_update (count : σ → Nat × Bool → Nat) (s : HMCMemorySystem config σ)
    (i : Fin config.channels) (ctrl : σ) (it : Nat × Bool) :
    inVaultsOf count { s with ctrls := Function.update s.ctrls i ctrl } it + count (s.ctrls i) it =
      inVaultsOf count s it + count ctrl it :=
  total_comp_update (fun v => count v it) s.ctrls i ctrl

namespace Sorted

variable {law : vault.Faithful} {owed : List (Nat × Bool)}

theorem same (h : Sorted law owed s) (hs : SamePackets s s') : Sorted law owed s' := by
  refine ⟨hs.ctrls ▸ h.vaults, fun it => ?_, fun a => ?_, fun it => ?_⟩
  · simpa only [entriesOf, requestsOf, inVaultsOf, hs.respLookupTable, hs.linkReqQueues,
      hs.quadReqQueues, hs.ctrls] using h.entries it
  · simpa only [entriesOf, hs.respLookupTable] using h.oneKind a
  · simpa only [responsesOf, inVaultsOf, hs.quadRespQueues, hs.linkRespQueues, hs.callbacks,
      hs.ctrls] using h.flow it

theorem drainQuad (h : Sorted law owed s) (i : Fin 4) : Sorted law owed (s.drainQuad vault i) := by
  unfold HMCMemorySystem.drainQuad
  split
  · exact h
  · rename_i req rest hq
    split
    · rename_i hready
      obtain ⟨hinv, hcounts⟩ := law.add _ _ _ (h.vaults req.vault) hready.2.2
      refine ⟨forall_vaults_update h.vaults hinv, fun it => ?_, h.oneKind, fun it => ?_⟩
      · have hbooks := h.entries it
        have hpop := countIn_pop hq (HMCRequest.carries it)
        have hvault := inVaultsOf_update law.held s req.vault
          (vault.addTransaction (s.ctrls req.vault) req.memOperand req.isWrite) it
        have hadd := (hcounts it).1
        simp only [HMCRequest.carries, beq_iff_eq] at hpop
        simp only [entriesOf, requestsOf, inVaultsOf] at hbooks hvault ⊢
        omega
      · have hbooks := h.flow it
        have hvault := inVaultsOf_update law.completed s req.vault
          (vault.addTransaction (s.ctrls req.vault) req.memOperand req.isWrite) it
        have hadd := (hcounts it).2
        simp only [responsesOf, inVaultsOf] at hbooks hvault ⊢
        omega
    · exact h

theorem drainLink (h : Sorted law owed s) (link : Fin config.numLinks) :
    Ensures (s.drainLink link) (Sorted law owed) fun _ => True := by
  unfold HMCMemorySystem.drainLink
  split
  · trivial
  · rename_i req rest hq
    split
    · refine ⟨h.vaults, fun it => ?_, h.oneKind, h.flow⟩
      have hbooks := h.entries it
      have hpop := countIn_pop hq (HMCRequest.carries it)
      have hpush := countIn_push s.quadReqQueues req.quad
        { req with exitTime := s.logicClk + req.flits } (HMCRequest.carries it)
      have hcarries : HMCRequest.carries it { req with exitTime := s.logicClk + req.flits } =
        req.carries it := rfl
      rw [hcarries] at hpush
      simp only [entriesOf, requestsOf, inVaultsOf] at hbooks ⊢
      omega
    · exact h.same ⟨rfl, rfl, rfl, rfl, rfl, rfl, rfl⟩

theorem answer (h : Sorted law owed s) (i : Fin config.numLinks) :
    Sorted law owed (s.answer i) := by
  unfold HMCMemorySystem.answer
  split
  · exact h
  · rename_i resp rest hq
    split
    · refine ⟨h.vaults, h.entries, h.oneKind, fun it => ?_⟩
      have hbooks := h.flow it
      have hpop := countIn_pop hq (HMCResponse.carries it)
      have hcall : [(resp.respId, decide (resp.type ≠ .rdRs))].count it =
        if resp.carries it then 1 else 0 := List.count_singleton
      simp only [responsesOf, inVaultsOf, List.count_append, hcall] at hbooks ⊢
      omega
    · exact h

theorem drainQuadResponse (h : Sorted law owed s) (quad : Fin 4) :
    Ensures (s.drainQuadResponse quad) (Sorted law owed) fun _ => True := by
  unfold HMCMemorySystem.drainQuadResponse
  split
  · trivial
  · rename_i resp rest hq
    split
    · refine ⟨h.vaults, h.entries, h.oneKind, fun it => ?_⟩
      have hbooks := h.flow it
      have hpop := countIn_pop hq (HMCResponse.carries it)
      have hpush := countIn_push s.linkRespQueues resp.link
        { resp with exitTime := s.logicClk + resp.flits } (HMCResponse.carries it)
      have hcarries : HMCResponse.carries it { resp with exitTime := s.logicClk + resp.flits } =
        resp.carries it := rfl
      rw [hcarries] at hpush
      simp only [responsesOf, inVaultsOf] at hbooks ⊢
      omega
    · exact h.same ⟨rfl, rfl, rfl, rfl, rfl, rfl, rfl⟩

/-- The response that `VaultCallback` takes is of the kind that the vault has returned. -/
theorem carries_of_find {it : Nat × Bool} (h : Sorted law (it :: owed) s)
    {resp : HMCResponse config.numLinks}
    (hfind : s.respLookupTable.find? (fun resp => resp.respId = it.1) = some resp) :
    (resp.respId, decide (resp.type ≠ .rdRs)) = it := by
  obtain ⟨a, isWrite⟩ := it
  have hid : resp.respId = a := by simpa using List.find?_some hfind
  have hentry := h.entries (a, isWrite)
  rw [List.count_cons_self] at hentry
  -- an entry of the other kind would make both kinds present
  have hself : 0 < s.entriesOf (a, decide (resp.type ≠ .rdRs)) := by
    refine List.countP_pos_iff.mpr ⟨resp, List.mem_of_find?_eq_some hfind, ?_⟩
    rw [HMCResponse.carries, hid]
    exact beq_self_eq_true _
  rw [hid]
  have hone := h.oneKind a
  cases hkind : decide (resp.type ≠ .rdRs) with
  | false =>
      rw [hkind] at hself
      cases isWrite with
      | false => rfl
      | true => omega
  | true =>
      rw [hkind] at hself
      cases isWrite with
      | false => omega
      | true => rfl

theorem vaultCallback {it : Nat × Bool} (h : Sorted law (it :: owed) s) :
    Ensures (s.vaultCallback it.1) (Sorted law owed) fun _ => True := by
  unfold HMCMemorySystem.vaultCallback
  split
  · trivial
  · rename_i resp hfind
    have hkind := h.carries_of_find hfind
    have hcarries (it' : Nat × Bool) : resp.carries it' = (it == it') := by
      rw [HMCResponse.carries, hkind]
    have hcount (it' : Nat × Bool) := countP_find hfind (HMCResponse.carries it')
    refine ⟨h.vaults, fun it' => ?_, fun a => ?_, fun it' => ?_⟩
    · have hbooks := h.entries it'
      have hentry := hcount it'
      rw [List.count_cons] at hbooks
      rw [hcarries] at hentry
      simp only [entriesOf, requestsOf, inVaultsOf] at hbooks ⊢
      omega
    · have hread := hcount (a, false)
      have hwrite := hcount (a, true)
      have hone := h.oneKind a
      simp only [entriesOf] at hone ⊢
      omega
    · have hbooks := h.flow it'
      have hpush := countIn_push s.quadRespQueues resp.quad resp (HMCResponse.carries it')
      rw [List.count_cons] at hbooks
      rw [hcarries] at hpush
      simp only [responsesOf, inVaultsOf] at hbooks ⊢
      omega

theorem vaultCallbacks :
    ∀ {done : List (Nat × Bool)} {s : HMCMemorySystem config σ}, Sorted law done s →
      Ensures (done.foldlM (fun s it => s.vaultCallback it.1) s) (Sorted law []) fun _ => True
  | [], _, h => h
  | it :: done, s, h => by
      rw [List.foldlM_cons]
      exact Ensures.bind (vaultCallback h) fun s' hs' => vaultCallbacks hs'

theorem returnVault (h : Sorted law [] s) (i : Fin config.channels) :
    Ensures (s.returnVault vault i) (Sorted law []) fun _ => True := by
  rw [returnVault_eq]
  obtain ⟨hinv, hcounts⟩ := law.done (s.ctrls i) s.clk (h.vaults i)
  refine vaultCallbacks ⟨forall_vaults_update h.vaults hinv, fun it => ?_, h.oneKind, fun it => ?_⟩
  · have hbooks := h.entries it
    have hvault := inVaultsOf_update law.held s i (vault.returnDone (s.ctrls i) s.clk).2 it
    have hdone := (hcounts it).1
    rw [List.count_nil] at hbooks
    simp only [entriesOf, requestsOf, inVaultsOf] at hbooks hvault ⊢
    omega
  · have hbooks := h.flow it
    have hvault := inVaultsOf_update law.completed s i (vault.returnDone (s.ctrls i) s.clk).2 it
    have hdone := (hcounts it).2
    rw [List.count_nil] at hbooks
    simp only [responsesOf, inVaultsOf] at hbooks hvault ⊢
    omega

theorem tickVault (h : Sorted law [] s) (i : Fin config.channels) :
    Ensures (s.tickVault vault i) (Sorted law []) fun _ => True := by
  unfold HMCMemorySystem.tickVault
  cases hctrl : vault.clockTick (s.ctrls i) with
  | error e => trivial
  | ok ctrl =>
      obtain ⟨hinv, hcounts⟩ := law.tick _ _ (h.vaults i) hctrl
      refine ⟨forall_vaults_update h.vaults hinv, fun it => ?_, h.oneKind, fun it => ?_⟩
      · have hbooks := h.entries it
        have hvault := inVaultsOf_update law.held s i ctrl it
        have htick := (hcounts it).1
        simp only [entriesOf, requestsOf, inVaultsOf] at hbooks hvault ⊢
        omega
      · have hbooks := h.flow it
        have hvault := inVaultsOf_update law.completed s i ctrl it
        have htick := (hcounts it).2
        simp only [responsesOf, inVaultsOf] at hbooks hvault ⊢
        omega

/-- A request enters with a response of its kind, and no entry of its address is of the other. -/
theorem entered (h : Sorted law [] s) (hs : s.Entered req s')
    (hkind : ∀ resp : HMCRespType × Nat, req.type.response = .ok resp →
      decide (resp.1 ≠ .rdRs) = req.isWrite)
    (hother : s.entriesOf (req.memOperand, !req.isWrite) = 0) : Sorted law [] s' := by
  obtain ⟨link, resp, _, hresp, hs⟩ := hs
  have hcarries (it : Nat × Bool) : resp.carries it = req.carries it := by
    obtain ⟨made, hmade, hresp⟩ := bind_eq_ok.mp hresp
    cases hresp
    rw [HMCResponse.carries, HMCRequest.carries, hkind made hmade]
  have hcount (it : Nat × Bool) : (s.pushed req link resp).entriesOf it =
      s.entriesOf it + if req.carries it then 1 else 0 := by
    rw [entriesOf, pushed, List.countP_append, List.countP_singleton, hcarries, entriesOf]
  rw [hs]
  refine ⟨h.vaults, fun it => ?_, fun a => ?_, h.flow⟩
  · have hbooks := h.entries it
    have hpush := countIn_push s.linkReqQueues link req (HMCRequest.carries it)
    have hentry := hcount it
    simp only [entriesOf, requestsOf, inVaultsOf, pushed] at hbooks hentry ⊢
    omega
  · have hread := hcount (a, false)
    have hwrite := hcount (a, true)
    have hone := h.oneKind a
    by_cases ha : req.memOperand = a
    · subst ha
      simp only [HMCRequest.carries] at hread hwrite
      cases hisWrite : req.isWrite with
      | false =>
          simp only [hisWrite] at hother hread hwrite
          exact .inr (hwrite.trans (by simpa using hother))
      | true =>
          simp only [hisWrite] at hother hread hwrite
          exact .inl (hread.trans (by simpa using hother))
    · have hnot (isWrite : Bool) : req.carries (a, isWrite) = false :=
        beq_eq_false_iff_ne.mpr fun he => ha (congrArg Prod.fst he)
      simp only [hnot, Bool.false_eq_true, if_false, Nat.add_zero] at hread hwrite
      exact hone.imp hread.trans hwrite.trans

end Sorted

theorem preserved_sorted (law : vault.Faithful) :
    Preserved vault (@Sorted config σ vault law []) where
  same h hs := h.same hs
  drainQuad _ i h := h.drainQuad i
  drainLink _ i h := h.drainLink i
  answer _ i h := h.answer i
  drainQuadResponse _ i h := h.drainQuadResponse i
  returnVault _ i h := h.returnVault i
  tickVault _ i h := h.tickVault i

/-! ## The vault of an address -/

/-- A request goes to the vault of its address, and no other vault has to do with it. -/
structure Routed (law : vault.Faithful) (s : HMCMemorySystem config σ) : Prop where
  vaults : ∀ i, law.Inv (s.ctrls i)
  links : ∀ i, ∀ req ∈ s.linkReqQueues i, req.vault = config.vaultOf req.memOperand
  quads : ∀ i, ∀ req ∈ s.quadReqQueues i, req.vault = config.vaultOf req.memOperand
  others : ∀ i it, i ≠ config.vaultOf it.1 →
    law.held (s.ctrls i) it = 0 ∧ law.completed (s.ctrls i) it = 0

theorem forall_mem_update {n : Nat} {α : Type} {queues : Fin n → List α} {P : α → Prop}
    (h : ∀ i, ∀ x ∈ queues i, P x) {i : Fin n} {q : List α} (hq : ∀ x ∈ q, P x) (j : Fin n) :
    ∀ x ∈ Function.update queues i q j, P x := by
  by_cases hj : j = i
  · rw [hj, Function.update_self]
    exact hq
  · rw [Function.update_of_ne hj]
    exact h j

namespace Routed

variable {law : vault.Faithful}

/-- One vault changes. -/
theorem update (h : Routed law s) {i : Fin config.channels} {ctrl : σ} (hctrl : law.Inv ctrl)
    (hothers : ∀ it, i ≠ config.vaultOf it.1 → law.held ctrl it = 0 ∧ law.completed ctrl it = 0) :
    Routed law { s with ctrls := Function.update s.ctrls i ctrl } := by
  refine ⟨fun j => ?_, h.links, h.quads, fun j it hj => ?_⟩
  · by_cases hji : j = i
    · simp only [hji, Function.update_self]
      exact hctrl
    · simp only [Function.update_of_ne hji]
      exact h.vaults j
  · by_cases hji : j = i
    · simp only [hji, Function.update_self]
      exact hothers it (hji ▸ hj)
    · simp only [Function.update_of_ne hji]
      exact h.others j it hj

theorem same (h : Routed law s) (hs : SamePackets s s') : Routed law s' :=
  ⟨hs.ctrls ▸ h.vaults, hs.linkReqQueues ▸ h.links, hs.quadReqQueues ▸ h.quads, hs.ctrls ▸ h.others⟩

theorem drainQuad (h : Routed law s) (i : Fin 4) : Routed law (s.drainQuad vault i) := by
  unfold HMCMemorySystem.drainQuad
  split
  · exact h
  · rename_i req rest hq
    have hmem := h.quads i
    rw [hq] at hmem
    obtain ⟨hroute, hrest⟩ := List.forall_mem_cons.mp hmem
    split
    · rename_i hready
      obtain ⟨hinv, hcounts⟩ := law.add _ _ _ (h.vaults req.vault) hready.2.2
      have hnext := h.update hinv fun it hit => by
        have hne : (req.memOperand, req.isWrite) ≠ it := fun he =>
          hit (hroute.trans (congrArg (fun it : Nat × Bool => config.vaultOf it.1) he))
        rw [(hcounts it).1, (hcounts it).2, if_neg hne]
        exact h.others req.vault it hit
      exact ⟨hnext.vaults, hnext.links, forall_mem_update h.quads hrest, hnext.others⟩
    · exact h

theorem drainLink (h : Routed law s) (link : Fin config.numLinks) :
    Ensures (s.drainLink link) (Routed law) fun _ => True := by
  unfold HMCMemorySystem.drainLink
  split
  · trivial
  · rename_i req rest hq
    have hmem := h.links link
    rw [hq] at hmem
    obtain ⟨hroute, hrest⟩ := List.forall_mem_cons.mp hmem
    split
    · refine ⟨h.vaults, forall_mem_update h.links hrest, forall_mem_update h.quads ?_, h.others⟩
      exact List.forall_mem_append.mpr ⟨h.quads req.quad, List.forall_mem_singleton.mpr hroute⟩
    · exact h.same ⟨rfl, rfl, rfl, rfl, rfl, rfl, rfl⟩

theorem answer (h : Routed law s) (i : Fin config.numLinks) : Routed law (s.answer i) := by
  unfold HMCMemorySystem.answer
  split
  · exact h
  · split
    · exact ⟨h.vaults, h.links, h.quads, h.others⟩
    · exact h

theorem drainQuadResponse (h : Routed law s) (quad : Fin 4) :
    Ensures (s.drainQuadResponse quad) (Routed law) fun _ => True := by
  unfold HMCMemorySystem.drainQuadResponse
  split
  · trivial
  · split
    · exact ⟨h.vaults, h.links, h.quads, h.others⟩
    · exact ⟨h.vaults, h.links, h.quads, h.others⟩

theorem vaultCallback (h : Routed law s) (a : Nat) :
    Ensures (s.vaultCallback a) (Routed law) fun _ => True := by
  unfold HMCMemorySystem.vaultCallback
  split
  · trivial
  · exact ⟨h.vaults, h.links, h.quads, h.others⟩

theorem returnVault (h : Routed law s) (i : Fin config.channels) :
    Ensures (s.returnVault vault i) (Routed law) fun _ => True := by
  rw [returnVault_eq]
  obtain ⟨hinv, hcounts⟩ := law.done (s.ctrls i) s.clk (h.vaults i)
  refine Ensures.foldlM _ (fun _ it hs => hs.vaultCallback it.1) _ _
    (h.update hinv fun it hit => ?_)
  have hold := h.others i it hit
  obtain ⟨hheld, hcompleted⟩ := hcounts it
  omega

theorem tickVault (h : Routed law s) (i : Fin config.channels) :
    Ensures (s.tickVault vault i) (Routed law) fun _ => True := by
  unfold HMCMemorySystem.tickVault
  cases hctrl : vault.clockTick (s.ctrls i) with
  | error e => trivial
  | ok ctrl =>
      obtain ⟨hinv, hcounts⟩ := law.tick _ _ (h.vaults i) hctrl
      refine h.update hinv fun it hit => ?_
      rw [(hcounts it).1, (hcounts it).2]
      exact h.others i it hit

theorem entered (h : Routed law s) (hs : s.Entered req s')
    (hroute : req.vault = config.vaultOf req.memOperand) : Routed law s' := by
  obtain ⟨link, resp, _, _, hs⟩ := hs
  rw [hs]
  refine ⟨h.vaults, forall_mem_update h.links ?_, h.quads, h.others⟩
  exact List.forall_mem_append.mpr ⟨h.links link, List.forall_mem_singleton.mpr hroute⟩

/-- What all vaults have completed of an address is what its vault has. -/
theorem inVaultsOf_eq (h : Routed law s) (it : Nat × Bool) :
    s.inVaultsOf law.completed it = law.completed (s.ctrls (config.vaultOf it.1)) it := by
  refine total_eq_single (i := config.vaultOf it.1) fun j hj => ?_
  exact (h.others j it hj).2

end Routed

theorem preserved_routed (law : vault.Faithful) : Preserved vault (@Routed config σ vault law) where
  same h hs := h.same hs
  drainQuad _ i h := h.drainQuad i
  drainLink _ i h := h.drainLink i
  answer _ i h := h.answer i
  drainQuadResponse _ i h := h.drainQuadResponse i
  returnVault _ i h := h.returnVault i
  tickVault _ i h := h.tickVault i

/-! ## Runs -/

/-- A transaction is added only if those of its address that are under way are of its kind. -/
def KeepsKind (s : HMCMemorySystem config σ) : HMCOp → Prop
  | .add hexAddr isWrite => s.entriesOf (hexAddr, !isWrite) = 0
  | .tick => True

instance (s : HMCMemorySystem config σ) : (op : HMCOp) → Decidable (s.KeepsKind op)
  | .add _ _ => inferInstanceAs (Decidable (_ = _))
  | .tick => inferInstanceAs (Decidable True)

/-- The types of `AddTransaction` have responses of their kind. -/
theorem kind_ofBlock {blockSize : Nat} {isWrite : Bool} {type : HMCReqType}
    (h : HMCReqType.ofBlock blockSize isWrite = .ok type) :
    type.isWrite = isWrite ∧
      ∀ resp, type.response = .ok resp → decide (resp.1 ≠ .rdRs) = isWrite := by
  unfold HMCReqType.ofBlock at h
  split at h <;> cases h <;> refine ⟨rfl, fun resp hresp => ?_⟩ <;> cases hresp <;> rfl

theorem create_spec {type : HMCReqType} {hexAddr : Nat} {v : Fin config.channels}
    (h : HMCRequest.create type hexAddr v = .ok req) :
    req.type = type ∧ req.memOperand = hexAddr ∧ req.vault = v ∧ req.isWrite = type.isWrite := by
  obtain ⟨_, _, h⟩ := bind_eq_ok.mp h
  cases h
  exact ⟨rfl, rfl, rfl, rfl⟩

theorem sorted_of_run (law : vault.Faithful) {ctrls : Fin config.channels → σ}
    (hinv : ∀ i, law.Inv (ctrls i))
    (hempty : ∀ i it, law.held (ctrls i) it = 0 ∧ law.completed (ctrls i) it = 0) {ops : List HMCOp}
    (hrun : ((hmcSystem config vault ctrls).restrict KeepsKind).Run ops s) :
    Sorted law [] s ∧ Routed law s := by
  refine hrun.invariant (fun s => Sorted law [] s ∧ Routed law s) ⟨?_, ?_⟩ ?_
  · refine ⟨hinv, fun it => ?_, fun _ => .inl rfl, fun it => ?_⟩
    · simp [entriesOf, requestsOf, inVaultsOf, hempty, System.restrict, hmcSystem]
    · simp [responsesOf, inVaultsOf, hempty, System.restrict, hmcSystem]
  · exact ⟨hinv, fun _ _ h => absurd h List.not_mem_nil, fun _ _ h => absurd h List.not_mem_nil,
      fun i it _ => hempty i it⟩
  · rintro s op s' ⟨hsorted, hrouted⟩ ⟨hstep, hkeeps⟩
    cases op with
    | add hexAddr isWrite =>
        obtain ⟨accepted, hok⟩ := hstep
        obtain ⟨type, req, htype, hreq, ⟨_, hentered⟩ | ⟨_, hsame⟩⟩ := addTransaction_cases hok
        · obtain ⟨hisWrite, hkind⟩ := kind_ofBlock htype
          obtain ⟨rfl, rfl, hvault, hreqKind⟩ := create_spec hreq
          rw [hisWrite] at hreqKind
          subst hreqKind
          exact ⟨hsorted.entered hentered hkind hkeeps, hrouted.entered hentered hvault⟩
        · rw [hsame]
          exact ⟨hsorted.same ⟨rfl, rfl, rfl, rfl, rfl, rfl, rfl⟩,
            hrouted.same ⟨rfl, rfl, rfl, rfl, rfl, rfl, rfl⟩⟩
    | tick => exact ⟨((preserved_sorted law).clockTick hsorted).of_ok hstep,
        ((preserved_routed law).clockTick hrouted).of_ok hstep⟩

theorem calls_le_completed {law : vault.Faithful} (hsorted : Sorted law [] s)
    (hrouted : Routed law s) (it : Nat × Bool) :
    s.callbacks.count it ≤ law.completed (s.ctrls (config.vaultOf it.1)) it := by
  rw [← hrouted.inVaultsOf_eq, hsorted.flow]
  omega

/-- If reads and writes of one address are never under way together, then `read_callback_` is made
at most as often for an address as its vault has completed reads of it, and `write_callback_` as it
has completed writes.  This holds between the ticks, and after the responses have been drained at
the start of a tick, before the vaults complete anything in it. -/
theorem callbacks_follow_completions {ops : List HMCOp}
    {s : HMCMemorySystem config (Controller config.toConfig)}
    (hrun : ((hmcSystem config (controllerVault _) fun _ => {}).restrict KeepsKind).Run ops s)
    (a : Nat) (isWrite : Bool) :
    s.callbacks.count (a, isWrite) ≤ (s.ctrls (config.vaultOf a)).returnedCount isWrite a ∧
    ∀ s', s.drainResponses = .ok s' →
      s'.callbacks.count (a, isWrite) ≤ (s'.ctrls (config.vaultOf a)).returnedCount isWrite a := by
  obtain ⟨hsorted, hrouted⟩ := sorted_of_run (controllerVault_faithful config.toConfig)
    (fun _ => Controller.Sound.init) (fun _ it => ⟨Controller.unreturned_init it.2 it.1, rfl⟩) hrun
  refine ⟨calls_le_completed hsorted hrouted (a, isWrite), fun s' hs' => ?_⟩
  exact calls_le_completed (((preserved_sorted _).drainResponses hsorted).of_ok hs')
    (((preserved_routed _).drainResponses hrouted).of_ok hs') (a, isWrite)

/-- A read alone, until its callback. -/
theorem callbacks_follow_completions_read :
    ∃ (s : DefaultCube) (ops : List HMCOp), (defaultSystem.restrict KeepsKind).Run ops s ∧
      s.callbacks = [(0, false)] ∧
      s.callbacks.count (0, false) ≤ (s.ctrls (defaultCube.vaultOf 0)).returnedCount false 0 := by
  obtain ⟨s, hrun, hcalls⟩ := exists_run_of_replayCube KeepsKind
    (.add 0 false :: List.replicate 60 .tick)
    (fun s => s.callbacks = [(0, false)]) (by decide +kernel)
  exact ⟨s, _, hrun, hcalls, (callbacks_follow_completions hrun 0 false).1⟩

/-- A write follows a read of its address.  The vault completes the write at once, and the read,
which it has not completed, gets the callback. -/
theorem callbacks_swapped :
    ∃ s : DefaultCube,
      defaultSystem.Run
        (.add 0 false :: (List.replicate 3 .tick ++ .add 0 true :: List.replicate 9 .tick)) s ∧
      s.callbacks = [(0, false)] ∧
      (s.ctrls (defaultCube.vaultOf 0)).returnedCount false 0 = 0 := by
  obtain ⟨s, hrun, hcounts⟩ := exists_run_of_replayCube (fun _ _ => True)
    (.add 0 false :: (List.replicate 3 .tick ++ .add 0 true :: List.replicate 9 .tick))
    (fun s => s.callbacks = [(0, false)] ∧
      (s.ctrls (defaultCube.vaultOf 0)).returnedCount false 0 = 0) (by decide +kernel)
  exact ⟨s, hrun.of_restrict, hcounts⟩

end HMCMemorySystem

end Dramsim
