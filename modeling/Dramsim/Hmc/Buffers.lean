import Dramsim.Hmc.Conservation
import Dramsim.Hmc.Loops

/-!
# The buffers of a cube

A packet moves on only if the next queue has room, so that the queues of the links and the
request queues of the quads never hold more than `queue_depth_` packets.  The response queue of
a quad is filled by `VaultCallback`, which does not look at its length.  What bounds it is the
number of requests that were let in: a response is in `resp_lookup_table_` before it comes to
its quad (`due`).
-/

namespace Dramsim

open Library

namespace HMCMemorySystem

variable {config : HMCConfig} {σ : Type} {vault : Vault σ} {s s' : HMCMemorySystem config σ}
  {req : HMCRequest config.channels}

theorem length_update_le {n : Nat} {α : Type} {queues : Fin n → List α} {depth : Nat}
    (h : ∀ i, (queues i).length ≤ depth) {i : Fin n} {q : List α} (hq : q.length ≤ depth)
    (j : Fin n) : (Function.update queues i q j).length ≤ depth := by
  by_cases hj : j = i
  · rw [hj, Function.update_self]
    exact hq
  · rw [Function.update_of_ne hj]
    exact h j

theorem length_tail_le {n : Nat} {α : Type} {queues : Fin n → List α} {depth : Nat}
    (h : ∀ i, (queues i).length ≤ depth) {i : Fin n} {x : α} {rest : List α}
    (hq : queues i = x :: rest) : rest.length ≤ depth := by
  have hlen := h i
  rw [hq, List.length_cons] at hlen
  omega

theorem length_push_le {α : Type} {q : List α} {x : α} {depth : Nat} (h : q.length < depth) :
    (q ++ [x]).length ≤ depth := by
  rw [List.length_append, List.length_singleton]
  exact h

/-! ## Queues that are checked before a packet moves on -/

/-- No packet enters a full queue, except at the responses of the quads. -/
structure Checked (s : HMCMemorySystem config σ) : Prop where
  linkReq : ∀ i, (s.linkReqQueues i).length ≤ config.xbarQueueDepth
  quadReq : ∀ i, (s.quadReqQueues i).length ≤ config.xbarQueueDepth
  linkResp : ∀ i, (s.linkRespQueues i).length ≤ config.xbarQueueDepth

namespace Checked

theorem drainQuad (h : Checked s) (i : Fin 4) : Checked (s.drainQuad vault i) := by
  unfold HMCMemorySystem.drainQuad
  split
  · exact h
  · rename_i req rest hq
    split
    · exact ⟨h.linkReq, length_update_le h.quadReq (length_tail_le h.quadReq hq), h.linkResp⟩
    · exact h

theorem drainLink (h : Checked s) (link : Fin config.numLinks) :
    Ensures (s.drainLink link) Checked fun _ => True := by
  unfold HMCMemorySystem.drainLink
  split
  · trivial
  · rename_i req rest hq
    split
    · rename_i hroom
      exact ⟨length_update_le h.linkReq (length_tail_le h.linkReq hq),
        length_update_le h.quadReq (length_push_le hroom.1), h.linkResp⟩
    · exact ⟨h.linkReq, h.quadReq, h.linkResp⟩

theorem answer (h : Checked s) (i : Fin config.numLinks) : Checked (s.answer i) := by
  unfold HMCMemorySystem.answer
  split
  · exact h
  · rename_i resp rest hq
    split
    · exact ⟨h.linkReq, h.quadReq, length_update_le h.linkResp (length_tail_le h.linkResp hq)⟩
    · exact h

theorem drainQuadResponse (h : Checked s) (quad : Fin 4) :
    Ensures (s.drainQuadResponse quad) Checked fun _ => True := by
  unfold HMCMemorySystem.drainQuadResponse
  split
  · trivial
  · split
    · rename_i hroom
      exact ⟨h.linkReq, h.quadReq, length_update_le h.linkResp (length_push_le hroom.1)⟩
    · exact ⟨h.linkReq, h.quadReq, h.linkResp⟩

theorem vaultCallback (h : Checked s) (a : Nat) :
    Ensures (s.vaultCallback a) Checked fun _ => True := by
  unfold HMCMemorySystem.vaultCallback
  split
  · trivial
  · exact ⟨h.linkReq, h.quadReq, h.linkResp⟩

theorem returnVault (h : Checked s) (i : Fin config.channels) :
    Ensures (s.returnVault vault i) Checked fun _ => True :=
  Ensures.foldlM Checked (fun _ it hs => hs.vaultCallback it.1) _ _
    ⟨h.linkReq, h.quadReq, h.linkResp⟩

theorem tickVault (h : Checked s) (i : Fin config.channels) :
    Ensures (s.tickVault vault i) Checked fun _ => True := by
  unfold HMCMemorySystem.tickVault
  cases vault.clockTick (s.ctrls i) with
  | error e => trivial
  | ok ctrl => exact ⟨h.linkReq, h.quadReq, h.linkResp⟩

theorem entered (h : Checked s) (hs : s.Entered req s') : Checked s' := by
  obtain ⟨link, resp, hroom, _, hs⟩ := hs
  rw [hs]
  exact ⟨length_update_le h.linkReq (length_push_le (not_not.mp hroom)), h.quadReq, h.linkResp⟩

end Checked

theorem preserved_checked : Preserved vault (@Checked config σ) where
  same h hs := ⟨hs.linkReqQueues ▸ h.linkReq, hs.quadReqQueues ▸ h.quadReq,
    hs.linkRespQueues ▸ h.linkResp⟩
  drainQuad _ i h := h.drainQuad i
  drainLink _ i h := h.drainLink i
  answer _ i h := h.answer i
  drainQuadResponse _ i h := h.drainQuadResponse i
  returnVault _ i h := h.returnVault i
  tickVault _ i h := h.tickVault i

/-! ## Responses of the quads -/

/-- The responses that wait at a quad or will come to it. -/
def due (s : HMCMemorySystem config σ) (quad : Fin 4) : Nat :=
  s.respLookupTable.countP (fun resp => resp.quad = quad) + (s.quadRespQueues quad).length

/-- Each response that is due at a quad has a place in its queue. -/
def Reserved (s : HMCMemorySystem config σ) : Prop := ∀ quad, s.due quad ≤ config.xbarQueueDepth

namespace Reserved

/-- Steps that leave the responses alone. -/
theorem congr (h : Reserved s) (htable : s'.respLookupTable = s.respLookupTable)
    (hqueues : s'.quadRespQueues = s.quadRespQueues) : Reserved s' := by
  intro quad
  rw [due, htable, hqueues]
  exact h quad

theorem drainQuad (h : Reserved s) (i : Fin 4) : Reserved (s.drainQuad vault i) := by
  unfold HMCMemorySystem.drainQuad
  split
  · exact h
  · split
    · exact h.congr rfl rfl
    · exact h

theorem drainLink (h : Reserved s) (link : Fin config.numLinks) :
    Ensures (s.drainLink link) Reserved fun _ => True := by
  unfold HMCMemorySystem.drainLink
  split
  · trivial
  · split
    · exact h.congr rfl rfl
    · exact h.congr rfl rfl

theorem answer (h : Reserved s) (i : Fin config.numLinks) : Reserved (s.answer i) := by
  unfold HMCMemorySystem.answer
  split
  · exact h
  · split
    · exact h.congr rfl rfl
    · exact h

theorem drainQuadResponse (h : Reserved s) (quad : Fin 4) :
    Ensures (s.drainQuadResponse quad) Reserved fun _ => True := by
  unfold HMCMemorySystem.drainQuadResponse
  split
  · trivial
  · rename_i resp rest hq
    split
    · intro i
      have hdue := h i
      unfold due at hdue ⊢
      by_cases hi : i = quad
      · rw [hi, hq, List.length_cons] at hdue
        simp only [hi, Function.update_self]
        omega
      · simpa only [Function.update_of_ne hi] using hdue
    · exact h.congr rfl rfl

/-- A response goes from the table to the queue of its quad. -/
theorem vaultCallback (h : Reserved s) (a : Nat) :
    Ensures (s.vaultCallback a) Reserved fun _ => True := by
  unfold HMCMemorySystem.vaultCallback
  split
  · trivial
  · rename_i resp hfind
    intro i
    have hdue := h i
    have hcount := countP_find hfind fun resp => decide (resp.quad = i)
    unfold due at hdue ⊢
    by_cases hi : i = resp.quad
    · simp only [← hi, decide_true, if_true] at hcount
      simp only [hi, Function.update_self, List.length_append, List.length_singleton] at hdue ⊢
      rw [hi] at hcount
      omega
    · rw [if_neg fun he => hi (of_decide_eq_true he).symm, Nat.add_zero] at hcount
      simpa only [Function.update_of_ne hi, ← hcount] using hdue

theorem returnVault (h : Reserved s) (i : Fin config.channels) :
    Ensures (s.returnVault vault i) Reserved fun _ => True :=
  Ensures.foldlM Reserved (fun _ it hs => hs.vaultCallback it.1) _ _ (h.congr rfl rfl)

theorem tickVault (h : Reserved s) (i : Fin config.channels) :
    Ensures (s.tickVault vault i) Reserved fun _ => True := by
  unfold HMCMemorySystem.tickVault
  cases vault.clockTick (s.ctrls i) with
  | error e => trivial
  | ok ctrl => exact h.congr rfl rfl

theorem entered (h : Reserved s) (hs : s.Entered req s')
    (hreserve : s.due req.quad < config.xbarQueueDepth) : Reserved s' := by
  obtain ⟨link, resp, _, hresp, hs⟩ := hs
  have hquad : resp.quad = req.quad := by
    obtain ⟨_, _, hresp⟩ := bind_eq_ok.mp hresp
    cases hresp
    rfl
  rw [hs]
  intro i
  have hdue := h i
  unfold due at hdue hreserve ⊢
  simp only [pushed, List.countP_append, List.countP_singleton, hquad, decide_eq_true_eq]
  split
  · rename_i hi
    rw [← hi]
    omega
  · exact hdue

end Reserved

theorem preserved_reserved : Preserved vault (@Reserved config σ) where
  same h hs := h.congr hs.respLookupTable hs.quadRespQueues
  drainQuad _ i h := h.drainQuad i
  drainLink _ i h := h.drainLink i
  answer _ i h := h.answer i
  drainQuadResponse _ i h := h.drainQuadResponse i
  returnVault _ i h := h.returnVault i
  tickVault _ i h := h.tickVault i

/-! ## Runs -/

/-- A transaction is added only if the response has a place at its quad. -/
def HasPlace (s : HMCMemorySystem config σ) : HMCOp → Prop
  | .add hexAddr _ =>
      ∀ quad : Fin 4, (quad : Nat) = config.vaultOf hexAddr % 4 → s.due quad < config.xbarQueueDepth
  | .tick => True

instance (s : HMCMemorySystem config σ) : (op : HMCOp) → Decidable (s.HasPlace op)
  | .add _ _ => inferInstanceAs (Decidable (∀ _ : Fin 4, _ → _))
  | .tick => inferInstanceAs (Decidable True)

/-- In every run the queues of the links and the request queues of the quads hold at most
`queue_depth_` packets.  So do the response queues of the quads, if transactions are added only
while their responses have a place. -/
theorem crossbar_buffers_bounded {ctrls : Fin config.channels → σ} {ops : List HMCOp}
    (hrun : (hmcSystem config vault ctrls).Run ops s) :
    (∀ i, (s.linkReqQueues i).length ≤ config.xbarQueueDepth) ∧
    (∀ i, (s.quadReqQueues i).length ≤ config.xbarQueueDepth) ∧
    (∀ i, (s.linkRespQueues i).length ≤ config.xbarQueueDepth) ∧
    (((hmcSystem config vault ctrls).restrict HasPlace).Run ops s →
      ∀ i, (s.quadRespQueues i).length ≤ config.xbarQueueDepth) := by
  have hchecked : Checked s := by
    refine hrun.invariant Checked ?_ fun s op s' h hs => ?_
    · exact ⟨fun _ => Nat.zero_le _, fun _ => Nat.zero_le _, fun _ => Nat.zero_le _⟩
    · cases op with
      | add hexAddr isWrite =>
          obtain ⟨accepted, hok⟩ := hs
          obtain ⟨_, req, _, _, ⟨_, hentered⟩ | ⟨_, hsame⟩⟩ := addTransaction_cases hok
          · exact h.entered hentered
          · rw [hsame]
            exact ⟨h.linkReq, h.quadReq, h.linkResp⟩
      | tick => exact (preserved_checked.clockTick h).of_ok hs
  refine ⟨hchecked.linkReq, hchecked.quadReq, hchecked.linkResp, fun hplaces i => ?_⟩
  have hreserved : Reserved s := by
    refine hplaces.invariant Reserved (fun _ => Nat.zero_le _) fun s op s' h hs => ?_
    cases op with
    | add hexAddr isWrite =>
        obtain ⟨⟨accepted, hok⟩, hplace⟩ := hs
        obtain ⟨_, req, _, hreq, ⟨_, hentered⟩ | ⟨_, hsame⟩⟩ := addTransaction_cases hok
        · refine h.entered hentered ?_
          obtain ⟨_, _, hreq⟩ := bind_eq_ok.mp hreq
          cases hreq
          exact hplace _ rfl
        · rw [hsame]
          exact h.congr rfl rfl
    | tick => exact (preserved_reserved.clockTick h).of_ok hs.1
  exact Nat.le_trans (Nat.le_add_left _ _) (hreserved i)

/-- Two reads that have places for their responses, one of which waits at the quad. -/
theorem crossbar_buffers_bounded_read :
    ∃ (s : DefaultCube) (ops : List HMCOp), (defaultSystem.restrict HasPlace).Run ops s ∧
      (s.quadRespQueues 0).length = 1 ∧ ∀ i, (s.quadRespQueues i).length ≤ 16 := by
  obtain ⟨s, hrun, hwaits⟩ := exists_run_of_replayCube HasPlace
    ([.add 0 false, .add 0 false] ++ List.replicate 57 .tick)
    (fun s => (s.quadRespQueues 0).length = 1) (by decide +kernel)
  exact ⟨s, _, hrun, hwaits, (crossbar_buffers_bounded hrun.of_restrict).2.2.2 hrun⟩

/-- Eighteen reads of one address are answered by one command of the vault, and their responses
come to the quad in one cycle. -/
theorem crossbar_buffers_overflow :
    ∃ s : DefaultCube,
      defaultSystem.Run (List.replicate 18 (.add 0 false) ++ List.replicate 57 .tick) s ∧
      defaultCube.xbarQueueDepth = 16 ∧ (s.quadRespQueues 0).length = 17 := by
  obtain ⟨s, hrun, hlength⟩ := exists_run_of_replayCube (fun _ _ => True)
    (List.replicate 18 (.add 0 false) ++ List.replicate 57 .tick)
    (fun s => (s.quadRespQueues 0).length = 17) (by decide +kernel)
  exact ⟨s, hrun.of_restrict, rfl, hlength⟩

end HMCMemorySystem

end Dramsim
