import Dramsim.Library.Queues
import Dramsim.Model.Capacity
import Dramsim.Model.Hmc

/-!
# The loops of a cube

Two loops of the source are bounded here by a number of rounds, and both end on their own before
it is used up.

*Links.*  `InsertHMCReq` tries one link after the other, until it is back at the first.  It
accepts a request exactly when `WillAcceptTransaction` says so, and then has pushed it to the first
link with room (`insertHMCReq_first_room`).

*Logic cycles.*  `ClockTick` runs logic cycles until their clock has caught up with that of the
DRAM.

A property of the packets that every piece of a tick preserves is preserved by the tick
(`Preserved.clockTick`).
-/

namespace Dramsim

open Library

namespace HMCMemorySystem

variable {config : HMCConfig} {σ : Type} {vault : Vault σ} {s s' : HMCMemorySystem config σ}
  {req : HMCRequest config.channels}

theorem psPerLogic_defaults : 0 < psPerLogic 16 15000 := by decide

/-- The defaults with `protocol = HMC`.  A block of 64 bytes is a burst of 64. -/
def defaultCube : HMCConfig :=
  { Config.defaults with
    protocol := .hmc, BL := 64, burstCycle := 32, shiftBits := 9
    raPos := 4, bgPos := 4, baPos := 5, roPos := 6, chPos := 22
    channels_pos := Nat.one_pos, numLinks_pos := Nat.succ_pos 3
    psPerLogic_pos := psPerLogic_defaults }

example : DeviceFile.Builds { entries := { Config.defaults with protocol := .hmc } }
    defaultCube.toConfig := ⟨rfl, rfl⟩

/-! ## Links -/

/-- The queue of a link is full. -/
def LinkFull (s : HMCMemorySystem config σ) (link : Fin config.numLinks) : Prop :=
  ¬ (s.linkReqQueues link).length < config.xbarQueueDepth

theorem willAcceptTransaction_iff : s.willAcceptTransaction = true ↔ ∃ link, ¬ s.LinkFull link := by
  simp [willAcceptTransaction, LinkFull]

/-- A request enters at a link, and its response is made. -/
def pushed (s : HMCMemorySystem config σ) (req : HMCRequest config.channels)
    (link : Fin config.numLinks) (resp : HMCResponse config.numLinks) : HMCMemorySystem config σ :=
  { s with
    linkReqQueues := Function.update s.linkReqQueues link (s.linkReqQueues link ++ [req])
    respLookupTable := s.respLookupTable ++ [resp]
    linkAgeCounter := Function.update s.linkAgeCounter link 1 }

/-- The state after a request that entered at one of the links. -/
def Entered (s : HMCMemorySystem config σ) (req : HMCRequest config.channels)
    (s' : HMCMemorySystem config σ) : Prop :=
  ∃ link resp, ¬ s.LinkFull link ∧
    HMCResponse.create req.memOperand req.type link req.quad = .ok resp ∧
    s' = { s.pushed req link resp with nextLink := s'.nextLink }

theorem insertReqToLink_cases {link : Fin config.numLinks} {inserted : Bool}
    (h : s.insertReqToLink req link = .ok (inserted, s')) :
    (inserted = true ∧ ¬ s.LinkFull link ∧ s.Entered req s') ∨
      (inserted = false ∧ s' = s ∧ s.LinkFull link) := by
  unfold insertReqToLink at h
  split at h
  · rename_i hroom
    obtain ⟨resp, hresp, h⟩ := bind_eq_ok.mp h
    cases h
    exact Or.inl ⟨rfl, not_not.mpr hroom, link, resp, not_not.mpr hroom, hresp, rfl⟩
  · rename_i hfull
    cases h
    exact Or.inr ⟨rfl, rfl, hfull⟩

theorem Entered.iterateNextLink (h : s.Entered req s') : s.Entered req s'.iterateNextLink := by
  obtain ⟨link, resp, hroom, hresp, hs⟩ := h
  refine ⟨link, resp, hroom, hresp, ?_⟩
  rw [hs]
  rfl

theorem insertFrom_cases {start : Fin config.numLinks} :
    ∀ (n : Nat) {s s' : HMCMemorySystem config σ} {accepted : Bool},
      insertFrom req start n s = .ok (accepted, s') →
      (accepted = true ∧ s.Entered req s') ∨
        (accepted = false ∧ s' = { s with nextLink := s'.nextLink })
  | 0, _, _, _, h => by
      cases h
      exact Or.inr ⟨rfl, rfl⟩
  | n + 1, s, s', accepted, h => by
      rw [insertFrom] at h
      split at h
      · cases h
        exact Or.inr ⟨rfl, rfl⟩
      · obtain ⟨⟨inserted, s₁⟩, hinsert, hloop⟩ := bind_eq_ok.mp h
        obtain ⟨rfl, _, hentered⟩ | ⟨rfl, rfl, _⟩ := insertReqToLink_cases hinsert
        · cases hloop
          exact Or.inl ⟨rfl, hentered.iterateNextLink⟩
        · exact insertFrom_cases n (s := s₁.iterateNextLink) hloop

/-- What `InsertHMCReq` does. -/
theorem insertHMCReq_cases {accepted : Bool} (h : s.insertHMCReq req = .ok (accepted, s')) :
    (accepted = true ∧ s.Entered req s') ∨
      (accepted = false ∧ s' = { s with nextLink := s'.nextLink }) := by
  unfold insertHMCReq at h
  obtain ⟨⟨inserted, s₁⟩, hinsert, hloop⟩ := bind_eq_ok.mp h
  obtain ⟨rfl, _, hentered⟩ | ⟨rfl, rfl, _⟩ := insertReqToLink_cases hinsert
  · cases hloop
    exact Or.inl ⟨rfl, hentered.iterateNextLink⟩
  · exact insertFrom_cases _ (s := s₁.iterateNextLink) hloop

/-- The request of a transaction. -/
theorem addTransaction_cases {hexAddr : Nat} {isWrite accepted : Bool}
    (h : s.addTransaction hexAddr isWrite = .ok (accepted, s')) :
    ∃ type req, HMCReqType.ofBlock config.blockSize isWrite = .ok type ∧
      HMCRequest.create type hexAddr (config.vaultOf hexAddr) = .ok req ∧
      ((accepted = true ∧ s.Entered req s') ∨
        (accepted = false ∧ s' = { s with nextLink := s'.nextLink })) := by
  unfold addTransaction at h
  obtain ⟨type, htype, h⟩ := bind_eq_ok.mp h
  obtain ⟨req, hreq, h⟩ := bind_eq_ok.mp h
  exact ⟨type, req, htype, hreq, insertHMCReq_cases h⟩

/-- The link that is tried `k` rounds after the first. -/
def linkAfter (start : Fin config.numLinks) (k : Nat) : Fin config.numLinks :=
  ⟨(start + k) % config.numLinks, Nat.mod_lt _ config.numLinks_pos⟩

theorem val_linkAfter (start : Fin config.numLinks) (k : Nat) :
    (linkAfter start k : Nat) = (start + k) % config.numLinks := rfl

theorem linkAfter_zero (start : Fin config.numLinks) : linkAfter start 0 = start :=
  Fin.ext (Nat.mod_eq_of_lt start.isLt)

theorem nextLink_iterateNextLink {start : Fin config.numLinks} {k : Nat}
    (h : s.nextLink = linkAfter start k) :
    s.iterateNextLink.nextLink = linkAfter start (k + 1) := by
  refine Fin.ext ?_
  show ((s.nextLink : Nat) + 1) % config.numLinks = (start + (k + 1)) % config.numLinks
  rw [h, val_linkAfter, Nat.mod_add_mod, Nat.add_assoc]

/-- Every link is tried. -/
theorem exists_linkAfter (start link : Fin config.numLinks) :
    ∃ k < config.numLinks, linkAfter start k = link := by
  have hstart := start.isLt
  have hlink := link.isLt
  by_cases hle : (start : Nat) ≤ link
  · refine ⟨link - start, by omega, Fin.ext ?_⟩
    rw [val_linkAfter, Nat.add_sub_cancel' hle, Nat.mod_eq_of_lt hlink]
  · refine ⟨link + config.numLinks - start, by omega, Fin.ext ?_⟩
    have hsum : (start : Nat) + (link + config.numLinks - start) = link + config.numLinks := by
      omega
    rw [val_linkAfter, hsum, Nat.add_mod_right, Nat.mod_eq_of_lt hlink]

/-- The first link does not come again before all have been tried. -/
theorem linkAfter_ne_start {start : Fin config.numLinks} {k : Nat} (hpos : 0 < k)
    (hk : k < config.numLinks) : start ≠ linkAfter start k := by
  intro h
  have hmod : (start : Nat) = (start + k) % config.numLinks := congrArg Fin.val h
  have hstart := start.isLt
  by_cases hlt : start + k < config.numLinks
  · rw [Nat.mod_eq_of_lt hlt] at hmod
    omega
  · rw [Nat.mod_eq_sub_mod (Nat.not_lt.mp hlt), Nat.mod_eq_of_lt (by omega)] at hmod
    omega

theorem insertReqToLink_of_full {link : Fin config.numLinks} (h : s.LinkFull link) :
    s.insertReqToLink req link = .ok (false, s) := if_neg h

theorem insertReqToLink_of_room (req : HMCRequest config.channels) {link : Fin config.numLinks}
    (h : ¬ s.LinkFull link) :
    s.insertReqToLink req link = (do
      let resp ← HMCResponse.create req.memOperand req.type link req.quad
      .ok (true, s.pushed req link resp)) := if_pos (not_not.mp h)

theorem linkAfter_numLinks (start : Fin config.numLinks) :
    linkAfter start config.numLinks = start :=
  Fin.ext ((Nat.add_mod_right _ _).trans (Nat.mod_eq_of_lt start.isLt))

/-- The state with another link to try next. -/
def trying (s : HMCMemorySystem config σ) (link : Fin config.numLinks) : HMCMemorySystem config σ :=
  { s with nextLink := link }

@[simp] theorem nextLink_trying (link : Fin config.numLinks) :
    (s.trying link).nextLink = link := rfl

theorem iterateNextLink_trying (start : Fin config.numLinks) (k : Nat) :
    (s.trying (linkAfter start k)).iterateNextLink = s.trying (linkAfter start (k + 1)) := by
  have hnext := nextLink_iterateNextLink (s := s.trying (linkAfter start k)) rfl
  rw [trying, ← hnext]
  rfl

/-- One round of the loop at a full link. -/
theorem insertFrom_of_full {start : Fin config.numLinks} {n k : Nat} (hpos : 0 < k)
    (hk : k < config.numLinks) (hfull : s.LinkFull (linkAfter start k)) :
    insertFrom req start (n + 1) (s.trying (linkAfter start k)) =
      insertFrom req start n (s.trying (linkAfter start (k + 1))) := by
  have hstart : start ≠ linkAfter start k := linkAfter_ne_start hpos hk
  have hinsert : (s.trying (linkAfter start k)).insertReqToLink req (linkAfter start k) =
      .ok (false, s.trying (linkAfter start k)) := insertReqToLink_of_full hfull
  rw [insertFrom, nextLink_trying, if_neg hstart, hinsert, ← iterateNextLink_trying]
  rfl

/-- With all links full the loop comes back to the first one. -/
theorem insertFrom_all_full {start : Fin config.numLinks} {n k : Nat} (hpos : 0 < k)
    (hk : k ≤ config.numLinks) (hn : config.numLinks ≤ n + k)
    (hfull : ∀ j, k ≤ j → j < config.numLinks → s.LinkFull (linkAfter start j)) :
    insertFrom req start n (s.trying (linkAfter start k)) =
      .ok (false, s.trying start) := by
  induction n generalizing k with
  | zero =>
      obtain rfl : k = config.numLinks := by omega
      rw [linkAfter_numLinks]
      rfl
  | succ n ih =>
      rcases Nat.lt_or_ge k config.numLinks with hlt | hge
      · rw [insertFrom_of_full hpos hlt (hfull k (Nat.le_refl k) hlt)]
        refine ih (by omega) hlt (by omega) ?_
        intro j hj hlinks
        exact hfull j (by omega) hlinks
      · obtain rfl : k = config.numLinks := by omega
        rw [linkAfter_numLinks, insertFrom, nextLink_trying, if_pos rfl]

/-- The loop stops at the first link that has room. -/
theorem insertFrom_finds (req : HMCRequest config.channels) {start : Fin config.numLinks}
    {n k i : Nat} (hpos : 0 < k) (hki : k ≤ i) (hi : i < config.numLinks)
    (hn : config.numLinks ≤ n + k)
    (hfull : ∀ j, k ≤ j → j < i → s.LinkFull (linkAfter start j))
    (hroom : ¬ s.LinkFull (linkAfter start i)) :
    insertFrom req start n (s.trying (linkAfter start k)) = (do
      let resp ← HMCResponse.create req.memOperand req.type (linkAfter start i) req.quad
      .ok (true, (s.pushed req (linkAfter start i) resp).trying (linkAfter start (i + 1)))) := by
  induction n generalizing k with
  | zero => omega
  | succ n ih =>
      rcases Nat.lt_or_eq_of_le hki with hlt | rfl
      · rw [insertFrom_of_full hpos (hlt.trans hi) (hfull k (Nat.le_refl k) hlt)]
        refine ih (by omega) hlt (by omega) ?_
        intro j hj hji
        exact hfull j (by omega) hji
      · have hstart : start ≠ linkAfter start k := linkAfter_ne_start hpos hi
        have hinsert := insertReqToLink_of_room req (s := s.trying (linkAfter start k)) hroom
        rw [insertFrom, nextLink_trying, if_neg hstart, hinsert]
        cases HMCResponse.create req.memOperand req.type (linkAfter start k) req.quad with
        | error e => rfl
        | ok resp =>
            have hnext :=
              iterateNextLink_trying (s := s.pushed req (linkAfter start k) resp) start k
            exact congrArg (fun s' => Except.ok (true, s')) hnext

/-- Every request that can be constructed has a response. -/
theorem exists_response {type : HMCReqType} {hexAddr : Nat} {v : Fin config.channels}
    (hreq : HMCRequest.create type hexAddr v = .ok req) (link : Fin config.numLinks) :
    ∃ resp, HMCResponse.create req.memOperand req.type link req.quad = .ok resp := by
  obtain ⟨flits, hflits, hok⟩ := bind_eq_ok.mp hreq
  cases hok
  cases type <;> first | exact ⟨_, rfl⟩ | cases hflits

/-- The loop that `InsertHMCReq` runs over the other links, with any number of rounds that
suffices for all of them. -/
theorem insertHMCReq_of_full (hfull : s.LinkFull s.nextLink) :
    s.insertHMCReq req = insertFrom req s.nextLink config.numLinks
      (s.trying (linkAfter s.nextLink 1)) := by
  rw [insertHMCReq, insertReqToLink_of_full hfull]
  rfl

/-- The first link with room, in the order in which they are tried. -/
theorem exists_first_room (h : s.willAcceptTransaction = true) :
    ∃ k < config.numLinks, (∀ j < k, s.LinkFull (linkAfter s.nextLink j)) ∧
      ¬ s.LinkFull (linkAfter s.nextLink k) := by
  classical
  obtain ⟨link, hroom⟩ := willAcceptTransaction_iff.mp h
  obtain ⟨k, hk, rfl⟩ := exists_linkAfter s.nextLink link
  have hexists : ∃ k, ¬ s.LinkFull (linkAfter s.nextLink k) := ⟨k, hroom⟩
  refine ⟨Nat.find hexists, (Nat.find_min' hexists hroom).trans_lt hk, ?_, Nat.find_spec hexists⟩
  intro j hj
  exact not_not.mp (Nat.find_min hexists hj)

theorem linkFull_of_not_accept (h : s.willAcceptTransaction = false) (link : Fin config.numLinks) :
    s.LinkFull link := by
  by_contra hroom
  rw [willAcceptTransaction_iff.mpr ⟨link, hroom⟩] at h
  cases h

/-- A request goes to the first link with room. -/
theorem insertHMCReq_finds (req : HMCRequest config.channels) {k : Nat} (hk : k < config.numLinks)
    (hbefore : ∀ j < k, s.LinkFull (linkAfter s.nextLink j))
    (hfirst : ¬ s.LinkFull (linkAfter s.nextLink k)) :
    s.insertHMCReq req = (do
      let resp ← HMCResponse.create req.memOperand req.type (linkAfter s.nextLink k) req.quad
      .ok (true, (s.pushed req (linkAfter s.nextLink k) resp).trying
        (linkAfter s.nextLink (k + 1)))) := by
  rcases Nat.eq_zero_or_pos k with rfl | hpos
  · rw [linkAfter_zero] at hfirst
    rw [linkAfter_zero, insertHMCReq, insertReqToLink_of_room req hfirst]
    cases HMCResponse.create req.memOperand req.type s.nextLink req.quad with
    | error e => rfl
    | ok resp => rfl
  · have hfull : s.LinkFull s.nextLink := linkAfter_zero s.nextLink ▸ hbefore 0 hpos
    rw [insertHMCReq_of_full hfull]
    exact insertFrom_finds req Nat.one_pos hpos hk (Nat.le_succ _)
      (fun j _ hj => hbefore j hj) hfirst

theorem insertHMCReq_all_full (hall : ∀ link, s.LinkFull link) :
    s.insertHMCReq req = .ok (false, s) := by
  rw [insertHMCReq_of_full (hall _)]
  exact insertFrom_all_full Nat.one_pos config.numLinks_pos (Nat.le_succ _) fun j _ _ => hall _

/-- What a request that can be constructed finds.  `InsertHMCReq` accepts it exactly if
`WillAcceptTransaction` says so.  It then goes to the first link with room, from `next_link_` on,
its response is registered, and `next_link_` is the link behind; otherwise nothing changes.  The
loop ends by itself: with more rounds it does the same. -/
theorem insertHMCReq_first_room {type : HMCReqType} {hexAddr : Nat} {v : Fin config.channels}
    (s : HMCMemorySystem config σ) (hreq : HMCRequest.create type hexAddr v = .ok req) :
    ∃ s', s.insertHMCReq req = .ok (s.willAcceptTransaction, s') ∧
      (s.willAcceptTransaction = true → ∃ k < config.numLinks, ∃ resp,
        (∀ j < k, s.LinkFull (linkAfter s.nextLink j)) ∧
        ¬ s.LinkFull (linkAfter s.nextLink k) ∧
        HMCResponse.create req.memOperand req.type (linkAfter s.nextLink k) req.quad = .ok resp ∧
        s' = { s.pushed req (linkAfter s.nextLink k) resp with
          nextLink := linkAfter s.nextLink (k + 1) }) ∧
      (s.willAcceptTransaction = false → s' = s) ∧
      (s.LinkFull s.nextLink → ∀ rounds, config.numLinks ≤ rounds →
        insertFrom req s.nextLink rounds s.iterateNextLink =
          .ok (s.willAcceptTransaction, s')) := by
  cases haccept : s.willAcceptTransaction with
  | false =>
      have hall := linkFull_of_not_accept haccept
      refine ⟨s, insertHMCReq_all_full hall, nofun, fun _ => rfl, fun _ rounds hrounds => ?_⟩
      exact insertFrom_all_full Nat.one_pos config.numLinks_pos (by omega) fun j _ _ => hall _
  | true =>
      obtain ⟨k, hk, hbefore, hfirst⟩ := exists_first_room haccept
      obtain ⟨resp, hresp⟩ := exists_response hreq (linkAfter s.nextLink k)
      have hinsert := insertHMCReq_finds req hk hbefore hfirst
      rw [hresp] at hinsert
      refine ⟨_, hinsert, fun _ => ⟨k, hk, resp, hbefore, hfirst, hresp, rfl⟩, nofun, ?_⟩
      intro hfull rounds hrounds
      have hpos : 0 < k := by
        refine Nat.pos_of_ne_zero fun hzero => hfirst ?_
        rwa [hzero, linkAfter_zero]
      have hloop := insertFrom_finds req (n := rounds) Nat.one_pos hpos hk (by omega)
        (fun j _ hj => hbefore j hj) hfirst
      rw [hresp] at hloop
      exact hloop

/-- The next link is full, and a read goes to the one behind. -/
theorem insertHMCReq_first_room_read :
    ∃ req, HMCRequest.create .rd64 512 (defaultCube.vaultOf 512) = .ok req ∧
      ∃ s s' : HMCMemorySystem defaultCube Unit, s.LinkFull s.nextLink ∧
        s.insertHMCReq req = .ok (true, s') ∧
        s'.linkReqQueues (linkAfter s.nextLink 1) = [req] ∧ (s'.nextLink : Nat) = 2 := by
  obtain ⟨req, hreq⟩ : ∃ req, HMCRequest.create .rd64 512 (defaultCube.vaultOf 512) = .ok req :=
    ⟨_, rfl⟩
  let s : HMCMemorySystem defaultCube Unit :=
    { ctrls := fun _ => ()
      linkReqQueues := fun link => if (link : Nat) = 0 then List.replicate 16 req else [] }
  have hfull : s.LinkFull s.nextLink := by
    change ¬ (List.replicate 16 req).length < 16
    rw [List.length_replicate]
    decide
  have hroom : ¬ s.LinkFull (linkAfter s.nextLink 1) := by
    simp [LinkFull, s, defaultCube, val_linkAfter]
  have haccept : s.willAcceptTransaction = true := willAcceptTransaction_iff.mpr ⟨_, hroom⟩
  obtain ⟨s', hinsert, hsuccess, -⟩ := insertHMCReq_first_room s hreq
  rw [haccept] at hinsert
  obtain ⟨k, -, resp, hbefore, hfirst, -, rfl⟩ := hsuccess haccept
  obtain rfl : k = 1 := by
    rcases Nat.lt_trichotomy k 1 with hlt | rfl | hlt
    · obtain rfl : k = 0 := by omega
      rw [linkAfter_zero] at hfirst
      exact absurd hfull hfirst
    · rfl
    · exact absurd (hbefore 1 hlt) hroom
  refine ⟨req, hreq, s, _, hfull, hinsert, ?_, rfl⟩
  have hempty : s.linkReqQueues (linkAfter s.nextLink 1) = [] := by
    simp [s, val_linkAfter, defaultCube]
  simp only [pushed, Function.update_self, hempty, List.nil_append]

/-! ## What the drains change -/

theorem drainQuad_frame (vault : Vault σ) (s : HMCMemorySystem config σ) (i : Fin 4) :
    ∃ ctrls quadReqQueues, s.drainQuad vault i =
      { s with ctrls := ctrls, quadReqQueues := quadReqQueues } := by
  unfold drainQuad
  split
  · exact ⟨_, _, rfl⟩
  · split
    · exact ⟨_, _, rfl⟩
    · exact ⟨_, _, rfl⟩

theorem drainLink_frame (s : HMCMemorySystem config σ) (i : Fin config.numLinks) :
    Ensures (s.drainLink i) (fun s' => ∃ linkReqQueues quadReqQueues quadBusy linkAgeCounter,
      s' = { s with
        linkReqQueues := linkReqQueues, quadReqQueues := quadReqQueues, quadBusy := quadBusy
        linkAgeCounter := linkAgeCounter }) fun _ => True := by
  unfold drainLink
  split
  · trivial
  · split
    · exact ⟨_, _, _, _, rfl⟩
    · exact ⟨_, _, _, _, rfl⟩

theorem answer_frame (s : HMCMemorySystem config σ) (i : Fin config.numLinks) :
    ∃ callbacks linkRespQueues, s.answer i =
      { s with callbacks := callbacks, linkRespQueues := linkRespQueues } := by
  unfold answer
  split
  · exact ⟨_, _, rfl⟩
  · split
    · exact ⟨_, _, rfl⟩
    · exact ⟨_, _, rfl⟩

theorem drainQuadResponse_frame (s : HMCMemorySystem config σ) (i : Fin 4) :
    Ensures (s.drainQuadResponse i)
      (fun s' => ∃ quadRespQueues linkRespQueues linkBusy quadAgeCounter, s' = { s with
        quadRespQueues := quadRespQueues, linkRespQueues := linkRespQueues, linkBusy := linkBusy
        quadAgeCounter := quadAgeCounter }) fun _ => True := by
  unfold drainQuadResponse
  split
  · trivial
  · split
    · exact ⟨_, _, _, _, rfl⟩
    · exact ⟨_, _, _, _, rfl⟩

/-! ## Logic cycles -/

/-- The clocks of a cube. -/
structure Clocks where
  clk : Nat
  logicClk : Nat
  logicPs : Nat
  dramPs : Nat

def clocks (s : HMCMemorySystem config σ) : Clocks := ⟨s.clk, s.logicClk, s.logicPs, s.dramPs⟩

/-- The clocks have not moved. -/
def SameClocks (s s' : HMCMemorySystem config σ) : Prop := s'.clocks = s.clocks

theorem sameClocks_drainQuad (t : HMCMemorySystem config σ) (i : Fin 4) (h : SameClocks s t) :
    SameClocks s (t.drainQuad vault i) := by
  obtain ⟨_, _, hframe⟩ := t.drainQuad_frame vault i
  rw [hframe]
  exact h

theorem sameClocks_drainLink (t : HMCMemorySystem config σ) (i : Fin config.numLinks)
    (h : SameClocks s t) : Ensures (t.drainLink i) (SameClocks s) fun _ => True := by
  refine (t.drainLink_frame i).mono ?_ fun _ h => h
  rintro _ ⟨_, _, _, _, rfl⟩
  exact h

theorem sameClocks_drainRequests : Ensures (s.drainRequests vault) (SameClocks s) fun _ => True :=
  Ensures.foldlM _ sameClocks_drainLink _ _
    (foldl_invariant (SameClocks s) sameClocks_drainQuad _ s rfl)

theorem sameClocks_answer (t : HMCMemorySystem config σ) (i : Fin config.numLinks)
    (h : SameClocks s t) : SameClocks s (t.answer i) := by
  obtain ⟨_, _, hframe⟩ := t.answer_frame i
  rw [hframe]
  exact h

theorem sameClocks_drainQuadResponse (t : HMCMemorySystem config σ) (i : Fin 4)
    (h : SameClocks s t) : Ensures (t.drainQuadResponse i) (SameClocks s) fun _ => True := by
  refine (t.drainQuadResponse_frame i).mono ?_ fun _ h => h
  rintro _ ⟨_, _, _, _, rfl⟩
  exact h

theorem sameClocks_drainResponses : Ensures s.drainResponses (SameClocks s) fun _ => True :=
  Ensures.foldlM _ sameClocks_drainQuadResponse _ _
    (foldl_invariant (SameClocks s) sameClocks_answer _ s rfl)

/-! ## Invariants of a tick -/

theorem returnVault_eq (s : HMCMemorySystem config σ) (i : Fin config.channels) :
    s.returnVault vault i =
      (vault.returnDone (s.ctrls i) s.clk).1.foldlM (fun s it => s.vaultCallback it.1)
        { s with ctrls := Function.update s.ctrls i (vault.returnDone (s.ctrls i) s.clk).2 } := rfl

/-- Only the clocks, the busy cycles and the ages have changed. -/
structure SamePackets (s s' : HMCMemorySystem config σ) : Prop where
  ctrls : s'.ctrls = s.ctrls
  respLookupTable : s'.respLookupTable = s.respLookupTable
  linkReqQueues : s'.linkReqQueues = s.linkReqQueues
  linkRespQueues : s'.linkRespQueues = s.linkRespQueues
  quadReqQueues : s'.quadReqQueues = s.quadReqQueues
  quadRespQueues : s'.quadRespQueues = s.quadRespQueues
  callbacks : s'.callbacks = s.callbacks

/-- A property of the packets that every piece of a tick preserves. -/
structure Preserved (vault : Vault σ) (Inv : HMCMemorySystem config σ → Prop) : Prop where
  same : ∀ {s s'}, Inv s → SamePackets s s' → Inv s'
  drainQuad : ∀ s i, Inv s → Inv (s.drainQuad vault i)
  drainLink : ∀ s i, Inv s → Ensures (s.drainLink i) Inv fun _ => True
  answer : ∀ s i, Inv s → Inv (s.answer i)
  drainQuadResponse : ∀ s i, Inv s → Ensures (s.drainQuadResponse i) Inv fun _ => True
  returnVault : ∀ s i, Inv s → Ensures (s.returnVault vault i) Inv fun _ => True
  tickVault : ∀ s i, Inv s → Ensures (s.tickVault vault i) Inv fun _ => True

namespace Preserved

variable {Inv : HMCMemorySystem config σ → Prop} (h : Preserved vault Inv)

include h

theorem drainRequests (hs : Inv s) : Ensures (s.drainRequests vault) Inv fun _ => True := by
  have hquads := foldl_invariant Inv h.drainQuad (List.finRange 4) s hs
  exact Ensures.foldlM Inv h.drainLink _ _ (h.same hquads ⟨rfl, rfl, rfl, rfl, rfl, rfl, rfl⟩)

theorem drainResponses (hs : Inv s) : Ensures s.drainResponses Inv fun _ => True := by
  have hlinks := foldl_invariant Inv h.answer (List.finRange config.numLinks) s hs
  exact Ensures.foldlM Inv h.drainQuadResponse _ _
    (h.same hlinks ⟨rfl, rfl, rfl, rfl, rfl, rfl, rfl⟩)

theorem dramClockTick (hs : Inv s) : Ensures (s.dramClockTick vault) Inv fun _ => True :=
  Ensures.bind (Ensures.foldlM Inv h.returnVault _ _ hs) fun _ h₁ =>
    Ensures.bind (Ensures.foldlM Inv h.tickVault _ _ h₁) fun _ h₂ =>
      h.same h₂ ⟨rfl, rfl, rfl, rfl, rfl, rfl, rfl⟩

theorem advanceLogic (hs : Inv s) : Inv s.advanceLogic :=
  h.same hs ⟨rfl, rfl, rfl, rfl, rfl, rfl, rfl⟩

theorem logicTicks : ∀ (n : Nat) {s : HMCMemorySystem config σ}, Inv s →
    Ensures (logicTicks vault n s) Inv fun _ => True
  | 0, _, hs => hs
  | n + 1, s, hs => by
      rw [HMCMemorySystem.logicTicks]
      split
      · exact Ensures.bind (h.drainResponses hs) fun s₁ h₁ =>
          Ensures.bind (h.drainRequests h₁) fun s₂ h₂ => logicTicks n (h.advanceLogic h₂)
      · exact hs

theorem meetClocks (hs : Inv s) : Ensures (s.meetClocks vault) Inv fun _ => True := by
  unfold HMCMemorySystem.meetClocks
  split
  · exact Ensures.bind (h.drainResponses hs) fun s₁ h₁ =>
      Ensures.bind (h.dramClockTick h₁) fun s₂ h₂ =>
        Ensures.bind (h.drainRequests h₂) fun s₃ h₃ => h.advanceLogic h₃
  · exact h.dramClockTick hs

theorem clockTick (hs : Inv s) : Ensures (s.clockTick vault) Inv fun _ => True :=
  Ensures.bind (h.meetClocks hs) fun _ h₁ =>
    Ensures.bind (h.logicTicks _ h₁) fun _ h₂ => h.same h₂ ⟨rfl, rfl, rfl, rfl, rfl, rfl, rfl⟩

end Preserved

end HMCMemorySystem

end Dramsim
