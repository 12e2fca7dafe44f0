import Dramsim.Controller.Awake
import Dramsim.Memory.Lockstep

/-!
# Ordinary traffic beside a kernel

Ordinary transactions can leave another row open in a bank that a kernel needs.  The bank
then answers with `PRECHARGE`, and the scheduler pushes the answer into a stream of its
controller.  The weight stream takes a `PRECHARGE` as it is.  The other two ask the bank
for it once more, and no bank knows it as a request.

`mixed_traffic_survives` says when no tick ends in an exit of a bank.
-/

namespace Dramsim

namespace Controller

variable {config : Config} {s s' : Controller config}

theorem Calm.congr (h : Calm s) (hch : s'.channelState = s.channelState)
    (hqueue : s'.cmdQueue = s.cmdQueue) (hpim : s'.pimCmds = s.pimCmds) : Calm s' := by
  refine ⟨⟨?_, ?_, ?_⟩, ?_⟩
  · rw [hch]
    exact h.awake
  · rw [hch]
    exact h.requests
  · rw [hqueue]
    exact h.queued
  · rw [hpim]
    exact h.streams

theorem Calm.addTransaction (h : Calm s) (trans : Transaction) : Calm (s.addTransaction trans) := by
  rcases s.addTransaction_cases trans with ⟨_, _, he⟩ | ⟨_, he⟩ | ⟨_, _, _, he⟩ | ⟨_, _, _, he⟩ <;>
    rw [he] <;> first | exact h.congr rfl rfl rfl | (rw [enqueue_eq]; exact h.congr rfl rfl rfl)

theorem Calm.returnDone (clk : Nat) :
    ∀ (n : Nat) {s : Controller config}, Calm s → Calm (JedecDRAMSystem.returnDone clk n s)
  | 0, _, h => h
  | n + 1, s, h => by
      have hnext : Calm (s.returnDoneTrans clk).2 := by
        rcases s.returnDoneTrans_cases clk with he | ⟨_, _, _, _, he⟩ <;> rw [he]
        · exact h
        · exact h.congr rfl rfl rfl
      unfold JedecDRAMSystem.returnDone
      generalize s.returnDoneTrans clk = p at hnext
      obtain ⟨_ | _, s₁⟩ := p
      · exact hnext
      · exact Calm.returnDone clk n hnext

theorem ne_precharge_of_isPim {cmd : Command} (h : cmd.cmdType.isPim = true) :
    cmd.cmdType ≠ .precharge := fun hty => by
  rw [hty] at h
  cases h

theorem Closable.of_isPim {ch : ChannelState} {cmds : List Command}
    (h : ∀ c ∈ cmds, c.cmdType.isPim = true) : Closable ch cmds where
  pim := fun c hc => .inl (h c hc)
  opened := fun c hc hty => absurd hty (ne_precharge_of_isPim (h c hc))
  apart := List.pairwise_of_forall_mem_list fun _ _ c hc hty =>
    absurd hty (ne_precharge_of_isPim (h c hc))

theorem Calm.rdW (h : Calm s) : ∀ c ∈ s.rdWCmds, c.cmdType.isPim = true := fun c hc =>
  h.streams c (mem_pimCmds.mpr (.inl hc))

theorem Calm.poised (h : Calm s) : Poised s where
  toSteady := h.toSteady
  rdW := .of_isPim h.rdW
  rdIn := fun c hc => h.streams c (mem_pimCmds.mpr (.inr (.inl hc)))
  wr := fun c hc => h.streams c (mem_pimCmds.mpr (.inr (.inr hc)))
  closing := fun c hc hty => absurd hty (ne_precharge_of_isPim (h.rdW c hc))

/-- The commands of a round reach a controller. -/
theorem Calm.receive (h : Calm s) {clk : Nat} {wCmds inCmds outCmds : List Command}
    (hw : Closable s.channelState (s.rdWCmds ++ wCmds))
    (hclosing : ∀ c ∈ wCmds, c.cmdType = .precharge →
      s.channelState.refreshQ = [] ∧ s.refresh.isDue = false)
    (hin : ∀ c ∈ inCmds, c.cmdType.isPim = true) (hout : ∀ c ∈ outCmds, c.cmdType.isPim = true) :
    Poised (JedecDRAMSystem.receive clk .outputs outCmds
      (JedecDRAMSystem.receive clk .inputs inCmds
        (JedecDRAMSystem.receive clk .weights wCmds s))) where
  awake := h.awake
  requests := h.requests
  queued := h.queued
  rdW := hw
  rdIn := List.forall_mem_append.mpr
    ⟨fun c hc => h.streams c (mem_pimCmds.mpr (.inr (.inl hc))), hin⟩
  wr := List.forall_mem_append.mpr
    ⟨fun c hc => h.streams c (mem_pimCmds.mpr (.inr (.inr hc))), hout⟩
  closing := List.forall_mem_append.mpr
    ⟨fun c hc hty => absurd hty (ne_precharge_of_isPim (h.rdW c hc)), hclosing⟩

end Controller

open Controller (Survives Calm Poised Closable)
open Library.Stretch (late)

namespace JedecDRAMSystem

variable {config : Config} {s s' : JedecDRAMSystem config} {c c₁ : Cut} {wait : Bool}
  {cmds : List Command} {cmd : Command}

/-! ## The stages -/

/-- All banks of all channels are open or closed. -/
def Awake (s : JedecDRAMSystem config) : Prop := ∀ ctrl ∈ s.ctrls, ctrl.channelState.Awake

section

variable (h : s.Awake)

include h

theorem getReadyCommand_survives (hcmd : cmd.cmdType.isPimColumn = true) :
    Survives (s.getReadyCommand cmd) fun _ => True := by
  unfold getReadyCommand
  split
  · show ¬ Exit.OfBank .outOfRange
    decide
  · rename_i ctrl hctrl
    have hreq : cmd.cmdType.isRequest = true := by
      rw [CommandType.isRequest, CommandType.isColumn_of_isPimColumn hcmd, Bool.true_or]
    obtain ⟨ready, hready⟩ := (h ctrl (List.mem_of_getElem? hctrl)).exists_getReadyCommand hreq
      config s.clk
    rw [hready]
    exact trivial

theorem gather_survives :
    ∀ (targets cmds : List Command), (∀ cmd ∈ targets, cmd.cmdType.isPimColumn = true) →
      Survives (s.gather cmds targets) fun _ => True
  | [], cmds, _ => trivial
  | cmd :: rest, cmds, hpim => by
      obtain ⟨hcmd, hrest⟩ := List.forall_mem_cons.mp hpim
      rw [gather]
      refine Library.Ensures.bind (getReadyCommand_survives h hcmd) fun ready _ => ?_
      cases ready with
      | none => exact trivial
      | some ready =>
          dsimp only
          split
          · exact trivial
          · exact gather_survives rest _ hrest

theorem gatherBanks_survives :
    ∀ (targets : List Command) (acc : List Command × Bool),
      (∀ cmd ∈ targets, cmd.cmdType.isPimColumn = true) →
      Survives (s.gatherBanks targets acc) fun _ => True
  | [], acc, _ => trivial
  | cmd :: rest, (cmds, mixed), hpim => by
      obtain ⟨hcmd, hrest⟩ := List.forall_mem_cons.mp hpim
      rw [gatherBanks]
      refine Library.Ensures.bind (getReadyCommand_survives h hcmd) fun ready _ => ?_
      cases ready with
      | none => exact trivial
      | some ready => exact gatherBanks_survives rest _ hrest

theorem gatherInputs_survives {targets : List (List Command)}
    (hpim : ∀ cmd ∈ targets.flatten, cmd.cmdType.isPimColumn = true) :
    Survives (s.gatherInputs targets) fun _ => True := by
  unfold gatherInputs
  generalize (([], false) : List Command × Bool) = acc
  induction targets generalizing acc with
  | nil => exact trivial
  | cons row rows ih =>
      rw [List.foldlM_cons]
      refine Library.Ensures.bind (gatherBanks_survives h row acc fun cmd hcmd => hpim cmd ?_)
        fun acc' _ => ih (fun cmd hcmd => hpim cmd ?_) acc'
      · exact List.mem_flatten.mpr ⟨row, List.mem_cons_self .., hcmd⟩
      · rw [List.flatten_cons]
        exact List.mem_append_right _ hcmd

end

theorem divideBy_survives (divisors : List Int) : Survives (divideBy divisors) fun _ => True := by
  unfold divideBy
  split
  · show ¬ Exit.OfBank .divisionByZero
    decide
  · exact trivial

/-- A guarded division before the rest of a stage. -/
theorem guarded_survives {α : Type} {p : Prop} [Decidable p] (divisors : List Int)
    {x : Except Exit α} (h : Survives x fun _ => True) :
    Survives (if p then divideBy divisors >>= fun _ => x else x) fun _ => True := by
  split
  · exact Library.Ensures.bind (divideBy_survives divisors) fun _ _ => h
  · exact h

theorem loadWeights_survives (h : s.Awake) :
    Survives (s.loadWeights 0 c wait) fun _ => True := by
  refine Library.Ensures.bind (divideBy_survives _) fun _ _ => guarded_survives _ ?_
  refine Library.Ensures.bind
    (gather_survives h _ _ fun cmd hcmd => isPimColumn_weightTargets hcmd) fun got _ => ?_
  cases got with
  | nil => exact trivial
  | cons first rest =>
      dsimp only
      split_ifs <;> exact trivial

theorem streamInputs_survives (h : s.Awake) :
    Survives (s.streamInputs 0 c wait) fun _ => True := by
  refine Library.Ensures.bind (divideBy_survives _) fun _ _ => guarded_survives _ ?_
  refine Library.Ensures.bind (gatherInputs_survives h fun cmd hcmd =>
    isPimColumn_of_isInputRead (isInputRead_inputTargets hcmd)) fun got _ => ?_
  obtain ⟨cmds, mixed⟩ := got
  dsimp only
  split
  · exact trivial
  · cases dropReads s.dataflow mixed cmds with
    | nil => exact trivial
    | cons first rest =>
        dsimp only
        split_ifs <;> exact trivial

theorem writeOutputs_survives (h : s.Awake) :
    Survives (s.writeOutputs 0 c wait) fun _ => True := by
  refine Library.Ensures.bind (divideBy_survives _) fun _ _ => guarded_survives _ ?_
  refine Library.Ensures.bind
    (gather_survives h _ _ fun cmd hcmd => isPimColumn_outputTargets hcmd) fun got _ => ?_
  cases got with
  | nil => exact trivial
  | cons first rest =>
      dsimp only
      split_ifs <;> exact trivial

theorem finishTile_survives (i : Nat) (written : Dataflow.Written) :
    Survives (s.finishTile i written) fun _ => True := by
  unfold finishTile
  dsimp only
  split
  · exact trivial
  · split
    · show ¬ Exit.OfBank .outOfRange
      decide
    · exact trivial

theorem inputStage_survives (h : s.Awake) :
    Survives (s.inputStage 0 c wait) fun _ => True := by
  unfold inputStage
  split
  · exact Library.Ensures.bind (loadWeights_survives h) fun _ _ => trivial
  · exact trivial
  · exact Library.Ensures.bind (streamInputs_survives h) fun _ _ => trivial
  · exact trivial

theorem scheduleCut_survives {isInRef : Bool} (h : s.Awake) :
    Survives (scheduleCut wait isInRef s 0) fun _ => True := by
  unfold scheduleCut
  split
  · show ¬ Exit.OfBank .outOfRange
    decide
  · split
    · exact trivial
    · refine Library.Ensures.bind (inputStage_survives h) fun r _ => ?_
      obtain ⟨c₁, wCmds, inCmds, ended⟩ := r
      have hsame : (if ended then s.record (.endOfComputation 0) else s).ctrls = s.ctrls := by
        cases ended <;> rfl
      dsimp only
      generalize (if ended then s.record (.endOfComputation 0) else s) = s₁ at hsame
      have h₁ : s₁.Awake := fun ctrl hctrl => h ctrl (hsame ▸ hctrl)
      split
      · refine Library.Ensures.bind (writeOutputs_survives h₁) fun r _ => ?_
        exact Library.Ensures.bind (finishTile_survives _ _) fun _ _ => trivial
      · exact trivial

/-! ## The condition -/

/-- The `PRECHARGE`s that a stage pushes are taken.  They are all for the weights, no
refresh keeps the streams waiting, and nothing waits for the banks that they close. -/
def StageClosesSafely (s : JedecDRAMSystem config) (c : Cut) : IwStatus → Prop
  | .loading =>
      s.AllNeed (s.dataflow.weightTargets config 0 c) .precharge →
        ∀ ctrl ∈ s.ctrls, ctrl.channelState.refreshQ = [] ∧ ctrl.refresh.isDue = false ∧
          ∀ cmd ∈ ctrl.rdWCmds, ∀ target ∈ s.dataflow.weightTargets config 0 c,
            cmd.bankIndex ≠ target.bankIndex
  | .loaded => True
  | .streaming =>
      ∀ target ∈ (s.dataflow.inputTargets config 0 c).flatten, ∀ ready ∈ s.answer target,
        ready.cmdType ≠ .precharge
  | .streamed =>
      0 < (countOutput c).outputValid →
        ¬ s.AllNeed (s.dataflow.outputTargets config 0 c) .precharge

/-- The stage that a cut is in closes safely, if it is not at rest. -/
def ClosesSafely (s : JedecDRAMSystem config) (c : Cut) : Prop :=
  c.inPim = true → s.isInRef = false → s.StageClosesSafely c c.iwStatus

/-- A tick closes safely, once its PIM word is taken. -/
def TicksSafely (s : JedecDRAMSystem config) : Prop :=
  ∀ s₁, s.settle.popPim = .ok s₁ → ∀ c, s₁.cuts = [c] → s₁.ClosesSafely c

instance (s : JedecDRAMSystem config) (targets : List Command) (ty : CommandType) :
    Decidable (s.AllNeed targets ty) :=
  decidable_of_iff (targets ≠ [] ∧
      ∀ cmd ∈ targets, ((s.answer cmd).any fun ready => ready.cmdType = ty) = true) <| by
    simp only [AllNeed, AllAnswer, Option.any_eq_true, decide_eq_true_eq]

instance (s : JedecDRAMSystem config) (c : Cut) :
    ∀ status, Decidable (s.StageClosesSafely c status)
  | .loading => inferInstanceAs (Decidable (_ → ∀ ctrl ∈ s.ctrls, _ ∧ _ ∧
      ∀ cmd ∈ ctrl.rdWCmds, ∀ target ∈ s.dataflow.weightTargets config 0 c,
        cmd.bankIndex ≠ target.bankIndex))
  | .loaded => .isTrue trivial
  | .streaming => inferInstanceAs (Decidable
      (∀ target ∈ (s.dataflow.inputTargets config 0 c).flatten, ∀ ready ∈ s.answer target,
        ready.cmdType ≠ .precharge))
  | .streamed => inferInstanceAs (Decidable (_ → ¬ _))

instance (s : JedecDRAMSystem config) (c : Cut) : Decidable (s.ClosesSafely c) :=
  inferInstanceAs (Decidable (_ → _ → _))

instance (s : JedecDRAMSystem config) : Decidable s.TicksSafely :=
  match hpop : s.settle.popPim with
  | .error e => .isTrue fun s₁ hs₁ => by rw [hpop] at hs₁; cases hs₁
  | .ok s₁ =>
      decidable_of_iff (∀ c ∈ s₁.cuts, s₁.cuts = [c] → s₁.ClosesSafely c)
        ⟨fun h s₁' hs₁ c hc => by
          rw [hpop] at hs₁
          cases hs₁
          exact h c (by rw [hc]; exact List.mem_singleton_self c) hc,
        fun h c _ hc => h s₁ hpop c hc⟩

/-! ## What a round pushes -/

/-- A bank that is awake answers a PIM column command with itself, an activate or a
`PRECHARGE`. -/
theorem isPim_answer {ready : Command} (h : s.Awake) (hcmd : cmd.cmdType.isPimColumn = true)
    (hready : s.answer cmd = some ready) :
    ready.cmdType.isPim = true ∨ ready.cmdType = .precharge := by
  obtain ⟨ctrl, hctrl, -, -, hans, -⟩ := answer_spec hcmd hready
  generalize ready.cmdType = ty at hans
  cases hans with
  | activate _ => exact .inl rfl
  | hit _ _ => exact .inl (by rw [CommandType.isPim, hcmd, Bool.true_or])
  | conflict _ _ => exact .inr rfl
  | asleep hs =>
      rcases h ctrl (List.mem_of_getElem? hctrl) cmd.bankIndex with ho | ho <;> rw [hs] at ho <;>
        cases ho

/-- The loops of the weight and output stages push no `PRECHARGE`, or push it for all
targets. -/
theorem isPim_gather {targets got : List Command} (h : s.Awake)
    (hpim : ∀ cmd ∈ targets, cmd.cmdType.isPimColumn = true)
    (hgot : s.gather [] targets = .ok got) :
    (∀ cmd ∈ got, cmd.cmdType.isPim = true) ∨
      (got = targets.filterMap s.answer ∧ s.AllNeed targets .precharge) := by
  rcases gather_spec hgot with ⟨rfl, -⟩ | ⟨first, rest, ty, -, -, hne, hall, heq⟩
  · exact .inl (List.forall_mem_nil _)
  · by_cases hty : ty = .precharge
    · subst hty
      exact .inr ⟨heq, hne, hall⟩
    · left
      intro cmd hcmd
      rw [heq] at hcmd
      obtain ⟨target, htarget, hans⟩ := List.mem_filterMap.mp hcmd
      obtain ⟨ready, hready, hreadyTy⟩ := hall target htarget
      rw [hans] at hready
      cases hready
      exact (isPim_answer h (hpim target htarget) hans).resolve_right (hreadyTy ▸ hty)

theorem isPim_of_eq {got : List Command} (h : cmds = [] ∨ cmds = got)
    (hgot : ∀ cmd ∈ got, cmd.cmdType.isPim = true) : ∀ cmd ∈ cmds, cmd.cmdType.isPim = true := by
  rcases h with rfl | rfl
  · exact List.forall_mem_nil _
  · exact hgot

/-- What the weight stage pushes. -/
theorem loadWeights_pushes (h : s.Awake) (hload : s.loadWeights 0 c wait = .ok (c₁, cmds)) :
    (∀ cmd ∈ cmds, cmd.cmdType.isPim = true) ∨
      (cmds = (s.dataflow.weightTargets config 0 c).filterMap s.answer ∧
        s.AllNeed (s.dataflow.weightTargets config 0 c) .precharge) := by
  obtain ⟨-, got, hgot, heq⟩ := loadWeights_spec hload
  have hcmds : cmds = (afterWeights config s.dataflow c wait got).2 := by rw [← heq]
  have hor : cmds = [] ∨ cmds = got := hcmds ▸ afterWeights_cmds s.dataflow c got
  rcases isPim_gather h (fun cmd hcmd => isPimColumn_weightTargets hcmd) hgot with
    hpim | ⟨he, hneed⟩
  · exact .inl (isPim_of_eq hor hpim)
  · rcases hor with rfl | rfl
    · exact .inl (List.forall_mem_nil _)
    · exact .inr ⟨he, hneed⟩

/-- What the streaming stage pushes. -/
theorem streamInputs_pushes {ended : Bool} (h : s.Awake) (hone : numCuts s.dataflow = 1)
    (hsafe : ∀ target ∈ (s.dataflow.inputTargets config 0 c).flatten, ∀ ready ∈ s.answer target,
      ready.cmdType ≠ .precharge) (hstream : s.streamInputs 0 c wait = .ok (c₁, cmds, ended)) :
    ∀ cmd ∈ cmds, cmd.cmdType.isPim = true := by
  obtain ⟨-, got, mixed, hgot, heq⟩ := streamInputs_spec hone hstream
  have hcmds : cmds = (afterInputs config s.dataflow (countVpu c) wait
      (dropReads s.dataflow mixed got)).2.1 := by rw [← heq]
  have hlate : got = late (s.askedAll (s.dataflow.inputTargets config 0 c)) := by
    have hfold := gatherInputs_spec hgot
    rw [← (Library.Stretch.foldl_take Command.cmdType _).1, ← hfold]
  have hpims : ∀ cmd ∈ got, cmd.cmdType.isPim = true := by
    intro cmd hcmd
    rw [hlate] at hcmd
    obtain ⟨target, htarget, hans⟩ :=
      exists_target_of_asked (Library.Stretch.some_mem_of_mem_late hcmd)
    have hpim := isPimColumn_of_isInputRead (isInputRead_inputTargets htarget)
    exact (isPim_answer h hpim hans).resolve_right (hsafe target htarget cmd hans)
  refine isPim_of_eq (hcmds ▸ afterInputs_cmds s.dataflow (countVpu c) _) fun cmd hcmd => ?_
  unfold dropReads at hcmd
  split at hcmd
  · exact hpims cmd (List.mem_of_mem_filter hcmd)
  · exact hpims cmd hcmd

/-- What the output stage pushes. -/
theorem writeOutputs_pushes {written : Dataflow.Written} (h : s.Awake)
    (hsafe : ¬ s.AllNeed (s.dataflow.outputTargets config 0 c) .precharge)
    (hwrite : s.writeOutputs 0 c wait = .ok (c₁, cmds, written)) :
    ∀ cmd ∈ cmds, cmd.cmdType.isPim = true := by
  obtain ⟨-, got, hgot, heq⟩ := writeOutputs_spec hwrite
  have hcmds : cmds = (afterOutputs s.dataflow c wait got).2.1 := by rw [← heq]
  refine isPim_of_eq (hcmds ▸ afterOutputs_cmds s.dataflow c got) ?_
  exact (isPim_gather h (fun cmd hcmd => isPimColumn_outputTargets hcmd) hgot).resolve_right
    fun hneed => hsafe hneed.2

/-! ## A tick -/

/-- The controllers are calm between the ticks. -/
def AllCalm (s : JedecDRAMSystem config) : Prop := ∀ ctrl ∈ s.ctrls, Calm ctrl

theorem AllCalm.awake (h : s.AllCalm) : s.Awake := fun ctrl hctrl => (h ctrl hctrl).awake

theorem AllCalm.map (h : s.AllCalm) {f : Controller config → Controller config}
    (hs : s'.ctrls = s.ctrls.map f) (hf : ∀ ctrl, Calm ctrl → Calm (f ctrl)) : s'.AllCalm := by
  intro ctrl hctrl
  rw [hs] at hctrl
  obtain ⟨ctrl', hctrl', rfl⟩ := List.mem_map.mp hctrl
  exact hf ctrl' (h ctrl' hctrl')

theorem AllCalm.settle (h : s.AllCalm) : s.settle.AllCalm := by
  have hreturn : s.returnAll.AllCalm := h.map rfl fun _ hc => hc.returnDone _ _
  unfold JedecDRAMSystem.settle
  split
  · exact hreturn
  · exact hreturn

theorem AllCalm.popPim (h : s.AllCalm) (hpop : s.popPim = .ok s') : s'.AllCalm := by
  cases popPim_spec hpop with
  | none _ => exact h
  | waits _ _ => exact h.map rfl fun _ hc => hc.congr rfl rfl rfl
  | launches _ _ _ => exact h.map rfl fun _ hc => hc.congr rfl rfl rfl
  | flow _ _ =>
      unfold loadDataflow
      dsimp only
      split
      · exact h.map rfl fun _ hc => hc.congr rfl rfl rfl
      · exact h
  | work _ _ _ _ _ => exact h

theorem popPim_survives (s : JedecDRAMSystem config) : Survives s.popPim fun _ => True := by
  unfold popPim
  split
  · exact trivial
  · split
    · unfold launch
      dsimp only
      split
      · show ¬ Exit.OfBank .outOfRange
        decide
      · split <;> exact trivial
    · split
      · exact trivial
      · unfold loadWorkload
        dsimp only
        split
        · show ¬ Exit.OfBank .outOfRange
          decide
        · refine Library.Ensures.bind (P := fun _ => True) ?_ fun _ _ => trivial
          unfold loadInto
          dsimp only
          split
          · exact trivial
          · exact trivial
          · exact trivial
          · show ¬ Exit.OfBank .invalidLoadType
            decide

/-- The banks of the weights of a channel are different ones. -/
theorem weightAddress_injective {d : Dataflow} {j k k' : Nat}
    (h : (d.weightAddress config 0 c j k).bankIndex = (d.weightAddress config 0 c j k').bankIndex) :
    k = k' := by
  simp only [Dataflow.weightAddress, Dataflow.address, Address.bankIndex, BankIndex.mk.injEq,
    add_zero] at h
  obtain ⟨-, hdiv, hmod⟩ := h
  have hbank := Int.mul_tdiv_add_tmod (d.vcutNo 0 * d.cutWidth config + k * d.weightBanksReduce)
    config.banksPerGroup
  rw [hdiv, hmod, Int.mul_tdiv_add_tmod] at hbank
  unfold Dataflow.weightBanksReduce at hbank
  split at hbank <;> omega

theorem weightTargets_eq (hd : s.dataflow.SingleCut) :
    s.dataflow.weightTargets config 0 c = (List.range config.channels).flatMap fun j =>
      (Dataflow.loop (s.dataflow.weightBanks config)).map fun k =>
        Dataflow.command config (s.dataflow.weightType config c)
          (s.dataflow.weightAddress config 0 c j k) := by
  rw [Dataflow.weightTargets, hd.loop_cutHeight]

/-- A bank of the weights that has to be closed is open. -/
theorem weight_answer (hd : s.dataflow.SingleCut) {channel k : Nat} {ctrl : Controller config}
    (hctrl : s.ctrls[channel]? = some ctrl)
    (hneed : s.AllNeed (s.dataflow.weightTargets config 0 c) .precharge)
    (hmem : Dataflow.command config (s.dataflow.weightType config c)
      (s.dataflow.weightAddress config 0 c channel k) ∈ s.dataflow.weightTargets config 0 c)
    (hcmd : s.answer (Dataflow.command config (s.dataflow.weightType config c)
      (s.dataflow.weightAddress config 0 c channel k)) = some cmd) :
    cmd.cmdType = .precharge ∧ cmd.addr = s.dataflow.weightAddress config 0 c channel k ∧
      (ctrl.channelState.bankStates cmd.bankIndex).state = .opened := by
  have hspread := spread_weights config hd c
  obtain ⟨ready, hready, hty⟩ := hneed.2 _ hmem
  rw [hcmd] at hready
  cases hready
  obtain ⟨ctrl', hctrl', haddr, -, hans, -⟩ := answer_spec (hspread.pim channel k) hcmd
  rw [hspread.channel, Int.toNat_natCast, hctrl] at hctrl'
  cases hctrl'
  refine ⟨hty, haddr, ?_⟩
  rw [Command.bankIndex, haddr]
  rw [hty] at hans
  generalize hpre : CommandType.precharge = ty at hans
  cases hans with
  | conflict hopen _ => exact hopen
  | hit _ _ =>
      have hpim := hspread.pim channel k
      rw [← hpre] at hpim
      cases hpim
  | activate _ => cases hpre
  | asleep _ => cases hpre

/-- The `PRECHARGE`s of the weight stage find their banks open. -/
theorem closable_weights (hd : s.dataflow.SingleCut) {channel : Nat} {ctrl : Controller config}
    (h : Calm ctrl) (hctrl : s.ctrls[channel]? = some ctrl) (hlt : channel < config.channels)
    (hneed : s.AllNeed (s.dataflow.weightTargets config 0 c) .precharge)
    (hfree : ∀ cmd ∈ ctrl.rdWCmds, ∀ target ∈ s.dataflow.weightTargets config 0 c,
      cmd.bankIndex ≠ target.bankIndex) :
    Closable ctrl.channelState (ctrl.rdWCmds ++
      forChannel channel ((s.dataflow.weightTargets config 0 c).filterMap s.answer)) := by
  have htargets := weightTargets_eq (c := c) hd
  have hmem {k : Nat} (hk : k ∈ Dataflow.loop (s.dataflow.weightBanks config)) :
      Dataflow.command config (s.dataflow.weightType config c)
        (s.dataflow.weightAddress config 0 c channel k) ∈ s.dataflow.weightTargets config 0 c := by
    rw [htargets]
    exact List.mem_flatMap.mpr ⟨channel, List.mem_range.mpr hlt, List.mem_map_of_mem hk⟩
  have hanswer {k : Nat} {cmd : Command}
      (hk : k ∈ Dataflow.loop (s.dataflow.weightBanks config))
      (hcmd : s.answer (Dataflow.command config (s.dataflow.weightType config c)
        (s.dataflow.weightAddress config 0 c channel k)) = some cmd) :=
    weight_answer hd hctrl hneed (hmem hk) hcmd
  have hchannel : forChannel channel ((s.dataflow.weightTargets config 0 c).filterMap s.answer) =
      ((Dataflow.loop (s.dataflow.weightBanks config)).map fun k =>
        Dataflow.command config (s.dataflow.weightType config c)
          (s.dataflow.weightAddress config 0 c channel k)).filterMap s.answer := by
    rw [htargets, forChannel_answers (spread_weights config hd c) hlt]
  rw [hchannel]
  refine ⟨?_, ?_, ?_⟩
  · refine List.forall_mem_append.mpr ⟨fun cmd hcmd => .inl (h.rdW cmd hcmd), fun cmd hcmd => ?_⟩
    obtain ⟨target, htarget, hcmd⟩ := List.mem_filterMap.mp hcmd
    obtain ⟨k, hk, rfl⟩ := List.mem_map.mp htarget
    exact .inr (hanswer hk hcmd).1
  · refine List.forall_mem_append.mpr
      ⟨fun cmd hcmd hty => absurd hty (Controller.ne_precharge_of_isPim (h.rdW cmd hcmd)),
        fun cmd hcmd _ => ?_⟩
    obtain ⟨target, htarget, hcmd⟩ := List.mem_filterMap.mp hcmd
    obtain ⟨k, hk, rfl⟩ := List.mem_map.mp htarget
    exact (hanswer hk hcmd).2.2
  · have hold : Closable ctrl.channelState ctrl.rdWCmds := .of_isPim h.rdW
    refine List.pairwise_append.mpr ⟨hold.apart, ?_, fun cmd hcmd cmd' hcmd' _ => ?_⟩
    · rw [List.pairwise_filterMap, List.pairwise_map]
      have hnodup : (Dataflow.loop (s.dataflow.weightBanks config)).Nodup := List.nodup_range
      refine List.Pairwise.imp_of_mem (fun hk hk' hne cmd hcmd cmd' hcmd' _ hsame => ?_) hnodup
      rw [Command.bankIndex, Command.bankIndex, (hanswer hk hcmd).2.1, (hanswer hk' hcmd').2.1]
        at hsame
      exact hne (weightAddress_injective hsame)
    · obtain ⟨target, htarget, hans⟩ := List.mem_filterMap.mp hcmd'
      obtain ⟨k, hk, rfl⟩ := List.mem_map.mp htarget
      rw [Command.bankIndex, Command.bankIndex, (hanswer hk hans).2.1]
      exact hfree cmd hcmd _ (hmem hk)

/-- Activates and column commands are pushed. -/
theorem AllCalm.pushed (h : s.AllCalm) {wCmds inCmds outCmds : List Command}
    (hw : ∀ cmd ∈ wCmds, cmd.cmdType.isPim = true) (hin : ∀ cmd ∈ inCmds, cmd.cmdType.isPim = true)
    (hout : ∀ cmd ∈ outCmds, cmd.cmdType.isPim = true) :
    ∀ ctrl ∈ s.pushAll wCmds inCmds outCmds, Poised ctrl := by
  intro ctrl' hctrl'
  rw [pushAll_eq] at hctrl'
  obtain ⟨channel, hlt, rfl⟩ := List.mem_mapIdx.mp hctrl'
  have hcalm := h _ (List.getElem_mem hlt)
  have hpick : ∀ {cmds : List Command}, (∀ cmd ∈ cmds, cmd.cmdType.isPim = true) →
      ∀ cmd ∈ forChannel channel cmds, cmd.cmdType.isPim = true :=
    fun hcmds cmd hcmd => hcmds cmd (List.mem_of_mem_filter hcmd)
  refine hcalm.receive (.of_isPim ?_) ?_ (hpick hin) (hpick hout)
  · exact List.forall_mem_append.mpr ⟨hcalm.rdW, hpick hw⟩
  · exact fun cmd hcmd hty => absurd hty (Controller.ne_precharge_of_isPim (hpick hw cmd hcmd))

/-- The `PRECHARGE`s of the weight stage are pushed. -/
theorem AllCalm.closed (h : s.AllCalm) (hd : s.dataflow.SingleCut)
    (hlen : s.ctrls.length = config.channels)
    (hneed : s.AllNeed (s.dataflow.weightTargets config 0 c) .precharge)
    (hsafe : ∀ ctrl ∈ s.ctrls, ctrl.channelState.refreshQ = [] ∧ ctrl.refresh.isDue = false ∧
      ∀ cmd ∈ ctrl.rdWCmds, ∀ target ∈ s.dataflow.weightTargets config 0 c,
        cmd.bankIndex ≠ target.bankIndex) :
    ∀ ctrl ∈ s.pushAll ((s.dataflow.weightTargets config 0 c).filterMap s.answer) [] [],
      Poised ctrl := by
  intro ctrl' hctrl'
  rw [pushAll_eq] at hctrl'
  obtain ⟨channel, hlt, rfl⟩ := List.mem_mapIdx.mp hctrl'
  have hmem := List.getElem_mem hlt
  obtain ⟨hnil, hdue, hfree⟩ := hsafe _ hmem
  refine (h _ hmem).receive ?_ (fun _ _ _ => ⟨hnil, hdue⟩) (by simp [forChannel])
    (by simp [forChannel])
  exact closable_weights hd (h _ hmem) (List.getElem?_eq_getElem hlt) (hlen ▸ hlt) hneed hfree

/-- After a round that closes safely every controller can tick. -/
theorem Round.poised (h : s.AllCalm) (hd : s.dataflow.SingleCut)
    (hlen : s.ctrls.length = config.channels) (hsafe : s.ClosesSafely c)
    (hround : s.Round wait c s') : ∀ ctrl ∈ s'.ctrls, Poised ctrl := by
  have hnone : ∀ cmd ∈ ([] : List Command), cmd.cmdType.isPim = true := List.forall_mem_nil _
  cases hround with
  | rests _ => exact fun ctrl hctrl => (h ctrl hctrl).poised
  | @works c₁ c₂ wCmds inCmds outCmds ended written hpim href hstage hout =>
      have hsafe := hsafe hpim href
      cases hstatus : c.iwStatus with
      | loading =>
          obtain ⟨-, rfl, -⟩ := hout.of_not_streamed (by simp [hstatus])
          rw [hstatus] at hsafe
          simp only [inputStage, hstatus] at hstage
          obtain ⟨⟨c', cmds⟩, hload, hstage⟩ := Library.bind_eq_ok.mp hstage
          cases hstage
          rcases loadWeights_pushes h.awake hload with hpims | ⟨rfl, hneed⟩
          · exact h.pushed hpims hnone hnone
          · exact h.closed hd hlen hneed (hsafe hneed)
      | loaded =>
          obtain ⟨-, rfl, -⟩ := hout.of_not_streamed (by simp [hstatus])
          simp only [inputStage, hstatus] at hstage
          cases hstage
          exact h.pushed hnone hnone hnone
      | streaming =>
          obtain ⟨-, rfl, -⟩ := hout.of_not_streamed (by simp [hstatus])
          rw [hstatus] at hsafe
          simp only [inputStage, hstatus] at hstage
          obtain ⟨⟨c', cmds, e⟩, hstream, hstage⟩ := Library.bind_eq_ok.mp hstage
          cases hstage
          exact h.pushed hnone (streamInputs_pushes h.awake hd.numCuts hsafe hstream) hnone
      | streamed =>
          rw [hstatus] at hsafe
          obtain ⟨rfl, rfl, rfl, rfl⟩ := inputStage_streamed hstatus hstage
          cases hout with
          | skips _ => exact h.pushed hnone hnone hnone
          | asks hvalid _ hwrite =>
              rw [outputValid_awaits] at hvalid
              refine h.pushed hnone hnone (writeOutputs_pushes h.awake ?_ hwrite)
              rw [outputTargets_awaits]
              exact hsafe hvalid

/-- The state between two ticks of a run with one cut. -/
structure Mixed (s : JedecDRAMSystem config) : Prop where
  one : OneCut s
  calm : s.AllCalm

/-- A tick that closes safely ends in no exit of a bank. -/
theorem Mixed.clockTick (hself : config.enableSelfRefresh = false) (h : s.Mixed)
    (hsafe : s.TicksSafely) : Survives s.clockTick fun s' => s'.AllCalm := by
  have hschedule : Survives s.schedule fun s₂ => ∀ ctrl ∈ s₂.ctrls, Poised ctrl := by
    refine Library.Ensures.bind (P := fun s₁ => s.settle.popPim = .ok s₁) ?_ fun s₁ hpop => ?_
    · exact .of_cases (fun _ hs₁ => hs₁) fun e he => (popPim_survives _).of_error he
    · have hone := h.one.settle.popPim hpop
      have hcalm := h.calm.settle.popPim hpop
      have hl := hone.loaded
      generalize hcuts : s₁.cuts = cuts at hl
      cases hl with
      | blank hd =>
          rw [hd]
          exact fun ctrl hctrl => (hcalm ctrl hctrl).poised
      | cut c hd =>
          rw [hd.numCuts]
          refine Library.Ensures.bind (P := fun s₂ => ∀ ctrl ∈ s₂.ctrls, Poised ctrl) ?_
            fun s₂ hs₂ => ?_
          · refine .of_cases (fun s₂ hs₂ => ?_) fun e he =>
              (scheduleCut_survives hcalm.awake).of_error he
            exact (scheduleCut_round hd hcuts hs₂).poised hcalm hd hone.channels
              (hsafe s₁ hpop c hcuts)
          · exact hs₂
  refine Library.Ensures.bind hschedule fun s₂ hs₂ => ?_
  refine Library.Ensures.bind
    (Library.Ensures.mapM fun ctrl hctrl => Controller.clockTick_survives hself (hs₂ ctrl hctrl)) ?_
  exact fun ctrls hctrls => hctrls

/-- Steps of a run that closes safely. -/
theorem Mixed.step (hself : config.enableSelfRefresh = false) {op : SystemOp} (h : s.Mixed)
    (hop : op.oneCut = true) (hsafe : op = .tick → s.TicksSafely)
    (hs : (memorySystem config).step s op s') : s'.Mixed := by
  refine ⟨h.one.step hop hs, ?_⟩
  cases op with
  | addPim hexAddr =>
      obtain ⟨_, rfl⟩ := hs
      exact h.calm
  | add hexAddr isWrite =>
      obtain ⟨_, rfl⟩ := hs
      intro ctrl hctrl
      obtain ⟨n, hn⟩ := List.mem_iff_getElem?.mp hctrl
      rw [addTransaction, List.getElem?_modify] at hn
      obtain ⟨ctrl', hctrl', rfl⟩ := Option.map_eq_some_iff.mp hn
      have hcalm := h.calm ctrl' (List.mem_of_getElem? hctrl')
      split
      · exact hcalm.addTransaction _
      · exact hcalm
  | tick => exact (h.clockTick hself (hsafe rfl)).of_ok hs

theorem Mixed.init : Mixed ({} : JedecDRAMSystem config) := by
  refine ⟨.init, fun ctrl hctrl => ?_⟩
  rw [List.eq_of_mem_replicate hctrl]
  exact ⟨⟨fun _ => .inr rfl, List.forall_mem_nil _, fun _ => List.forall_mem_nil _⟩,
    List.forall_mem_nil _⟩

/-! ## Runs -/

/-- Operations of a run that closes safely: words for one cut and any accepted
transactions. -/
def MixesSafely (s : JedecDRAMSystem config) (op : SystemOp) : Prop :=
  op.oneCut = true ∧ (op = .tick → s.TicksSafely)

instance (s : JedecDRAMSystem config) (op : SystemOp) : Decidable (s.MixesSafely op) :=
  inferInstanceAs (Decidable (_ ∧ (_ → _)))

/-- Ordinary traffic beside a kernel ends no process in an exit of a bank, as long as every
`PRECHARGE` that is pushed into a stream is taken there. -/
theorem mixed_traffic_survives (hself : config.enableSelfRefresh = false) {ops : List SystemOp}
    (hrun : ((memorySystem config).restrict MixesSafely).Run ops s) (hsafe : s.MixesSafely .tick)
    {e : Exit} (he : s.clockTick = .error e) : ¬ e.OfBank := by
  have hmixed : s.Mixed := hrun.invariant Mixed .init fun _ _ _ h hs =>
    h.step hself hs.2.1 hs.2.2 hs.1
  exact (hmixed.clockTick hself (hsafe.2 rfl)).of_error he

/-- Ordinary reads have left other rows open in the two banks of the weights.  The tick at
clock 39 pushes a `PRECHARGE` for each, and both are taken. -/
theorem mixed_traffic_survives_weights :
    ∃ s s' : JedecDRAMSystem .hbm2Rank,
      (∃ ops, ((memorySystem .hbm2Rank).restrict MixesSafely).Run ops s) ∧
      s.clockTick = .ok s' ∧
      (s'.pushed .weights).map (List.map Command.cmdType) = [[.precharge, .precharge]] ∧
      ∀ e, s.clockTick = .error e → ¬ e.OfBank := by
  have hsome : ((replayWhere .hbm2Rank (fun s op => s.MixesSafely op)
      ([.add 32768 false, .add 49152 false] ++
        kernelWords (dataflowWord 0 0 0 8) 1 2 1 0 0 0 ++ List.replicate 39 .tick)).any fun s =>
      s.MixesSafely .tick && (s.clockTick.toOption.any fun s' =>
        (s'.pushed .weights).map (List.map Command.cmdType) = [[.precharge, .precharge]])) =
      true := by
    decide +kernel
  obtain ⟨s, hs, htick⟩ := (Option.any_eq_true _ _).mp hsome
  rw [Bool.and_eq_true, decide_eq_true_eq, Option.any_eq_true] at htick
  obtain ⟨hsafe, s', hs', hpushed⟩ := htick
  have hrun := (run_of_replayWhere hs).weaken fun _ _ h => of_decide_eq_true h
  exact ⟨s, s', ⟨_, hrun⟩, Library.toOption_eq_some.mp hs', of_decide_eq_true hpushed,
    fun e he => mixed_traffic_survives rfl hrun hsafe he⟩

/-- An ordinary read has left another row open in the bank of the inputs.  The tick at clock
35 pushes the `PRECHARGE` that the bank answers with, and the controller asks the bank for
it. -/
theorem precharge_of_inputs_crashes :
    ∃ s : JedecDRAMSystem .hbm2Rank,
      (∃ ops, ((memorySystem .hbm2Rank).restrict fun _ op => op.oneCut = true).Run ops s) ∧
      s.clockTick = .error .unknownType := by
  have hsome : ((replayWhere .hbm2Rank (fun _ op => op.oneCut)
      ([.add 34816 false] ++
        kernelWords (dataflowWord 0 0 0 8) 1 1 1 0 0 0 ++ List.replicate 35 .tick)).any fun s =>
      match s.clockTick with
      | .ok _ => false
      | .error e => e = .unknownType) = true := by
    decide +kernel
  obtain ⟨s, hs, htick⟩ := (Option.any_eq_true _ _).mp hsome
  refine ⟨s, ⟨_, run_of_replayWhere hs⟩, ?_⟩
  split at htick
  · cases htick
  · rename_i e he
    rw [he, of_decide_eq_true htick]

end JedecDRAMSystem

end Dramsim
