import Dramsim.Controller.Twins
import Dramsim.Memory.Dispatch

/-!
# Channels in lockstep

With PIM words only, the scheduler asks every channel for the same accesses.  As long as
the controllers are the same up to their channel, they give the same answers, so that what
is pushed goes to all channels, and the controllers stay the same.  The streaming stage
relies on it: a bank that is not ready only discards the answers of the channels before it.
-/

namespace Dramsim

open Library.Stretch (late)

namespace JedecDRAMSystem

variable {config : Config}

/-! ## The property -/

/-- All controllers are the same up to their channel. -/
def AllTwins (ctrls : List (Controller config)) : Prop :=
  ∀ ctrl ∈ ctrls, ∀ ctrl' ∈ ctrls, Twins ctrl ctrl'

/-- The commands go to all channels alike. -/
structure Covers (config : Config) (cmds : List Command) : Prop where
  same : ∀ channel < config.channels, ∀ channel' < config.channels,
    SameStream (forChannel channel cmds) (forChannel channel' cmds)
  inside : ∀ cmd ∈ cmds, cmd.addr.channel.toNat < config.channels

/-- The channels of a memory system are in lockstep. -/
structure Lockstep (s : JedecDRAMSystem config) : Prop where
  twins : AllTwins s.ctrls
  /-- Every channel gives the same answer. -/
  answers : ∀ cmd cmd' : Command, cmd.SameUpToChannel cmd' →
    cmd.addr.channel.toNat < config.channels → cmd'.addr.channel.toNat < config.channels →
      Library.Agree (Option.Rel Command.SameUpToChannel) (s.getReadyCommand cmd)
        (s.getReadyCommand cmd')
  /-- What is dispatched goes to every channel. -/
  dispatches : ∀ clk cut stream cmds, SystemEvent.dispatched clk cut stream cmds ∈ s.log →
    Covers config cmds ∧ ∀ channel < config.channels, forChannel channel cmds ≠ []

end JedecDRAMSystem

/-- Operations of a run with PIM words for one cut and no ordinary transactions. -/
def SystemOp.pimOneCut : SystemOp → Bool
  | .addPim hexAddr => JedecDRAMSystem.asksOneCut hexAddr
  | .add _ _ => false
  | .tick => true

theorem SystemOp.oneCut_of_pimOneCut {op : SystemOp} (h : op.pimOneCut = true) :
    op.oneCut = true := by
  cases op with
  | addPim hexAddr => exact h
  | add hexAddr isWrite => rfl
  | tick => rfl

/-! ## Commands for all channels -/

namespace SameStream

variable {cmds cmds' : List Command}

theorem filter (h : SameStream cmds cmds') (p : CommandType → Bool) :
    SameStream (cmds.filter fun cmd => p cmd.cmdType) (cmds'.filter fun cmd => p cmd.cmdType) := by
  induction h with
  | nil => exact .nil
  | @cons cmd cmd' rest rest' hcmd hrest ih =>
      have hty : cmd'.cmdType = cmd.cmdType := by rw [hcmd.1.eq_mk]
      rw [List.filter_cons, List.filter_cons, hty]
      split
      · exact .cons hcmd ih
      · exact ih

theorem ne_nil (h : SameStream cmds cmds') (hne : cmds ≠ []) : cmds' ≠ [] := by
  cases h with
  | nil => exact absurd rfl hne
  | cons _ _ => exact List.cons_ne_nil _ _

end SameStream

namespace JedecDRAMSystem

variable {config : Config} {cmds got inCmds wCmds : List Command} {channel n clk : Nat}
  {ended : Bool}
  {s : JedecDRAMSystem config} {cmd cmd' : Command} {stream : Stream}
  {written : Dataflow.Written}

namespace Covers

variable {cmds : List Command}

theorem nil : Covers config [] where
  same := fun _ _ _ _ => .nil
  inside := List.forall_mem_nil _

theorem filter (h : Covers config cmds) (p : CommandType → Bool) :
    Covers config (cmds.filter fun cmd => p cmd.cmdType) where
  same channel hch channel' hch' := by
    have hcomm (channel : Nat) : forChannel channel (cmds.filter fun cmd => p cmd.cmdType) =
        (forChannel channel cmds).filter fun cmd => p cmd.cmdType := by
      simp only [forChannel, List.filter_filter, Bool.and_comm]
    rw [hcomm, hcomm]
    exact (h.same channel hch channel' hch').filter p
  inside cmd hcmd := h.inside cmd (List.mem_of_mem_filter hcmd)

/-- Commands that go to all channels alike reach every channel. -/
theorem forChannel_ne_nil (h : Covers config cmds) (hne : cmds ≠ [])
    (hch : channel < config.channels) : forChannel channel cmds ≠ [] := by
  obtain ⟨cmd, hcmd⟩ := List.exists_mem_of_ne_nil cmds hne
  have hown : forChannel cmd.addr.channel.toNat cmds ≠ [] :=
    List.ne_nil_of_mem (List.mem_filter.mpr ⟨hcmd, by simp⟩)
  exact (h.same _ (h.inside cmd hcmd) _ hch).ne_nil hown

end Covers

/-- The commands of a stage are spread over the channels. -/
structure Spread (f : Nat → Nat → Command) : Prop where
  channel : ∀ j k, (f j k).addr.channel = j
  same : ∀ j j' k, (f j k).SameUpToChannel (f j' k)
  pim : ∀ j k, (f j k).cmdType.isPimColumn = true

section

variable (config) {d : Dataflow} (hd : d.SingleCut) (c : Cut)

include hd

theorem spread_weights :
    Spread fun j k => Dataflow.command config (d.weightType config c)
      (d.weightAddress config 0 c j k) where
  channel j k := by
    simp [Dataflow.command, Dataflow.weightAddress, Dataflow.address, hd.hcutNo]
  same j j' k := rfl
  pim j k := by
    simp only [Dataflow.command, Dataflow.weightType]
    split <;> rfl

theorem spread_inputs :
    Spread fun j k => Dataflow.command config (d.inputType config c)
      (d.inputAddress config 0 c j k) where
  channel j k := by
    simp [Dataflow.command, Dataflow.inputAddress, Dataflow.address, hd.hcutNo]
  same j j' k := rfl
  pim j k := by
    simp only [Dataflow.command, Dataflow.inputType, Dataflow.readType, Dataflow.readpType]
    split_ifs <;> rfl

theorem spread_outputs :
    Spread fun j k => Dataflow.command config (d.outputType config c)
      (d.outputAddress config 0 c j k) where
  channel j k := by
    have hcut : d.vcutOutNo 0 c = 0 := by
      simp [Dataflow.vcutOutNo, hd.vcutNo, hd.vcuts]
    simp [Dataflow.command, Dataflow.outputAddress, Dataflow.address, hd.hcutNo, hcut]
  same j j' k := rfl
  pim j k := by
    simp only [Dataflow.command, Dataflow.outputType]
    split <;> rfl

end

theorem flatMap_range_ite {α : Type} (rows : Nat → List α) (h : channel < n) :
    ((List.range n).flatMap fun j => if j = channel then rows j else []) = rows channel := by
  induction n with
  | zero => cases h
  | succ n ih =>
      rw [List.range_succ, List.flatMap_append, List.flatMap_singleton]
      rcases Nat.lt_succ_iff_lt_or_eq.mp h with hlt | rfl
      · rw [ih hlt, if_neg hlt.ne', List.append_nil]
      · rw [if_pos rfl, List.flatMap_eq_nil_iff.mpr fun j hj => if_neg (List.mem_range.mp hj).ne,
          List.nil_append]

/-- The answers for one channel are those of its own commands. -/
theorem forChannel_answers {f : Nat → Nat → Command} (hf : Spread f) (h : channel < n)
    (ks : List Nat) :
    forChannel channel (((List.range n).flatMap fun j => ks.map (f j)).filterMap s.answer) =
      (ks.map (f channel)).filterMap s.answer := by
  have hrow (j : Nat) : forChannel channel ((ks.map (f j)).filterMap s.answer) =
      if j = channel then (ks.map (f j)).filterMap s.answer else [] := by
    have hown : ∀ cmd ∈ (ks.map (f j)).filterMap s.answer, cmd.addr.channel = j := by
      intro cmd hcmd
      obtain ⟨target, htarget, hanswer⟩ := List.mem_filterMap.mp hcmd
      obtain ⟨k, -, rfl⟩ := List.mem_map.mp htarget
      obtain ⟨_, -, haddr, -⟩ := answer_spec (hf.pim j k) hanswer
      rw [haddr, hf.channel]
    unfold forChannel
    split_ifs with hj
    · exact List.filter_eq_self.mpr fun cmd hcmd => by simp [hown cmd hcmd, hj]
    · exact List.filter_eq_nil_iff.mpr fun cmd hcmd => by simp [hown cmd hcmd, hj]
  rw [List.filterMap_flatMap, forChannel, List.filter_flatMap]
  change (List.range n).flatMap (fun j => forChannel channel _) = _
  simp only [hrow]
  exact flatMap_range_ite _ h

/-- A bank that is not ready ends the loop over its channel. -/
theorem asked_of_none {row : List Command} (h : ∃ cmd ∈ row, s.answer cmd = none) :
    ∃ l, s.asked row = l ++ [none] := by
  induction row with
  | nil =>
      obtain ⟨_, hmem, _⟩ := h
      cases hmem
  | cons cmd rest ih =>
      rw [asked]
      cases hcmd : s.answer cmd with
      | none => exact ⟨[], rfl⟩
      | some r =>
          obtain ⟨cmd', hmem, hnone⟩ := h
          rcases List.mem_cons.mp hmem with rfl | hmem
          · rw [hcmd] at hnone
            cases hnone
          · obtain ⟨l, hl⟩ := ih ⟨cmd', hmem, hnone⟩
            exact ⟨some r :: l, by rw [hl]; rfl⟩

/-! ## Answers of twins -/

section

variable {s : JedecDRAMSystem config} (htwins : AllTwins s.ctrls)
  (hlen : s.ctrls.length = config.channels)

include htwins hlen

theorem getReadyCommand_agree (h : cmd.SameUpToChannel cmd')
    (hch : cmd.addr.channel.toNat < config.channels)
    (hch' : cmd'.addr.channel.toNat < config.channels) :
    Library.Agree (Option.Rel Command.SameUpToChannel) (s.getReadyCommand cmd)
      (s.getReadyCommand cmd') := by
  rw [← hlen] at hch hch'
  have htwin := htwins _ (List.getElem_mem hch) _ (List.getElem_mem hch')
  unfold getReadyCommand
  rw [List.getElem?_eq_getElem hch, List.getElem?_eq_getElem hch']
  dsimp only
  rw [htwin.channelState]
  exact ChannelState.getReadyCommand_agree _ _ h

theorem answer_agree (h : cmd.SameUpToChannel cmd') (hch : cmd.addr.channel.toNat < config.channels)
    (hch' : cmd'.addr.channel.toNat < config.channels) :
    Option.Rel Command.SameUpToChannel (s.answer cmd) (s.answer cmd') := by
  have hagree := getReadyCommand_agree htwins hlen h hch hch'
  unfold answer
  cases hr : s.getReadyCommand cmd with
  | ok r =>
      cases hr' : s.getReadyCommand cmd' with
      | ok r' => exact hagree.of_ok hr hr'
      | error e => rw [hr, hr'] at hagree; exact hagree.elim
  | error e =>
      cases hr' : s.getReadyCommand cmd' with
      | ok r' => rw [hr, hr'] at hagree; exact hagree.elim
      | error e' => exact .none

variable {f : Nat → Nat → Command} (hf : Spread f)

include hf

theorem answers_same {j j' : Nat} (hj : j < config.channels) (hj' : j' < config.channels)
    (ks : List Nat) :
    SameStream ((ks.map (f j)).filterMap s.answer) ((ks.map (f j')).filterMap s.answer) := by
  induction ks with
  | nil => exact .nil
  | cons k ks ih =>
      have hk := answer_agree htwins hlen (hf.same j j' k) (by rw [hf.channel]; exact hj)
        (by rw [hf.channel]; exact hj')
      rw [List.map_cons, List.map_cons, List.filterMap_cons, List.filterMap_cons]
      generalize hr : s.answer (f j k) = r at hk
      generalize s.answer (f j' k) = r' at hk
      cases hk with
      | none => exact ih
      | some hsame => exact .cons ⟨hsame, isReadWrite_answer (hf.pim j k) hr⟩ ih

theorem covers_answers (hn : 0 < config.channels → n = config.channels) (ks : List Nat) :
    Covers config (((List.range n).flatMap fun j => ks.map (f j)).filterMap s.answer) where
  same channel hch channel' hch' := by
    rw [hn (Nat.zero_lt_of_lt hch), forChannel_answers hf hch, forChannel_answers hf hch']
    exact answers_same htwins hlen hf hch hch' ks
  inside cmd hcmd := by
    obtain ⟨target, htarget, hanswer⟩ := List.mem_filterMap.mp hcmd
    obtain ⟨j, -, htarget⟩ := List.mem_flatMap.mp htarget
    obtain ⟨k, -, rfl⟩ := List.mem_map.mp htarget
    obtain ⟨ctrl, hctrl, haddr, -⟩ := answer_spec (hf.pim j k) hanswer
    rw [haddr, ← hlen]
    exact (List.getElem?_eq_some_iff.mp hctrl).1

/-- A bank that is not ready is not ready in the last channel either, and nothing is left. -/
theorem late_askedAll (ks : List Nat) :
    late (s.askedAll ((List.range config.channels).map fun j => ks.map (f j))) = [] ∨
      late (s.askedAll ((List.range config.channels).map fun j => ks.map (f j))) =
        ((List.range config.channels).flatMap fun j => ks.map (f j)).filterMap s.answer := by
  by_cases hnone : none ∈ s.askedAll ((List.range config.channels).map fun j => ks.map (f j))
  · left
    obtain ⟨cmd, hcmd, hmiss⟩ := none_mem_askedAll.mp hnone
    obtain ⟨row, hrow, hcmd⟩ := List.mem_flatten.mp hcmd
    obtain ⟨j, hj, rfl⟩ := List.mem_map.mp hrow
    obtain ⟨k, hk, rfl⟩ := List.mem_map.mp hcmd
    rw [List.mem_range] at hj
    obtain ⟨n, hn⟩ := Nat.exists_eq_succ_of_ne_zero (Nat.ne_zero_of_lt hj)
    have hlast : s.answer (f n k) = none := by
      have hagree := answer_agree htwins hlen (hf.same j n k) (by rw [hf.channel]; exact hj)
        (by rw [hf.channel, hn]; exact Nat.lt_succ_self n)
      rw [hmiss] at hagree
      generalize s.answer (f n k) = r at hagree
      cases hagree
      rfl
    have hmiss' : ∃ cmd ∈ ks.map (f n), s.answer cmd = none :=
      ⟨_, List.mem_map_of_mem hk, hlast⟩
    obtain ⟨l, hl⟩ := asked_of_none hmiss'
    rw [hn, List.range_succ, List.map_append, askedAll, List.flatMap_append, List.map_singleton,
      List.flatMap_singleton, hl, ← List.append_assoc, Library.Stretch.late_append_none]
  · right
    have hmap := map_late_askedAll hnone
    rw [← List.flatMap_def] at hmap
    have hgot := congrArg (List.filterMap id) hmap
    rw [List.filterMap_map, List.filterMap_map, Function.id_comp, Function.id_comp,
      List.filterMap_some] at hgot
    exact hgot

end

/-! ## The stages -/

variable {s : JedecDRAMSystem config} {wait : Bool} {c c₁ : Cut}

theorem covers_gather {targets : List Command} (hall : Covers config (targets.filterMap s.answer))
    (h : s.gather [] targets = .ok got) : Covers config got := by
  rcases gather_spec h with ⟨rfl, -⟩ | ⟨_, _, _, -, -, -, -, hgot⟩
  · exact .nil
  · rw [hgot]
    exact hall

theorem covers_of_eq (h : cmds = [] ∨ cmds = got) (hgot : Covers config got) :
    Covers config cmds := by
  rcases h with rfl | rfl
  · exact .nil
  · exact hgot

section

variable (htwins : AllTwins s.ctrls) (hlen : s.ctrls.length = config.channels)
  (hd : s.dataflow.SingleCut)

include htwins hlen hd

theorem loadWeights_covers (h : s.loadWeights 0 c wait = .ok (c₁, cmds)) : Covers config cmds := by
  obtain ⟨-, got, hgot, heq⟩ := loadWeights_spec h
  have hcmds : cmds = (afterWeights config s.dataflow c wait got).2 := by rw [← heq]
  refine covers_of_eq (hcmds ▸ afterWeights_cmds s.dataflow c got) (covers_gather ?_ hgot)
  rw [Dataflow.weightTargets, hd.loop_cutHeight]
  exact covers_answers htwins hlen (spread_weights config hd c) (fun _ => rfl) _

theorem streamInputs_covers (h : s.streamInputs 0 c wait = .ok (c₁, cmds, ended)) :
    Covers config cmds := by
  obtain ⟨-, got, mixed, hgot, heq⟩ := streamInputs_spec hd.numCuts h
  have hcmds : cmds = (afterInputs config s.dataflow (countVpu c) wait
      (dropReads s.dataflow mixed got)).2.1 := by rw [← heq]
  have hlate : got = late (s.askedAll (s.dataflow.inputTargets config 0 c)) := by
    have hfold := gatherInputs_spec hgot
    rw [← (Library.Stretch.foldl_take Command.cmdType _).1, ← hfold]
  have hcovers : Covers config got := by
    rw [hlate, Dataflow.inputTargets, hd.loop_cutHeight]
    rcases late_askedAll htwins hlen (spread_inputs config hd c) (Dataflow.loop s.dataflow.mc) with
      hnil | hall
    · rw [hnil]
      exact .nil
    · rw [hall]
      exact covers_answers htwins hlen (spread_inputs config hd c) (fun _ => rfl) _
  refine covers_of_eq (hcmds ▸ afterInputs_cmds s.dataflow _ _) ?_
  unfold dropReads
  split
  · exact hcovers.filter fun ty => !(ty = s.dataflow.readType || ty = s.dataflow.readpType)
  · exact hcovers

theorem writeOutputs_covers (h : s.writeOutputs 0 c wait = .ok (c₁, cmds, written)) :
    Covers config cmds := by
  obtain ⟨-, got, hgot, heq⟩ := writeOutputs_spec h
  have hcmds : cmds = (afterOutputs s.dataflow c wait got).2.1 := by rw [← heq]
  have hn : 0 < config.channels → (s.dataflow.cutHeightOut config).toNat = config.channels := by
    intro hpos
    simp only [Dataflow.cutHeightOut, hd.cutHeight, hd.vcuts, Int.tdiv_one]
    split <;> omega
  refine covers_of_eq (hcmds ▸ afterOutputs_cmds s.dataflow c got) (covers_gather ?_ hgot)
  exact covers_answers htwins hlen (spread_outputs config hd c) hn _

theorem inputStage_covers (h : s.inputStage 0 c wait = .ok (c₁, wCmds, inCmds, ended)) :
    Covers config wCmds ∧ Covers config inCmds := by
  unfold inputStage at h
  split at h
  · obtain ⟨⟨c', cmds⟩, hload, h⟩ := Library.bind_eq_ok.mp h
    cases h
    exact ⟨loadWeights_covers htwins hlen hd hload, .nil⟩
  · cases h
    exact ⟨.nil, .nil⟩
  · obtain ⟨⟨c', cmds, e⟩, hstream, h⟩ := Library.bind_eq_ok.mp h
    cases h
    exact ⟨.nil, streamInputs_covers htwins hlen hd hstream⟩
  · cases h
    exact ⟨.nil, .nil⟩

end

theorem Outputs.covers {c₂ : Cut} (htwins : AllTwins s.ctrls)
    (hlen : s.ctrls.length = config.channels) (hd : s.dataflow.SingleCut)
    (h : Outputs s wait c c₁ c₂ cmds written) : Covers config cmds := by
  cases h with
  | skips _ => exact .nil
  | asks _ _ hwrite => exact writeOutputs_covers htwins hlen hd hwrite

/-! ## Runs -/

theorem sameStream_receive (clk : Nat) (stream : Stream) {cmds' : List Command}
    {ctrl ctrl' : Controller config} (h : Twins ctrl ctrl') (hcmds : SameStream cmds cmds') :
    Twins (receive clk stream cmds ctrl) (receive clk stream cmds' ctrl') := by
  cases stream with
  | weights =>
      exact ⟨Twins.sameStream_append h.rdW hcmds, h.rdIn, h.wr, by rw [h.rest]; rfl⟩
  | inputs =>
      have htimes : (cmds'.map fun _ => toInt clk) = cmds.map fun _ => toInt clk := by
        rw [List.map_const', List.map_const', hcmds.length_eq]
      refine ⟨h.rdW, Twins.sameStream_append h.rdIn hcmds, h.wr, ?_⟩
      unfold receive
      rw [htimes, h.rest]
      rfl
  | outputs =>
      exact ⟨h.rdW, h.rdIn, Twins.sameStream_append h.wr hcmds, by rw [h.rest]; rfl⟩

namespace AllTwins

variable {ctrls ctrls' : List (Controller config)} (h : AllTwins ctrls)

include h

theorem map {f : Controller config → Controller config}
    (hf : ∀ ctrl ctrl', Twins ctrl ctrl' → Twins (f ctrl) (f ctrl')) : AllTwins (ctrls.map f) := by
  intro ctrl hmem ctrl' hmem'
  obtain ⟨a, ha, rfl⟩ := List.mem_map.mp hmem
  obtain ⟨b, hb, rfl⟩ := List.mem_map.mp hmem'
  exact hf a b (h a ha b hb)

theorem push (hlen : ctrls.length = config.channels) (hcovers : Covers config cmds) :
    AllTwins (ctrls.mapIdx fun channel ctrl =>
      receive clk stream (forChannel channel cmds) ctrl) := by
  intro ctrl hmem ctrl' hmem'
  obtain ⟨i, hi, rfl⟩ := List.mem_mapIdx.mp hmem
  obtain ⟨j, hj, rfl⟩ := List.mem_mapIdx.mp hmem'
  exact sameStream_receive clk stream (h _ (List.getElem_mem hi) _ (List.getElem_mem hj))
    (hcovers.same i (hlen ▸ hi) j (hlen ▸ hj))

theorem clockTick (hs : ctrls.mapM Controller.clockTick = .ok ctrls') : AllTwins ctrls' := by
  have hticks := Library.mapM_eq_ok.mp hs
  have hfrom : ∀ ctrl ∈ ctrls', ∃ a ∈ ctrls, a.clockTick = .ok ctrl := by
    intro ctrl hmem
    obtain ⟨i, hi, rfl⟩ := List.mem_iff_getElem.mp hmem
    have hi' : i < ctrls.length := hticks.length_eq ▸ hi
    exact ⟨_, List.getElem_mem hi', hticks.get hi' hi⟩
  intro ctrl hmem ctrl' hmem'
  obtain ⟨a, ha, hactrl⟩ := hfrom ctrl hmem
  obtain ⟨b, hb, hbctrl⟩ := hfrom ctrl' hmem'
  exact (h a ha b hb).clockTick.of_ok hactrl hbctrl

end AllTwins

theorem mem_roundEvents {clk' cut : Nat} {outCmds : List Command}
    (h : SystemEvent.dispatched clk cut stream cmds ∈
      roundEvents clk' wCmds inCmds outCmds ended written) :
    (cmds = wCmds ∨ cmds = inCmds ∨ cmds = outCmds) ∧ cmds ≠ [] := by
  have hpushed : cmds ∈ (roundEvents clk' wCmds inCmds outCmds ended written).filterMap
      (SystemEvent.pushed? stream) := List.mem_filterMap.mpr ⟨_, h, by simp [SystemEvent.pushed?]⟩
  rw [pushed_roundEvents] at hpushed
  cases stream <;> dsimp only at hpushed <;> split at hpushed <;> simp_all

/-- What a run keeps. -/
structure Aligned (s : JedecDRAMSystem config) : Prop where
  one : OneCut s
  twins : AllTwins s.ctrls
  dispatches : ∀ clk cut stream cmds, SystemEvent.dispatched clk cut stream cmds ∈ s.log →
    Covers config cmds ∧ cmds ≠ []

namespace Aligned

theorem init : Aligned ({} : JedecDRAMSystem config) where
  one := OneCut.init
  twins ctrl hmem ctrl' hmem' := by
    rw [List.eq_of_mem_replicate hmem, List.eq_of_mem_replicate hmem']
    exact Twins.refl .nil .nil .nil
  dispatches := by simp

variable {s s' : JedecDRAMSystem config}

theorem twins_returnDone (clk : Nat) :
    ∀ (n : Nat) {ctrl ctrl' : Controller config}, Twins ctrl ctrl' →
      Twins (returnDone clk n ctrl) (returnDone clk n ctrl')
  | 0, _, _, h => h
  | n + 1, ctrl, ctrl', h => by
      have hpair := h.returnDoneTrans clk
      unfold returnDone
      generalize ctrl.returnDoneTrans clk = p at hpair
      generalize ctrl'.returnDoneTrans clk = q at hpair
      obtain ⟨done, ctrl₁⟩ := p
      obtain ⟨_, ctrl₁'⟩ := q
      obtain ⟨rfl, h₁⟩ := hpair
      cases done with
      | none => exact h₁
      | some _ => exact twins_returnDone clk n h₁

theorem settle (h : Aligned s) : Aligned s.settle := by
  have hreturn : AllTwins s.returnAll.ctrls := by
    refine h.twins.map fun ctrl ctrl' htwin => ?_
    rw [htwin.returnQueue]
    exact twins_returnDone _ _ htwin
  refine ⟨h.one.settle, ?_, ?_⟩
  · unfold JedecDRAMSystem.settle
    split <;> exact hreturn
  · unfold JedecDRAMSystem.settle
    split <;> exact h.dispatches

theorem pops (h : Aligned s) (hone : OneCut s') (hs : s.Pops s') : Aligned s' := by
  have hpim : AllTwins (s.ctrls.map fun ctrl => { ctrl with inPim := true }) :=
    h.twins.map fun ctrl ctrl' htwin =>
      ⟨htwin.rdW, htwin.rdIn, htwin.wr, by rw [htwin.rest]; rfl⟩
  refine ⟨hone, ?_, ?_⟩
  · cases hs with
    | none _ => exact h.twins
    | waits _ _ => exact hpim
    | launches _ _ _ => exact hpim
    | flow hq hflow =>
        have hd :=
          singleCut_decodeDataflow (h.one.words _ (by rw [hq]; exact List.mem_cons_self ..))
          hflow
        simpa [loadDataflow, hd.vcuts, hd.hcuts] using h.twins
    | work _ _ _ _ _ => exact h.twins
  · cases hs <;> exact h.dispatches

theorem rounds {wait : Bool} (h : Aligned s) (hs : s.Rounds wait s') : Aligned s' := by
  have hone := h.one.of_rounds hs
  cases hs with
  | blank _ _ => exact h
  | cut hd hc hround =>
      cases hround with
      | rests _ => exact h
      | @works c₁ c₂ wCmds inCmds outCmds ended written _ _ hstage hout =>
          have hlen := h.one.channels
          obtain ⟨hw, hin⟩ := inputStage_covers h.twins hlen hd hstage
          have hwr := hout.covers h.twins hlen hd
          refine ⟨hone, ?_, fun clk cut stream cmds hmem => ?_⟩
          · dsimp only [afterRound, pushAll]
            rw [push_ctrls, push_ctrls, push_ctrls]
            exact ((h.twins.push hlen hw).push (by simpa using hlen) hin).push
              (by simpa using hlen) hwr
          · rcases List.mem_append.mp hmem with hold | hnew
            · exact h.dispatches clk cut stream cmds hold
            · obtain ⟨hcmds, hne⟩ := mem_roundEvents hnew
              refine ⟨?_, hne⟩
              rcases hcmds with rfl | rfl | rfl
              · exact hw
              · exact hin
              · exact hwr

theorem step {op : SystemOp} (h : Aligned s) (hop : op.pimOneCut = true)
    (hs : (memorySystem config).step s op s') : Aligned s' := by
  have hone := h.one.step (SystemOp.oneCut_of_pimOneCut hop) hs
  cases op with
  | addPim hexAddr =>
      obtain ⟨-, rfl⟩ := hs
      exact ⟨hone, h.twins, h.dispatches⟩
  | add hexAddr isWrite => cases hop
  | tick =>
      obtain ⟨s₁, s₂, htick, hone₁⟩ := h.one.clockTick hs
      have h₂ := (h.settle.pops hone₁ htick.pops).rounds htick.rounds
      refine ⟨hone, h₂.twins.clockTick htick.ctrls, ?_⟩
      rw [htick.eq]
      exact h₂.dispatches

end Aligned

/-- In every run with PIM words for one cut only, the channels are in lockstep. -/
theorem channels_in_lockstep {ops : List SystemOp} {s : JedecDRAMSystem config}
    (hrun : ((memorySystem config).restrict fun _ op => op.pimOneCut = true).Run ops s) :
    s.Lockstep := by
  have h : Aligned s := hrun.invariant Aligned .init fun _ _ _ h hs => h.step hs.2 hs.1
  refine ⟨h.twins, fun cmd cmd' hsame hch hch' => ?_, fun clk cut stream cmds hmem => ?_⟩
  · exact getReadyCommand_agree h.twins h.one.channels hsame hch hch'
  · obtain ⟨hcovers, hne⟩ := h.dispatches clk cut stream cmds hmem
    exact ⟨hcovers, fun channel hch => hcovers.forChannel_ne_nil hne hch⟩

/-- Two channels of `Config.hbm2Rank`. -/
def twoChannels : Config :=
  { Config.hbm2Rank with
    channels := 2, coPos := 1, baPos := 7, bgPos := 9, raPos := 11, roPos := 11 }

/-- Two channels after the weights of a kernel have been asked for. -/
theorem channels_in_lockstep_two :
    (hbm2File { twoChannels with columns := 128 }).Builds twoChannels ∧
    ∃ s : JedecDRAMSystem twoChannels,
      (s.pushed .weights).map (List.map Command.cmdType) =
        [[.pimActivate, .pimActivate, .pimActivate, .pimActivate],
          [.ghReadPrecharge, .ghReadPrecharge, .ghReadPrecharge, .ghReadPrecharge]] ∧
      s.Lockstep := by
  have hsome : ((replayWhere twoChannels (fun _ op => op.pimOneCut)
      (kernelWords (dataflowWord 0 0 0 8) 1 1 1 0 0 0 ++ List.replicate 20 .tick)).map
      fun s => (s.pushed .weights).map (List.map Command.cmdType)) =
      some [[.pimActivate, .pimActivate, .pimActivate, .pimActivate],
        [.ghReadPrecharge, .ghReadPrecharge, .ghReadPrecharge, .ghReadPrecharge]] := by
    decide +kernel
  obtain ⟨s, hs, hpushed⟩ := Option.map_eq_some_iff.mp hsome
  exact ⟨⟨rfl, rfl⟩, s, hpushed, channels_in_lockstep (run_of_replayWhere hs)⟩

end JedecDRAMSystem

end Dramsim
