import Dramsim.Memory.Answers

/-!
# Dispatch to all banks or to none

A stage of the scheduler asks for the next command of every bank it reads or writes, and
is meant to move on only when each of them answers with its column command.  The loops of
the three stages treat other answers differently.  A `PRECHARGE` that all banks answer
falls into the branch that moves the iterator.  In the streaming stage a bank that is not
ready ends the loop over its channel only, so that the channels after it are still asked.
`dispatch_all_iff` says exactly in which states a tick dispatches to all or to none.
-/

namespace Dramsim

open Library.Stretch (late Even)

/-! ## The property -/

/-- The column commands that a stream wants next. -/
def Dataflow.targetsOf (config : Config) (d : Dataflow) (c : Cut) : Stream → List Command
  | .weights => d.weightTargets config 0 c
  | .inputs => (d.inputTargets config 0 c).flatten
  | .outputs => d.outputTargets config 0 c

/-- The iterator of a stream moves.  A stage that comes to its end may put its iterator
back, so its status counts too. -/
def Cut.Advances (c c' : Cut) : Stream → Prop
  | .weights => c.iwStatus = .loading ∧ (c'.NIt ≠ c.NIt ∨ c'.iwStatus ≠ .loading)
  | .inputs => c.iwStatus = .streaming ∧ (c'.MIt ≠ c.MIt ∨ c'.iwStatus ≠ .streaming)
  | .outputs => c'.MOutIt ≠ c.MOutIt ∨ c'.NOutTileIt ≠ c.NOutTileIt

namespace JedecDRAMSystem

variable {config : Config} {c' c₁ c₂ : Cut} {cmd : Command} {cmds : List Command} {stream : Stream}
  {ended mixed : Bool}
  {written : Dataflow.Written} {targets : List (List Command)}

/-- A stream whose iterator moves in a tick has all its targets ready, and exactly their
column commands are pushed in the tick. -/
def AllOrNothing (s : JedecDRAMSystem config) (c : Cut) (s' : JedecDRAMSystem config) : Prop :=
  ∀ c', s'.cuts = [c'] → ∀ stream, c.Advances c' stream →
    (∀ cmd ∈ s.dataflow.targetsOf config c stream, s.answer cmd = some cmd) ∧
      (s'.log.drop s.log.length).filterMap (SystemEvent.pushed? stream) =
        [s.dataflow.targetsOf config c stream]

/-! ## The condition -/

/-- All banks of a stage need the same command before their column command. -/
def AllNeed (s : JedecDRAMSystem config) (targets : List Command) (ty : CommandType) : Prop :=
  targets ≠ [] ∧ s.AllAnswer targets ty

def isInputRead (d : Dataflow) (cmd : Command) : Bool :=
  cmd.cmdType = d.readType || cmd.cmdType = d.readpType

/-- The answers in the streaming stage do not fool it.  Of the channels after the last one
with a bank that is not ready, the first answer that is no read is an activate, and if
there is such a bank their answers are not all reads, or answers differ elsewhere. -/
def StreamsWhole (s : JedecDRAMSystem config) (targets : List (List Command)) : Prop :=
  (∀ cmd, ((late (s.askedAll targets)).find? fun cmd => !isInputRead s.dataflow cmd) = some cmd →
      cmd.cmdType = .pimActivate) ∧
    (none ∈ s.askedAll targets → late (s.askedAll targets) ≠ [] →
      (∀ cmd ∈ late (s.askedAll targets), isInputRead s.dataflow cmd = true) →
      ¬ Even Command.cmdType (s.askedAll targets))

/-- The states in which the scheduler moves a stream for all its banks or not at all. -/
def DispatchesAll (s : JedecDRAMSystem config) (c : Cut) : Prop :=
  c.inPim = true → s.isInRef = false →
    match c.iwStatus with
    | .loading =>
        ¬ s.AllNeed (s.dataflow.weightTargets config 0 c) .srefExit ∧
          (s.dataflow.df = 0 → ¬ s.AllNeed (s.dataflow.weightTargets config 0 c) .precharge)
    | .loaded => True
    | .streaming => c.vpuCnt ≤ 1 → s.StreamsWhole (s.dataflow.inputTargets config 0 c)
    | .streamed =>
        0 < (countOutput c).outputValid →
          ¬ s.AllNeed (s.dataflow.outputTargets config 0 c) .srefExit ∧
            ¬ s.AllNeed (s.dataflow.outputTargets config 0 c) .precharge

/-! ## Events of a round -/

theorem pushed_sent (clk : Nat) (stream stream' : Stream) (cmds : List Command) :
    (if cmds = [] then [] else [SystemEvent.dispatched clk 0 stream' cmds]).filterMap
        (SystemEvent.pushed? stream) =
      if stream' = stream ∧ cmds ≠ [] then [cmds] else [] := by
  by_cases hcmds : cmds = []
  · simp [hcmds]
  · by_cases hs : stream' = stream
    · simp [hcmds, hs, SystemEvent.pushed?]
    · simp [hcmds, hs, SystemEvent.pushed?]

theorem pushed_roundEvents (clk : Nat) (wCmds inCmds outCmds : List Command) (ended : Bool)
    (written : Dataflow.Written) (stream : Stream) :
    (roundEvents clk wCmds inCmds outCmds ended written).filterMap (SystemEvent.pushed? stream) =
      match stream with
      | .weights => if wCmds = [] then [] else [wCmds]
      | .inputs => if inCmds = [] then [] else [inCmds]
      | .outputs => if outCmds = [] then [] else [outCmds] := by
  have hend : (if ended then [SystemEvent.endOfComputation 0] else []).filterMap
      (SystemEvent.pushed? stream) = [] := by
    cases ended <;> simp [SystemEvent.pushed?]
  have hwritten : (tileEvents written).filterMap (SystemEvent.pushed? stream) = [] := by
    cases written <;> simp [tileEvents, SystemEvent.pushed?]
  simp only [roundEvents, List.filterMap_append, pushed_sent, hend, hwritten]
  cases stream <;> simp

/-! ## The weight and output stages -/

/-- When a stage goes on with a command that some types exclude, all its targets are ready
unless all need one of the other types. -/
theorem gather_all_iff {s : JedecDRAMSystem config} {targets got : List Command}
    (stays : CommandType → Prop) (hpim : ∀ cmd ∈ targets, cmd.cmdType.isPimColumn = true)
    (hgot : s.gather [] targets = .ok got) :
    ((∃ first rest, got = first :: rest ∧ first.cmdType ≠ .pimActivate ∧ ¬ stays first.cmdType) →
        (∀ cmd ∈ targets, s.answer cmd = some cmd) ∧ got = targets ∧ targets ≠ []) ↔
      ∀ ty, ty = .srefExit ∨ ty = .precharge → ¬ stays ty → ¬ s.AllNeed targets ty := by
  constructor
  · rintro h ty hty hstays ⟨hne, hall⟩
    rcases gather_spec hgot with ⟨-, hnil | hnot⟩ | ⟨first, rest, ty', hfirst, hty', -, hall', -⟩
    · exact hne hnil
    · exact hnot ty hall
    · obtain ⟨cmd, hcmd⟩ := List.exists_mem_of_ne_nil targets hne
      obtain ⟨r, hr, hrty⟩ := hall cmd hcmd
      obtain ⟨r', hr', hrty'⟩ := hall' cmd hcmd
      have hsame : first.cmdType = ty := by
        rw [hr] at hr'
        cases hr'
        rw [hty', ← hrty', hrty]
      have hself := (h ⟨first, rest, hfirst, by rw [hsame]; rcases hty with rfl | rfl <;> decide,
        hsame ▸ hstays⟩).1 cmd hcmd
      rw [hr] at hself
      cases hself
      have hcol := hpim cmd hcmd
      rcases hty with rfl | rfl <;> rw [hrty] at hcol <;> cases hcol
  · rintro h ⟨first, rest, hfirst, hact, hstays⟩
    rcases gather_spec hgot with ⟨hnil, -⟩ | ⟨first', rest', ty, hfirst', hty, hne, hall, hans⟩
    · rw [hnil] at hfirst
      cases hfirst
    · rw [hfirst] at hfirst'
      cases hfirst'
      subst hty
      have hself : ∀ cmd ∈ targets, s.answer cmd = some cmd := by
        intro cmd hcmd
        obtain ⟨r, hr, hrty⟩ := hall cmd hcmd
        rcases answer_cases (hpim cmd hcmd) hr with rfl | hty | hty | hty
        · exact hr
        · exact absurd (hrty ▸ hty) hact
        · exact absurd ⟨hne, hrty ▸ hall⟩ (h _ (.inr (hrty ▸ hty)) (hrty ▸ hstays))
        · exact absurd ⟨hne, hrty ▸ hall⟩ (h _ (.inl (hrty ▸ hty)) (hrty ▸ hstays))
      refine ⟨hself, ?_, hne⟩
      rw [hans, List.filterMap_congr hself, List.filterMap_some]

variable {s : JedecDRAMSystem config} {d : Dataflow} {c : Cut} {wait : Bool} {got : List Command}

theorem isPimColumn_weightTargets (h : cmd ∈ d.weightTargets config 0 c) :
    cmd.cmdType.isPimColumn = true := by
  obtain ⟨j, -, h⟩ := List.mem_flatMap.mp h
  obtain ⟨k, -, rfl⟩ := List.mem_map.mp h
  simp only [Dataflow.command, Dataflow.weightType]
  split <;> rfl

theorem isPimColumn_outputTargets (h : cmd ∈ d.outputTargets config 0 c) :
    cmd.cmdType.isPimColumn = true := by
  obtain ⟨j, -, h⟩ := List.mem_flatMap.mp h
  obtain ⟨k, -, rfl⟩ := List.mem_map.mp h
  simp only [Dataflow.command, Dataflow.outputType]
  split <;> rfl

theorem nextWeight_moves :
    (d.nextWeight config c).NIt ≠ c.NIt ∨ (d.nextWeight config c).iwStatus ≠ .loading := by
  unfold Dataflow.nextWeight
  split
  · exact .inr (by simp)
  · exact .inl (by simp)

theorem nextInput_moves :
    (d.nextInput config c).1.MIt ≠ c.MIt ∨ (d.nextInput config c).1.iwStatus ≠ .streaming := by
  unfold Dataflow.nextInput
  dsimp only
  split
  · -- the tile ends
    obtain ⟨_, _, _, _, htile⟩ := nextTile_frame config d
      (if d.lastKTile config c ∧ c.MIt.tmod d.mTileSize = 0 then
        { c with outCnt := Dataflow.outDelay config } else c)
    rw [htile]
    exact .inr nofun
  · exact .inl (by simp)

/-- The next tile of outputs starts after the current one. -/
theorem lt_mul_tdiv_add_one {a b : Int} (hb : 0 < b) : b * (a.tdiv b + 1) ≠ a := by
  have hmod := Int.tmod_add_mul_tdiv a b
  have hlt := Int.tmod_lt_of_pos a hb
  rw [Int.mul_add, Int.mul_one]
  omega

theorem nextOutput_moves (hsize : 0 < d.mTileSizeOut) :
    (d.nextOutput c).1.MOutIt ≠ c.MOutIt ∨ (d.nextOutput c).1.NOutTileIt ≠ c.NOutTileIt := by
  unfold Dataflow.nextOutput
  dsimp only
  split_ifs
  · exact .inl (lt_mul_tdiv_add_one hsize)
  · exact .inl (lt_mul_tdiv_add_one hsize)
  · exact .inr (by simp)
  · exact .inl (by simp)

/-- A stage moves exactly when it goes on with what it has gathered. -/
theorem moves_iff {moves goes ready : Prop} {targets : List Command} (hmoves : moves ↔ goes)
    (hcmds : goes → cmds = got) :
    (moves → ready ∧ (if cmds = [] then [] else [cmds]) = [targets]) ↔
      (goes → ready ∧ got = targets ∧ targets ≠ []) := by
  rw [hmoves]
  refine imp_congr_right fun hgoes => and_congr_right fun _ => ?_
  rw [hcmds hgoes]
  split_ifs with hnil
  · simp [hnil, eq_comm]
  · simp only [List.cons.injEq, and_true]
    exact ⟨fun he => ⟨he, he ▸ hnil⟩, And.left⟩

/-- The weight stage. -/
theorem weights_iff (hdf : s.dataflow.df = 0 ∨ s.dataflow.df = 1) (hstatus : c.iwStatus = .loading)
    (h : s.loadWeights 0 c wait = .ok (c₁, cmds)) :
    ((c₁.NIt ≠ c.NIt ∨ c₁.iwStatus ≠ .loading) →
        (∀ cmd ∈ s.dataflow.weightTargets config 0 c, s.answer cmd = some cmd) ∧
          (if cmds = [] then [] else [cmds]) = [s.dataflow.weightTargets config 0 c]) ↔
      ¬ s.AllNeed (s.dataflow.weightTargets config 0 c) .srefExit ∧
        (s.dataflow.df = 0 → ¬ s.AllNeed (s.dataflow.weightTargets config 0 c) .precharge) := by
  obtain ⟨-, got, hgot, heq⟩ := loadWeights_spec h
  have hmoves : ((c₁.NIt ≠ c.NIt ∨ c₁.iwStatus ≠ .loading) ↔ LoadsWeight s.dataflow got) ∧
      (LoadsWeight s.dataflow got → cmds = got) := by
    by_cases hloads : LoadsWeight s.dataflow got
    · obtain ⟨w, hw⟩ := afterWeights_of_loads config c wait hloads
      rw [hw] at heq
      cases heq
      exact ⟨iff_of_true nextWeight_moves hloads, fun _ => rfl⟩
    · obtain ⟨w, hw⟩ := afterWeights_of_not config c wait hloads
      rw [← heq] at hw
      dsimp only at hw
      exact ⟨iff_of_false (by simp [hw, hstatus]) hloads, fun h => absurd h hloads⟩
  rw [moves_iff hmoves.1 hmoves.2]
  refine (gather_all_iff (fun ty => s.dataflow.df = 1 ∧ ty = .precharge)
    (fun cmd hcmd => isPimColumn_weightTargets hcmd) hgot).trans ?_
  constructor
  · intro hall
    exact ⟨hall _ (.inl rfl) (by simp), fun hzero => hall _ (.inr rfl) (by simp [hzero])⟩
  · rintro ⟨hsref, hpre⟩ ty (rfl | rfl) hstays
    · exact hsref
    · exact hpre (hdf.resolve_right fun hone => hstays ⟨hone, rfl⟩)

/-- The output stage. -/
theorem outputs_iff (hsize : 0 ≤ s.dataflow.mTileSizeOut)
    (h : s.writeOutputs 0 c wait = .ok (c₁, cmds, written)) :
    ((c₁.MOutIt ≠ c.MOutIt ∨ c₁.NOutTileIt ≠ c.NOutTileIt) →
        (∀ cmd ∈ s.dataflow.outputTargets config 0 c, s.answer cmd = some cmd) ∧
          (if cmds = [] then [] else [cmds]) = [s.dataflow.outputTargets config 0 c]) ↔
      ¬ s.AllNeed (s.dataflow.outputTargets config 0 c) .srefExit ∧
        ¬ s.AllNeed (s.dataflow.outputTargets config 0 c) .precharge := by
  obtain ⟨hne, got, hgot, heq⟩ := writeOutputs_spec h
  have hmoves : ((c₁.MOutIt ≠ c.MOutIt ∨ c₁.NOutTileIt ≠ c.NOutTileIt) ↔ GoesOn got) ∧
      (GoesOn got → cmds = got) := by
    by_cases hgoes : GoesOn got
    · obtain ⟨o, ho⟩ := afterOutputs_of_goesOn s.dataflow c wait hgoes
      rw [ho] at heq
      cases heq
      exact ⟨iff_of_true (nextOutput_moves (by omega)) hgoes, fun _ => rfl⟩
    · obtain ⟨o, ho, -⟩ := afterOutputs_of_not s.dataflow c wait hgoes
      rw [← heq] at ho
      dsimp only at ho
      exact ⟨iff_of_false (by simp [ho]) hgoes, fun h => absurd h hgoes⟩
  rw [moves_iff hmoves.1 hmoves.2]
  have hiff := gather_all_iff (fun _ => False)
    (fun cmd hcmd => isPimColumn_outputTargets hcmd) hgot
  simp only [not_false_eq_true, and_true, true_imp_iff] at hiff
  refine Iff.trans hiff ⟨fun hall => ⟨hall _ (.inl rfl), hall _ (.inr rfl)⟩, ?_⟩
  rintro ⟨hsref, hpre⟩ ty (rfl | rfl)
  · exact hsref
  · exact hpre

/-! ## The streaming stage -/

theorem isInputRead_inputTargets (h : cmd ∈ (d.inputTargets config 0 c).flatten) :
    isInputRead d cmd = true := by
  obtain ⟨cmds, hcmds, h⟩ := List.mem_flatten.mp h
  obtain ⟨j, -, rfl⟩ := List.mem_map.mp hcmds
  obtain ⟨k, -, rfl⟩ := List.mem_map.mp h
  simp only [isInputRead, Dataflow.command, Dataflow.inputType]
  split <;> simp

theorem isPimColumn_of_isInputRead (h : isInputRead d cmd = true) :
    cmd.cmdType.isPimColumn = true := by
  simp only [isInputRead, Bool.or_eq_true, decide_eq_true_eq] at h
  rcases h with h | h
  · rw [h, Dataflow.readType]
    split <;> rfl
  · rw [h, Dataflow.readpType]
    split <;> rfl

/-- A bank that is not ready is noticed. -/
theorem none_mem_askedAll :
    none ∈ s.askedAll targets ↔ ∃ cmd ∈ targets.flatten, s.answer cmd = none := by
  have hrow (row : List Command) : none ∈ s.asked row ↔ ∃ cmd ∈ row, s.answer cmd = none := by
    induction row with
    | nil => simp [asked]
    | cons cmd rest ih =>
        rw [asked]
        cases hcmd : s.answer cmd with
        | none => simp [hcmd]
        | some r => simp [hcmd, ih]
  simp only [askedAll, List.mem_flatMap, hrow, List.mem_flatten]
  constructor
  · rintro ⟨row, hmem, cmd, hcmd, hnone⟩
    exact ⟨cmd, ⟨row, hmem, hcmd⟩, hnone⟩
  · rintro ⟨cmd, ⟨row, hmem, hcmd⟩, hnone⟩
    exact ⟨row, hmem, cmd, hcmd, hnone⟩

/-- If all banks are ready, all are asked. -/
theorem map_late_askedAll (h : none ∉ s.askedAll targets) :
    (late (s.askedAll targets)).map some = targets.flatten.map s.answer := by
  rw [Library.Stretch.map_late h]
  rw [none_mem_askedAll] at h
  have hrow (row : List Command) (hready : ∀ cmd ∈ row, s.answer cmd ≠ none) :
      s.asked row = row.map s.answer := by
    induction row with
    | nil => rfl
    | cons cmd rest ih =>
        rw [asked]
        cases hcmd : s.answer cmd with
        | none => exact absurd hcmd (hready cmd (List.mem_cons_self ..))
        | some r =>
            simp [hcmd, ih fun cmd' hmem => hready cmd' (List.mem_cons_of_mem _ hmem)]
  rw [askedAll, List.map_flatten, List.flatMap_def]
  congr 1
  refine List.map_congr_left fun row hmem => hrow row fun cmd hcmd hnone => ?_
  exact h ⟨cmd, List.mem_flatten.mpr ⟨row, hmem, hcmd⟩, hnone⟩

/-- A read prepares no bank. -/
theorem prepares_of_isInputRead (h : isInputRead d cmd = true) :
    cmd.cmdType ≠ .pimActivate ∧ cmd.cmdType ≠ .precharge ∧ cmd.cmdType ≠ .srefExit := by
  have hpim := isPimColumn_of_isInputRead h
  refine ⟨?_, ?_, ?_⟩ <;> intro hty <;> rw [hty] at hpim <;> cases hpim

/-- The stage goes on with a command that is no activate, or with reads that never
differed. -/
theorem goesOn_dropReads_iff {answers : List (Option Command)}
    (hmixed : mixed = false ↔ Even Command.cmdType answers) :
    GoesOn (dropReads d mixed (late answers)) ↔
      (∃ cmd, ((late answers).find? fun cmd => !isInputRead d cmd) = some cmd ∧
        cmd.cmdType ≠ .pimActivate) ∨
      (late answers ≠ [] ∧ (∀ cmd ∈ late answers, isInputRead d cmd = true) ∧
        Even Command.cmdType answers) := by
  have hhead (l : List Command) :
      GoesOn l ↔ ∃ cmd, l.head? = some cmd ∧ cmd.cmdType ≠ .pimActivate := by
    constructor
    · rintro ⟨first, rest, rfl, hact⟩
      exact ⟨first, rfl, hact⟩
    · rintro ⟨first, hfirst, hact⟩
      obtain ⟨rest, rfl⟩ := List.head?_eq_some_iff.mp hfirst
      exact ⟨first, rest, rfl, hact⟩
  rw [hhead]
  cases mixed with
  | true =>
      have huneven : ¬ Even Command.cmdType answers := fun h => by simpa using hmixed.mpr h
      simp only [dropReads, if_true, huneven, and_false, or_false]
      rw [List.head?_filter]
      rfl
  | false =>
      have heven := hmixed.mp rfl
      simp only [dropReads, Bool.false_eq_true, if_false, heven, and_true]
      constructor
      · rintro ⟨first, hfirst, hact⟩
        have hmem : first ∈ late answers := List.mem_of_mem_head? hfirst
        by_cases hreads : ∀ cmd ∈ late answers, isInputRead d cmd = true
        · exact .inr ⟨List.ne_nil_of_mem hmem, hreads⟩
        · left
          have hsome : ((late answers).find? fun cmd => !isInputRead d cmd).isSome := by
            rw [List.find?_isSome]
            simp only [not_forall] at hreads
            obtain ⟨cmd, hmem, hnot⟩ := hreads
            exact ⟨cmd, hmem, by simpa using hnot⟩
          obtain ⟨cmd, hcmd⟩ := Option.isSome_iff_exists.mp hsome
          refine ⟨cmd, hcmd, ?_⟩
          rw [heven.same (List.mem_of_find?_eq_some hcmd) hmem]
          exact hact
      · rintro (⟨cmd, hfind, hact⟩ | ⟨hne, hreads⟩)
        · have hmem := List.mem_of_find?_eq_some hfind
          obtain ⟨first, rest, hfirst⟩ := List.exists_cons_of_ne_nil (List.ne_nil_of_mem hmem)
          refine ⟨first, by rw [hfirst]; rfl, ?_⟩
          rw [heven.same (by rw [hfirst]; exact List.mem_cons_self ..) hmem]
          exact hact
        · obtain ⟨first, rest, hfirst⟩ := List.exists_cons_of_ne_nil hne
          exact ⟨first, by rw [hfirst]; rfl,
            (prepares_of_isInputRead
              (hreads first (by rw [hfirst]; exact List.mem_cons_self ..))).1⟩

/-- Banks that all answer with reads answer with their column commands. -/
theorem late_of_reads (hread : ∀ cmd ∈ targets.flatten, isInputRead d cmd = true)
    (hnone : none ∉ s.askedAll targets)
    (hreads : ∀ cmd ∈ late (s.askedAll targets), isInputRead d cmd = true) :
    (∀ cmd ∈ targets.flatten, s.answer cmd = some cmd) ∧
      late (s.askedAll targets) = targets.flatten := by
  have hmap := map_late_askedAll hnone
  have hself : ∀ cmd ∈ targets.flatten, s.answer cmd = some cmd := by
    intro cmd hcmd
    have hans : s.answer cmd ∈ (late (s.askedAll targets)).map some :=
      hmap ▸ List.mem_map_of_mem hcmd
    obtain ⟨r, hr, hrans⟩ := List.mem_map.mp hans
    have hprep := prepares_of_isInputRead (hreads r hr)
    rcases answer_cases (isPimColumn_of_isInputRead (hread cmd hcmd)) hrans.symm with
      rfl | hty | hty | hty
    · exact hrans.symm
    · exact absurd hty hprep.1
    · exact absurd hty hprep.2.1
    · exact absurd hty hprep.2.2
  refine ⟨hself, List.map_injective_iff.mpr (Option.some_injective _) ?_⟩
  rw [hmap]
  exact List.map_congr_left hself

/-- What the stage goes on with are all reads, unless the answers fool it. -/
theorem streams_iff (hread : ∀ cmd ∈ targets.flatten, isInputRead s.dataflow cmd = true)
    (hgot : s.gatherInputs targets = .ok (got, mixed)) :
    (GoesOn (dropReads s.dataflow mixed got) →
        (∀ cmd ∈ targets.flatten, s.answer cmd = some cmd) ∧
          dropReads s.dataflow mixed got = targets.flatten ∧ targets.flatten ≠ []) ↔
      s.StreamsWhole targets := by
  have hfold := gatherInputs_spec hgot
  obtain ⟨hlate, hmixed⟩ := Library.Stretch.foldl_take Command.cmdType (s.askedAll targets)
  rw [← hfold] at hlate hmixed
  dsimp only at hlate hmixed
  subst hlate
  rw [goesOn_dropReads_iff hmixed, StreamsWhole]
  constructor
  · intro hall
    constructor
    · intro cmd hfind
      by_contra hact
      obtain ⟨hself, -⟩ := hall (.inl ⟨cmd, hfind, hact⟩)
      have hnone : none ∉ s.askedAll targets := fun hnone => by
        obtain ⟨cmd, hcmd, hno⟩ := none_mem_askedAll.mp hnone
        rw [hself cmd hcmd] at hno
        cases hno
      have hans : some cmd ∈ targets.flatten.map s.answer :=
        map_late_askedAll hnone ▸ List.mem_map_of_mem (List.mem_of_find?_eq_some hfind)
      obtain ⟨target, htarget, hcmd⟩ := List.mem_map.mp hans
      rw [hself target htarget] at hcmd
      cases hcmd
      simpa [hread cmd htarget] using List.find?_some hfind
    · intro hnone hne hreads heven
      obtain ⟨hself, -⟩ := hall (.inr ⟨hne, hreads, heven⟩)
      obtain ⟨cmd, hcmd, hno⟩ := none_mem_askedAll.mp hnone
      rw [hself cmd hcmd] at hno
      cases hno
  · rintro ⟨hfind, hpart⟩ (⟨cmd, hcmd, hact⟩ | ⟨hne, hreads, heven⟩)
    · exact absurd (hfind cmd hcmd) hact
    · have hnone : none ∉ s.askedAll targets := fun hnone => hpart hnone hne hreads heven
      obtain ⟨hself, hflat⟩ := late_of_reads hread hnone hreads
      rw [hmixed.mpr heven]
      exact ⟨hself, hflat, hflat ▸ hne⟩

theorem inputs_iff (hone : numCuts s.dataflow = 1) (hstatus : c.iwStatus = .streaming)
    (h : s.streamInputs 0 c wait = .ok (c₁, cmds, ended)) :
    ((c₁.MIt ≠ c.MIt ∨ c₁.iwStatus ≠ .streaming) →
        (∀ cmd ∈ (s.dataflow.inputTargets config 0 c).flatten, s.answer cmd = some cmd) ∧
          (if cmds = [] then [] else [cmds]) = [(s.dataflow.inputTargets config 0 c).flatten]) ↔
      (c.vpuCnt ≤ 1 → s.StreamsWhole (s.dataflow.inputTargets config 0 c)) := by
  obtain ⟨-, got, mixed, hgot, heq⟩ := streamInputs_spec hone h
  have hvpu : (countVpu c).vpuCnt = 0 ↔ c.vpuCnt ≤ 1 := by
    simp only [countVpu]
    omega
  have hmoves : ((c₁.MIt ≠ c.MIt ∨ c₁.iwStatus ≠ .streaming) ↔
      (c.vpuCnt ≤ 1 ∧ GoesOn (dropReads s.dataflow mixed got))) ∧
      (c.vpuCnt ≤ 1 ∧ GoesOn (dropReads s.dataflow mixed got) →
        cmds = dropReads s.dataflow mixed got) := by
    by_cases hgoes : c.vpuCnt ≤ 1 ∧ GoesOn (dropReads s.dataflow mixed got)
    · obtain ⟨b, hb⟩ := afterInputs_of_goesOn config s.dataflow wait (hvpu.mpr hgoes.1) hgoes.2
      rw [hb] at heq
      cases heq
      exact ⟨iff_of_true nextInput_moves hgoes, fun _ => rfl⟩
    · obtain ⟨b, hb, -⟩ := afterInputs_of_not config s.dataflow wait
        fun hgo hzero => hgoes ⟨hvpu.mp hzero, hgo⟩
      rw [← heq] at hb
      dsimp only at hb
      exact ⟨iff_of_false (by simp [hb, countVpu, hstatus]) hgoes, fun h => absurd h hgoes⟩
  rw [moves_iff hmoves.1 hmoves.2, and_imp]
  exact imp_congr_right fun _ =>
    streams_iff (fun cmd hcmd => isInputRead_inputTargets hcmd) hgot

/-! ## A whole tick -/

/-- Closing a tile of outputs moves no iterator. -/
theorem advances_closeTile : c.Advances (closeTile c' written) stream ↔ c.Advances c' stream := by
  cases written <;> cases stream <;> rfl

theorem advances_countOutput : c.Advances (countOutput c') stream ↔ c.Advances c' stream := by
  rw [countOutput_eq]
  cases stream <;> rfl

theorem not_advances_outputs (h : c'.MOutIt = c.MOutIt ∧ c'.NOutTileIt = c.NOutTileIt) :
    ¬ c.Advances c' .outputs := by
  rintro (hm | hn)
  · exact hm h.1
  · exact hn h.2

/-- While the weights are read no other iterator moves. -/
theorem eq_weights_of_advances (hstatus : c.iwStatus = .loading)
    (hout : c'.MOutIt = c.MOutIt ∧ c'.NOutTileIt = c.NOutTileIt) (h : c.Advances c' stream) :
    stream = .weights := by
  cases stream with
  | weights => rfl
  | inputs => cases hstatus.symm.trans h.1
  | outputs => exact absurd h (not_advances_outputs hout)

theorem eq_inputs_of_advances (hstatus : c.iwStatus = .streaming)
    (hout : c'.MOutIt = c.MOutIt ∧ c'.NOutTileIt = c.NOutTileIt) (h : c.Advances c' stream) :
    stream = .inputs := by
  cases stream with
  | weights => cases hstatus.symm.trans h.1
  | inputs => rfl
  | outputs => exact absurd h (not_advances_outputs hout)

/-- Nor does one of the inputs move when they have all been read. -/
theorem eq_outputs_of_advances (hload : c.iwStatus ≠ .loading) (hstream : c.iwStatus ≠ .streaming)
    (h : c.Advances c' stream) : stream = .outputs := by
  cases stream with
  | weights => exact absurd h.1 hload
  | inputs => exact absurd h.1 hstream
  | outputs => rfl

/-- Where only one iterator may move, its stream decides. -/
theorem forall_advances_iff {sent : Stream → Prop} {only : Stream}
    (honly : ∀ {stream}, c.Advances c' stream → stream = only) :
    (∀ stream, c.Advances c' stream → sent stream) ↔ (c.Advances c' only → sent only) := by
  constructor
  · exact fun h => h only
  · intro h stream hadv
    cases honly hadv
    exact h hadv

/-- The outputs are not asked for while the array is fed. -/
theorem Outputs.of_not_streamed (h : Outputs s wait c c₁ c₂ cmds written)
    (hstatus : c.iwStatus ≠ .streamed) : c₂ = c₁ ∧ cmds = [] ∧ written = .column := by
  cases h with
  | skips _ => exact ⟨rfl, rfl, rfl⟩
  | asks _ hs _ => exact absurd hs hstatus

/-- Waiting for the array does not change what is to be written. -/
theorem outputTargets_awaits (config : Config) (d : Dataflow) (c : Cut) :
    d.outputTargets config 0 (countOutput (awaitArray c)) = d.outputTargets config 0 c := by
  rw [awaitArray_eq, countOutput_eq]
  rfl

theorem outputValid_awaits (c : Cut) :
    (countOutput (awaitArray c)).outputValid = (countOutput c).outputValid := by
  rw [awaitArray_eq, countOutput_eq, countOutput_eq]

/-- What a round pushes into a stream. -/
def roundPushes (wCmds inCmds outCmds : List Command) : Stream → List (List Command)
  | .weights => if wCmds = [] then [] else [wCmds]
  | .inputs => if inCmds = [] then [] else [inCmds]
  | .outputs => if outCmds = [] then [] else [outCmds]

/-- Where a round moves a stream, all its banks have answered with the column command, and it
has been pushed for each of them. -/
def RoundDispatches (s : JedecDRAMSystem config) (c c₂ : Cut)
    (wCmds inCmds outCmds : List Command) : Prop :=
  ∀ stream, c.Advances c₂ stream →
    (∀ cmd ∈ s.dataflow.targetsOf config c stream, s.answer cmd = some cmd) ∧
      roundPushes wCmds inCmds outCmds stream = [s.dataflow.targetsOf config c stream]

theorem allOrNothing_iff {s' : JedecDRAMSystem config} {clk : Nat}
    {wCmds inCmds outCmds : List Command} (hcuts : s'.cuts = [closeTile c₂ written])
    (hlog : s'.log = s.log ++ roundEvents clk wCmds inCmds outCmds ended written) :
    s.AllOrNothing c s' ↔ s.RoundDispatches c c₂ wCmds inCmds outCmds := by
  have hpushes (stream : Stream) :
      (s'.log.drop s.log.length).filterMap (SystemEvent.pushed? stream) =
        roundPushes wCmds inCmds outCmds stream := by
    rw [hlog, List.drop_left, pushed_roundEvents]
    cases stream <;> rfl
  simp only [AllOrNothing, RoundDispatches, hpushes, hcuts]
  constructor
  · exact fun h stream hadv => h _ rfl stream (advances_closeTile.mpr hadv)
  · rintro h c' hc' stream hadv
    cases hc'
    exact h stream (advances_closeTile.mp hadv)

section Stages

variable {c₂ : Cut} {wCmds inCmds outCmds : List Command} {ended : Bool}
  (hd : s.dataflow.SingleCut) (hc : s.cuts = [c])
  (hstage : s.inputStage 0 c wait = .ok (c₁, wCmds, inCmds, ended))
  (hout : Outputs s wait c (countOutput c₁) c₂ outCmds written)

include hd hc hstage hout

theorem loading_dispatches_iff (hstatus : c.iwStatus = .loading) :
    s.RoundDispatches c c₂ wCmds inCmds outCmds ↔
      ¬ s.AllNeed (s.dataflow.weightTargets config 0 c) .srefExit ∧
        (s.dataflow.df = 0 → ¬ s.AllNeed (s.dataflow.weightTargets config 0 c) .precharge) := by
  have hkeeps := (inputStage_feeds hd.numCuts hc hstage).outIterators
  obtain ⟨rfl, rfl, rfl⟩ := hout.of_not_streamed (by simp [hstatus])
  simp only [inputStage, hstatus] at hstage
  obtain ⟨⟨c', cmds⟩, hload, h⟩ := Library.bind_eq_ok.mp hstage
  cases h
  simp only [RoundDispatches, advances_countOutput]
  rw [forall_advances_iff (eq_weights_of_advances hstatus hkeeps),
    ← weights_iff hd.df hstatus hload, Cut.Advances, and_iff_right hstatus]
  rfl

/-- No stream moves before the inputs are asked for. -/
theorem loaded_dispatches (hstatus : c.iwStatus = .loaded) :
    s.RoundDispatches c c₂ wCmds inCmds outCmds := by
  have hkeeps := (inputStage_feeds hd.numCuts hc hstage).outIterators
  obtain ⟨rfl, rfl, rfl⟩ := hout.of_not_streamed (by simp [hstatus])
  simp only [RoundDispatches, advances_countOutput]
  intro stream hadv
  cases eq_outputs_of_advances (by simp [hstatus]) (by simp [hstatus]) hadv
  exact absurd hadv (not_advances_outputs hkeeps)

theorem streaming_dispatches_iff (hstatus : c.iwStatus = .streaming) :
    s.RoundDispatches c c₂ wCmds inCmds outCmds ↔
      (c.vpuCnt ≤ 1 → s.StreamsWhole (s.dataflow.inputTargets config 0 c)) := by
  have hkeeps := (inputStage_feeds hd.numCuts hc hstage).outIterators
  obtain ⟨rfl, rfl, rfl⟩ := hout.of_not_streamed (by simp [hstatus])
  simp only [inputStage, hstatus] at hstage
  obtain ⟨⟨c', cmds, e⟩, hstream, h⟩ := Library.bind_eq_ok.mp hstage
  cases h
  simp only [RoundDispatches, advances_countOutput]
  rw [forall_advances_iff (eq_inputs_of_advances hstatus hkeeps),
    ← inputs_iff hd.numCuts hstatus hstream, Cut.Advances, and_iff_right hstatus]
  rfl

theorem streamed_dispatches_iff (hstatus : c.iwStatus = .streamed) :
    s.RoundDispatches c c₂ wCmds inCmds outCmds ↔
      (0 < (countOutput c).outputValid →
        ¬ s.AllNeed (s.dataflow.outputTargets config 0 c) .srefExit ∧
          ¬ s.AllNeed (s.dataflow.outputTargets config 0 c) .precharge) := by
  have hkeeps := (inputStage_feeds hd.numCuts hc hstage).outIterators
  obtain ⟨rfl, rfl, rfl, rfl⟩ := inputStage_streamed hstatus hstage
  have hvalid := outputValid_awaits c
  have hits : (countOutput (awaitArray c)).MOutIt = c.MOutIt ∧
      (countOutput (awaitArray c)).NOutTileIt = c.NOutTileIt := by
    rw [countOutput_eq]
    exact hkeeps
  have htargets := outputTargets_awaits config s.dataflow c
  rw [RoundDispatches, forall_advances_iff
    (eq_outputs_of_advances (by simp [hstatus]) (by simp [hstatus]))]
  cases hout with
  | skips hskip =>
      have hzero : ¬ 0 < (countOutput c).outputValid := fun h => hskip ⟨hvalid ▸ h, hstatus⟩
      exact iff_of_true (fun hadv => absurd hadv (not_advances_outputs hits))
        fun h => absurd h hzero
  | asks hpos _ hwrite =>
      rw [hvalid] at hpos
      have hiff := outputs_iff hd.mTileSizeOut_nonneg hwrite
      rw [htargets, hits.1, hits.2] at hiff
      simp only [hpos, true_imp_iff, ← hiff]
      rfl

end Stages

/-- A tick dispatches to all banks of a stream or to none exactly in the states in which
the answers of the banks do not fool the scheduler. -/
theorem dispatch_all_iff {s s₁ s' : JedecDRAMSystem config} {c : Cut}
    (hpop : s.settle.popPim = .ok s₁) (hd : s₁.dataflow.SingleCut) (hc : s₁.cuts = [c])
    (htick : s.clockTick = .ok s') : s₁.AllOrNothing c s' ↔ s₁.DispatchesAll c := by
  obtain ⟨s₁', s₂, ctrls, hpop', hcuts, -, rfl⟩ := clockTick_spec htick
  rw [hpop] at hpop'
  cases hpop'
  rw [hd.numCuts] at hcuts
  obtain ⟨s₂', hround, h⟩ := Library.bind_eq_ok.mp hcuts
  cases h
  cases scheduleCut_round hd hc hround with
  | rests hrest =>
      refine iff_of_true ?_ ?_
      · intro c' hc' stream hadv
        rw [hc] at hc'
        cases hc'
        cases stream <;> simp [Cut.Advances] at hadv
      · intro hpim href
        rcases hrest with h | h
        · rw [hpim] at h
          cases h
        · rw [href] at h
          cases h
  | works hpim href hstage hout =>
      rw [allOrNothing_iff rfl rfl]
      unfold DispatchesAll
      simp only [hpim, href, true_imp_iff]
      cases hstatus : c.iwStatus with
      | loading => exact loading_dispatches_iff hd hc hstage hout hstatus
      | loaded => exact iff_of_true (loaded_dispatches hd hc hstage hout hstatus) trivial
      | streaming => exact streaming_dispatches_iff hd hc hstage hout hstatus
      | streamed => exact streamed_dispatches_iff hd hc hstage hout hstatus

/-- The tick at clock 18 of a kernel, in which its only weight is read. -/
theorem dispatch_all_iff_weight :
    ∃ s s₁ s' : JedecDRAMSystem .hbm2Rank, ∃ c c' : Cut, s.settle.popPim = .ok s₁ ∧
      s.clockTick = .ok s' ∧ s₁.cuts = [c] ∧ s'.cuts = [c'] ∧ c.Advances c' .weights ∧
      (s₁.AllOrNothing c s' ↔ s₁.DispatchesAll c) := by
  have hsome : ((replayWhere .hbm2Rank (fun _ op => op.oneCut)
      (kernelWords (dataflowWord 0 0 0 8) 1 1 1 0 0 0 ++ List.replicate 18 .tick)).any fun s =>
        s.settle.popPim.toOption.any fun s₁ => s.clockTick.toOption.any fun s' =>
          s₁.cuts.map Cut.iwStatus = [.loading] &&
            s'.cuts.map Cut.iwStatus = [.loaded]) = true := by
    decide +kernel
  obtain ⟨s, hs, hsome⟩ := (Option.any_eq_true _ _).mp hsome
  obtain ⟨s₁, hpop, hsome⟩ := (Option.any_eq_true _ _).mp hsome
  obtain ⟨s', htick, hstatus⟩ := (Option.any_eq_true _ _).mp hsome
  rw [Library.toOption_eq_some] at hpop htick
  simp only [Bool.and_eq_true, decide_eq_true_eq, List.map_eq_singleton_iff] at hstatus
  obtain ⟨⟨c, hc, hloading⟩, c', hc', hended⟩ := hstatus
  have hone := (OneCut.of_run (fun _ _ h => h) (run_of_replayWhere hs)).settle.popPim hpop
  have hd : s₁.dataflow.SingleCut := by
    have hloaded := hone.loaded
    rw [hc] at hloaded
    cases hloaded
    assumption
  have hadv : c.Advances c' .weights := ⟨hloading, .inr (by rw [hended]; decide)⟩
  exact ⟨s, s₁, s', c, c', hpop, htick, hc, hc', hadv, dispatch_all_iff hpop hd hc htick⟩

/-- Ordinary reads have left other rows open in the two banks that hold the weights.  Both
answer with `PRECHARGE`, and the first weight is skipped. -/
theorem weight_skipped_by_precharge :
    ∃ s : JedecDRAMSystem .hbm2Rank,
      (∃ ops, ((memorySystem .hbm2Rank).restrict fun _ op => op.oneCut = true).Run ops s) ∧
      s.cuts.map Cut.NIt = [1] ∧
      (s.pushed .weights).map (List.map Command.cmdType) = [[.precharge, .precharge]] := by
  have hsome : ((replayWhere .hbm2Rank (fun _ op => op.oneCut)
      ([.add 32768 false, .add 49152 false] ++
        kernelWords (dataflowWord 0 0 0 8) 1 2 1 0 0 0 ++ List.replicate 40 .tick)).map
      fun s => (s.cuts.map Cut.NIt, (s.pushed .weights).map (List.map Command.cmdType))) =
      some ([1], [[.precharge, .precharge]]) := by
    decide +kernel
  obtain ⟨s, hs, hpushed⟩ := Option.map_eq_some_iff.mp hsome
  obtain ⟨hits, hcmds⟩ := Prod.mk.inj hpushed
  exact ⟨s, ⟨_, run_of_replayWhere hs⟩, hits, hcmds⟩

end JedecDRAMSystem

end Dramsim
