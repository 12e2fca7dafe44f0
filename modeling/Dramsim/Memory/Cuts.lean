import Dramsim.Memory.Runs

/-!
# How a cut changes

The scheduler moves the iterators of a cut by the answers of the controllers.  `Feeds`
and `Writes` say what its stages can do to a cut, whatever the answers are, so that a
fact about the iterators needs one case for each kind of move.
-/

namespace Dramsim

namespace JedecDRAMSystem

variable {config : Config} {cmds got : List Command} {ended : Bool} {d : Dataflow}
  {divisors : List Int} {written : Dataflow.Written}

/-! ## The stages after their loops -/

/-- What `case 0` makes of the commands that its loops have gathered. -/
def afterWeights (config : Config) (d : Dataflow) (c : Cut) (wait : Bool) :
    List Command → Cut × List Command
  | [] => (c, [])
  | first :: rest =>
      if first.cmdType = .pimActivate then
        if c.wActPlaced || wait then (c, []) else ({ c with wActPlaced := true }, first :: rest)
      else
        let c := if first.cmdType = .ghReadPrecharge then { c with wActPlaced := false } else c
        if d.df = 1 ∧ first.cmdType = .precharge then (c, first :: rest)
        else (d.nextWeight config c, first :: rest)

/-- What `case 2` makes of the commands that its loops have gathered and filtered. -/
def afterInputs (config : Config) (d : Dataflow) (c : Cut) (wait : Bool) :
    List Command → Cut × List Command × Bool
  | [] => (c, [], false)
  | first :: rest =>
      if first.cmdType = .pimActivate then
        if c.inActPlaced || wait then (c, [], false)
        else ({ c with inActPlaced := true }, first :: rest, false)
      else
        let c := if first.cmdType = d.readpType then { c with inActPlaced := false } else c
        if c.vpuCnt ≠ 0 then (c, [], false)
        else ((d.nextInput config c).1, first :: rest, (d.nextInput config c).2)

/-- What the output stage makes of the commands that its loops have gathered. -/
def afterOutputs (d : Dataflow) (c : Cut) (wait : Bool) :
    List Command → Cut × List Command × Dataflow.Written
  | [] => (c, [], .column)
  | first :: rest =>
      if first.cmdType = .pimActivate then
        if c.outActPlaced || wait then (c, [], .column)
        else ({ c with outActPlaced := true }, first :: rest, .column)
      else
        let c := if first.cmdType = .pimWritePrecharge then { c with outActPlaced := false } else c
        ((d.nextOutput c).1, first :: rest, (d.nextOutput c).2)

/-- `vpu_cnt` counts down while inputs are streamed. -/
def countVpu (c : Cut) : Cut := { c with vpuCnt := max 0 (c.vpuCnt - 1) }

variable {s s' : JedecDRAMSystem config} {wait : Bool} {i : Nat} {c c₁ c₂ : Cut}

theorem divideBy_eq_ok {u : Unit} (h : divideBy divisors = .ok u) : ∀ n ∈ divisors, n ≠ 0 := by
  unfold divideBy at h
  split at h
  · cases h
  · rintro n hn rfl
    contradiction

/-- A guarded division before the rest of a stage. -/
theorem guarded_eq_ok {α : Type} {p : Prop} [Decidable p] {x : Except Exit α} {a : α}
    (h : (if p then divideBy divisors >>= fun _ => x else x) = .ok a) :
    x = .ok a ∧ (p → ∀ n ∈ divisors, n ≠ 0) := by
  split at h
  · obtain ⟨_, hdiv, h⟩ := Library.bind_eq_ok.mp h
    exact ⟨h, fun _ => divideBy_eq_ok hdiv⟩
  · exact ⟨h, fun hp => absurd hp ‹_›⟩

theorem loadWeights_spec (h : s.loadWeights i c wait = .ok (c₁, cmds)) :
    (s.dataflow.weightBanks config ≠ 0 ∧ s.dataflow.kTileSize config c ≠ 0) ∧
      ∃ got, s.gather [] (s.dataflow.weightTargets config i c) = .ok got ∧
        (c₁, cmds) = afterWeights config s.dataflow c wait got := by
  obtain ⟨_, hdiv, h⟩ := Library.bind_eq_ok.mp h
  have hne := divideBy_eq_ok hdiv
  obtain ⟨h, _⟩ := guarded_eq_ok h
  obtain ⟨got, hgot, h⟩ := Library.bind_eq_ok.mp h
  refine ⟨⟨hne _ (by simp), hne _ (by simp)⟩, got, hgot, ?_⟩
  cases got with
  | nil => exact (Except.ok.inj h).symm
  | cons first rest =>
      dsimp only [afterWeights] at h ⊢
      split_ifs at h ⊢ <;> exact (Except.ok.inj h).symm

/-- Several cuts only go on when every channel of the cut has answered. -/
theorem streamInputs_cases (h : s.streamInputs i c wait = .ok (c₁, cmds, ended)) :
    s.dataflow.kTileSize config c ≠ 0 ∧
      ∃ got mixed, s.gatherInputs (s.dataflow.inputTargets config i c) = .ok (got, mixed) ∧
        (1 < numCuts s.dataflow ∧ (c₁, cmds, ended) = (countVpu c, [], false) ∨
          (c₁, cmds, ended) =
            afterInputs config s.dataflow (countVpu c) wait (dropReads s.dataflow mixed got)) := by
  obtain ⟨_, hdiv, h⟩ := Library.bind_eq_ok.mp h
  have hne := divideBy_eq_ok hdiv
  obtain ⟨h, _⟩ := guarded_eq_ok h
  obtain ⟨⟨got, mixed⟩, hgot, h⟩ := Library.bind_eq_ok.mp h
  refine ⟨hne _ (by simp; rfl), got, mixed, hgot, ?_⟩
  dsimp only at h
  split at h
  · rename_i hmany
    exact .inl ⟨hmany.1, (Except.ok.inj h).symm⟩
  · refine .inr ?_
    cases hdrop : dropReads s.dataflow mixed got with
    | nil =>
        rw [hdrop] at h
        exact (Except.ok.inj h).symm
    | cons first rest =>
        rw [hdrop] at h
        dsimp only [afterInputs] at h ⊢
        split_ifs at h ⊢ <;> first | exact (Except.ok.inj h).symm | contradiction

theorem streamInputs_spec (hone : numCuts s.dataflow = 1)
    (h : s.streamInputs i c wait = .ok (c₁, cmds, ended)) :
    s.dataflow.kTileSize config c ≠ 0 ∧
      ∃ got mixed, s.gatherInputs (s.dataflow.inputTargets config i c) = .ok (got, mixed) ∧
        (c₁, cmds, ended) =
          afterInputs config s.dataflow (countVpu c) wait (dropReads s.dataflow mixed got) := by
  obtain ⟨hne, got, mixed, hgot, ⟨hmany, _⟩ | hafter⟩ := streamInputs_cases h
  · omega
  · exact ⟨hne, got, mixed, hgot, hafter⟩

theorem writeOutputs_spec (h : s.writeOutputs i c wait = .ok (c₁, cmds, written)) :
    s.dataflow.mTileSizeOut ≠ 0 ∧
      ∃ got, s.gather [] (s.dataflow.outputTargets config i c) = .ok got ∧
        (c₁, cmds, written) = afterOutputs s.dataflow c wait got := by
  obtain ⟨_, hdiv, h⟩ := Library.bind_eq_ok.mp h
  have hne := divideBy_eq_ok hdiv
  obtain ⟨h, _⟩ := guarded_eq_ok h
  obtain ⟨got, hgot, h⟩ := Library.bind_eq_ok.mp h
  refine ⟨hne _ (by simp), got, hgot, ?_⟩
  cases got with
  | nil => exact (Except.ok.inj h).symm
  | cons first rest =>
      dsimp only [afterOutputs] at h ⊢
      split_ifs at h ⊢ <;> exact (Except.ok.inj h).symm

/-! A stage pushes all that it has gathered, or nothing. -/

theorem afterWeights_cmds (d : Dataflow) (c : Cut) (got : List Command) :
    (afterWeights config d c wait got).2 = [] ∨ (afterWeights config d c wait got).2 = got := by
  cases got with
  | nil => exact .inl rfl
  | cons first rest =>
      unfold afterWeights
      dsimp only
      split_ifs <;> first | exact .inl rfl | exact .inr rfl

theorem afterInputs_cmds (d : Dataflow) (c : Cut) (got : List Command) :
    (afterInputs config d c wait got).2.1 = [] ∨ (afterInputs config d c wait got).2.1 = got := by
  cases got with
  | nil => exact .inl rfl
  | cons first rest =>
      unfold afterInputs
      dsimp only
      split_ifs <;> first | exact .inl rfl | exact .inr rfl

theorem afterOutputs_cmds (d : Dataflow) (c : Cut) (got : List Command) :
    (afterOutputs d c wait got).2.1 = [] ∨ (afterOutputs d c wait got).2.1 = got := by
  cases got with
  | nil => exact .inl rfl
  | cons first rest =>
      unfold afterOutputs
      dsimp only
      split_ifs <;> first | exact .inl rfl | exact .inr rfl

/-! ## When a stage goes on -/

/-- The commands that move the weight stage on. -/
def LoadsWeight (d : Dataflow) (got : List Command) : Prop :=
  ∃ first rest, got = first :: rest ∧ first.cmdType ≠ .pimActivate ∧
    ¬ (d.df = 1 ∧ first.cmdType = .precharge)

/-- The commands that move the streaming and output stages on. -/
def GoesOn (got : List Command) : Prop :=
  ∃ first rest, got = first :: rest ∧ first.cmdType ≠ .pimActivate

theorem afterWeights_of_loads (config : Config) (c : Cut) (wait : Bool) (h : LoadsWeight d got) :
    ∃ w, afterWeights config d c wait got =
      (d.nextWeight config { c with wActPlaced := w }, got) := by
  obtain ⟨first, rest, rfl, hact, hpre⟩ := h
  dsimp only [afterWeights]
  rw [if_neg hact]
  split_ifs
  · exact ⟨false, rfl⟩
  · exact ⟨c.wActPlaced, rfl⟩

theorem afterWeights_of_not (config : Config) (c : Cut) (wait : Bool) (h : ¬ LoadsWeight d got) :
    ∃ w, (afterWeights config d c wait got).1 = { c with wActPlaced := w } := by
  cases got with
  | nil => exact ⟨c.wActPlaced, rfl⟩
  | cons first rest =>
      dsimp only [afterWeights]
      split_ifs with hact
      · exact ⟨c.wActPlaced, rfl⟩
      · exact ⟨true, rfl⟩
      · exact ⟨false, rfl⟩
      · exact ⟨c.wActPlaced, rfl⟩
      · exact absurd ⟨first, rest, rfl, hact, by assumption⟩ h
      · exact absurd ⟨first, rest, rfl, hact, by assumption⟩ h

theorem afterInputs_of_goesOn (config : Config) (d : Dataflow) (wait : Bool) (hvpu : c.vpuCnt = 0)
    (h : GoesOn got) :
    ∃ b, afterInputs config d c wait got =
      ((d.nextInput config { c with inActPlaced := b }).1, got,
        (d.nextInput config { c with inActPlaced := b }).2) := by
  obtain ⟨first, rest, rfl, hact⟩ := h
  dsimp only [afterInputs]
  rw [if_neg hact]
  split_ifs
  · contradiction
  · exact ⟨false, rfl⟩
  · contradiction
  · exact ⟨c.inActPlaced, rfl⟩

theorem afterInputs_of_not (config : Config) (d : Dataflow) (wait : Bool)
    (h : GoesOn got → c.vpuCnt ≠ 0) :
    ∃ b, (afterInputs config d c wait got).1 = { c with inActPlaced := b } ∧
      (afterInputs config d c wait got).2.2 = false := by
  cases got with
  | nil => exact ⟨c.inActPlaced, rfl, rfl⟩
  | cons first rest =>
      dsimp only [afterInputs]
      split_ifs with hact
      · exact ⟨c.inActPlaced, rfl, rfl⟩
      · exact ⟨true, rfl, rfl⟩
      · exact ⟨false, rfl, rfl⟩
      · exact absurd (h ⟨first, rest, rfl, hact⟩) (by assumption)
      · exact ⟨c.inActPlaced, rfl, rfl⟩
      · exact absurd (h ⟨first, rest, rfl, hact⟩) (by assumption)

theorem afterOutputs_of_goesOn (d : Dataflow) (c : Cut) (wait : Bool) (h : GoesOn got) :
    ∃ o, afterOutputs d c wait got =
      ((d.nextOutput { c with outActPlaced := o }).1, got,
        (d.nextOutput { c with outActPlaced := o }).2) := by
  obtain ⟨first, rest, rfl, hact⟩ := h
  dsimp only [afterOutputs]
  rw [if_neg hact]
  split_ifs
  · exact ⟨false, rfl⟩
  · exact ⟨c.outActPlaced, rfl⟩

theorem afterOutputs_of_not (d : Dataflow) (c : Cut) (wait : Bool) (h : ¬ GoesOn got) :
    ∃ o, (afterOutputs d c wait got).1 = { c with outActPlaced := o } ∧
      (afterOutputs d c wait got).2.2 = .column := by
  cases got with
  | nil => exact ⟨c.outActPlaced, rfl, rfl⟩
  | cons first rest =>
      dsimp only [afterOutputs]
      split_ifs with hact
      · exact ⟨c.outActPlaced, rfl, rfl⟩
      · exact ⟨true, rfl, rfl⟩
      · exact absurd ⟨first, rest, rfl, hact⟩ h
      · exact absurd ⟨first, rest, rfl, hact⟩ h

/-! ## Counters -/

theorem awaitArray_eq (c : Cut) :
    awaitArray c =
      { c with
        inCnt := if c.inCnt = -1 then -1 else max 0 (c.inCnt - 1)
        iwStatus :=
          if c.inCnt ≠ -1 ∧ c.inCnt ≤ 1 ∧ c.outputValid = 0 then .loading else c.iwStatus } := by
  unfold awaitArray
  split
  · rename_i hend
    simp [hend]
    rw [← hend]
  · rename_i hend
    by_cases hcnt : c.inCnt ≤ 1 <;> by_cases hvalid : c.outputValid = 0 <;>
      simp [hend, hcnt, hvalid, show (c.inCnt - 1 ≤ 0) = (c.inCnt ≤ 1) from propext (by omega)]

/-- No more inputs are read while the array is waited for. -/
theorem awaitArray_not_streaming {c : Cut} (hstatus : c.iwStatus = .streamed) :
    (awaitArray c).iwStatus ≠ .streaming := by
  rw [awaitArray_eq]
  dsimp only
  split
  · decide
  · rw [hstatus]
    decide

theorem countOutput_eq (c : Cut) :
    countOutput c =
      { c with
        outputValid := if c.outCnt = 0 then c.outputValid + 1 else c.outputValid
        outCnt := if c.outCnt = -1 then -1 else c.outCnt - 1 } := by
  unfold countOutput
  by_cases hzero : c.outCnt = 0
  · simp [hzero]
  · by_cases hidle : c.outCnt = -1
    · simp [hidle]
      rw [← hidle]
    · simp [hzero, hidle]

/-! ## Moves of a cut -/

/-- What the input stage of a round can do to a cut.  The flag says that the end of the
computation is printed. -/
inductive Feeds (config : Config) (d : Dataflow) (c : Cut) : Cut → Bool → Prop where
  /-- Nothing is read. -/
  | waits (w i : Bool) (v : Int) :
      Feeds config d c { c with wActPlaced := w, inActPlaced := i, vpuCnt := v } false
  /-- A weight is loaded. -/
  | weight (w : Bool) : c.iwStatus = .loading →
      Feeds config d c (d.nextWeight config { c with wActPlaced := w }) false
  /-- The inputs of a tile begin. -/
  | begins : c.iwStatus = .loaded →
      Feeds config d c { c with iwStatus := .streaming, vpuCnt := 1 } false
  /-- An input is streamed. -/
  | input (i : Bool) (v : Int) : c.iwStatus = .streaming →
      Feeds config d c (d.nextInput config { c with inActPlaced := i, vpuCnt := v }).1
        (d.nextInput config { c with inActPlaced := i, vpuCnt := v }).2
  /-- The array is waited for. -/
  | awaits : c.iwStatus = .streamed → Feeds config d c (awaitArray c) false

/-- What the output stage of a round can do to a cut. -/
inductive Writes (d : Dataflow) (c : Cut) : Cut → Dataflow.Written → Prop where
  /-- Nothing is written. -/
  | waits (o : Bool) : Writes d c { c with outActPlaced := o } .column
  /-- An output is written. -/
  | output (o : Bool) :
      Writes d c (d.nextOutput { c with outActPlaced := o }).1
        (d.nextOutput { c with outActPlaced := o }).2

theorem afterWeights_feeds (d : Dataflow) (wait : Bool) (got : List Command)
    (hstatus : c.iwStatus = .loading) :
    Feeds config d c (afterWeights config d c wait got).1 false := by
  by_cases h : LoadsWeight d got
  · obtain ⟨w, hw⟩ := afterWeights_of_loads config c wait h
    rw [hw]
    exact .weight w hstatus
  · obtain ⟨w, hw⟩ := afterWeights_of_not config c wait h
    rw [hw]
    exact .waits w c.inActPlaced c.vpuCnt

theorem afterInputs_feeds (d : Dataflow) (wait : Bool) (got : List Command)
    (hstatus : c.iwStatus = .streaming) :
    Feeds config d c (afterInputs config d (countVpu c) wait got).1
      (afterInputs config d (countVpu c) wait got).2.2 := by
  by_cases h : GoesOn got ∧ (countVpu c).vpuCnt = 0
  · obtain ⟨b, hb⟩ := afterInputs_of_goesOn config d wait h.2 h.1
    rw [hb]
    exact .input b _ hstatus
  · obtain ⟨b, hb, hended⟩ := afterInputs_of_not config d wait fun hgo hvpu => h ⟨hgo, hvpu⟩
    rw [hb, hended]
    exact .waits c.wActPlaced b _

theorem afterOutputs_writes (d : Dataflow) (wait : Bool) (got : List Command) :
    Writes d c (afterOutputs d c wait got).1 (afterOutputs d c wait got).2.2 := by
  by_cases h : GoesOn got
  · obtain ⟨o, ho⟩ := afterOutputs_of_goesOn d c wait h
    rw [ho]
    exact .output o
  · obtain ⟨o, ho, hcolumn⟩ := afterOutputs_of_not d c wait h
    rw [ho, hcolumn]
    exact .waits o

theorem finishLoading_eq (hone : numCuts s.dataflow = 1) (hc : s.cuts = [c]) :
    s.finishLoading 0 c = { c with iwStatus := .streaming, vpuCnt := 1 } := by
  simp [finishLoading, hone, hc]

theorem inputStage_feeds {wCmds inCmds : List Command} (hone : numCuts s.dataflow = 1)
    (hc : s.cuts = [c]) (h : s.inputStage 0 c wait = .ok (c₁, wCmds, inCmds, ended)) :
    Feeds config s.dataflow c c₁ ended := by
  cases hstatus : c.iwStatus with
  | loading =>
      simp only [inputStage, hstatus] at h
      obtain ⟨⟨c', cmds⟩, hload, h⟩ := Library.bind_eq_ok.mp h
      obtain ⟨_, got, _, heq⟩ := loadWeights_spec hload
      cases h
      rw [(Prod.mk.inj heq).1]
      exact afterWeights_feeds s.dataflow wait got hstatus
  | loaded =>
      simp only [inputStage, hstatus] at h
      cases h
      rw [finishLoading_eq hone hc]
      exact .begins hstatus
  | streaming =>
      simp only [inputStage, hstatus] at h
      obtain ⟨⟨c', cmds, e⟩, hstream, h⟩ := Library.bind_eq_ok.mp h
      obtain ⟨_, got, mixed, _, heq⟩ := streamInputs_spec hone hstream
      cases h
      have hfeeds : Feeds config s.dataflow c _ _ :=
        afterInputs_feeds s.dataflow wait (dropReads s.dataflow mixed got) hstatus
      rw [← heq] at hfeeds
      exact hfeeds
  | streamed =>
      obtain ⟨rfl, _, _, rfl⟩ := inputStage_streamed hstatus h
      exact .awaits hstatus

/-- What the end of a tile of inputs can change. -/
theorem nextTile_frame (config : Config) (d : Dataflow) (c : Cut) :
    ∃ mIt nIt kTileIt inCnt, (d.nextTile config c).1 =
      { c with
        MIt := mIt, NIt := nIt, KTileIt := kTileIt, iwStatus := .streamed, inCnt := inCnt } := by
  unfold Dataflow.nextTile
  dsimp only
  split
  · split
    · split
      · exact ⟨_, _, _, _, rfl⟩
      · exact ⟨_, _, _, _, rfl⟩
    · exact ⟨_, _, _, _, rfl⟩
  · exact ⟨_, c.NIt, _, _, rfl⟩

/-- What an input can change. -/
theorem nextInput_frame (config : Config) (d : Dataflow) (c : Cut) :
    ∃ mIt nIt kTileIt status inCnt outCnt, (d.nextInput config c).1 =
      { c with
        MIt := mIt, NIt := nIt, KTileIt := kTileIt, iwStatus := status, inCnt := inCnt
        outCnt := outCnt } := by
  unfold Dataflow.nextInput
  dsimp only
  generalize hstart : (if d.lastKTile config c ∧ c.MIt.tmod d.mTileSize = 0 then
    { c with outCnt := Dataflow.outDelay config } else c) = c'
  obtain ⟨outCnt, rfl⟩ : ∃ outCnt, c' = { c with outCnt := outCnt } := by
    rw [← hstart]
    split
    · exact ⟨_, rfl⟩
    · exact ⟨c.outCnt, rfl⟩
  split
  · obtain ⟨mIt, nIt, kTileIt, inCnt, htile⟩ :=
      nextTile_frame config d { c with outCnt := outCnt }
    exact ⟨mIt, nIt, kTileIt, .streamed, inCnt, outCnt, htile⟩
  · exact ⟨c.MIt + 1, c.NIt, c.KTileIt, c.iwStatus, c.inCnt, outCnt, rfl⟩

/-- What the input stage can change. -/
theorem Feeds.eq_with (h : Feeds config d c c₁ ended) :
    ∃ mIt nIt kTileIt status inAct wAct inCnt outCnt vpuCnt, c₁ = { c with
      MIt := mIt, NIt := nIt, KTileIt := kTileIt, iwStatus := status, inActPlaced := inAct
      wActPlaced := wAct, inCnt := inCnt, outCnt := outCnt, vpuCnt := vpuCnt } := by
  cases h with
  | waits _ _ _ => exact ⟨_, _, _, _, _, _, _, _, _, rfl⟩
  | weight _ _ =>
      unfold Dataflow.nextWeight
      split <;> exact ⟨_, _, _, _, _, _, _, _, _, rfl⟩
  | begins _ => exact ⟨_, _, _, _, _, _, _, _, _, rfl⟩
  | input i v _ =>
      obtain ⟨mIt, nIt, kTileIt, status, inCnt, outCnt, hnext⟩ :=
        nextInput_frame config d { c with inActPlaced := i, vpuCnt := v }
      exact ⟨mIt, nIt, kTileIt, status, i, c.wActPlaced, inCnt, outCnt, v, hnext⟩
  | awaits _ =>
      rw [awaitArray_eq]
      exact ⟨_, _, _, _, _, _, _, _, _, rfl⟩

/-- The input stage leaves the iterators of the outputs alone. -/
theorem Feeds.outIterators (h : Feeds config d c c₁ ended) :
    c₁.MOutIt = c.MOutIt ∧ c₁.NOutTileIt = c.NOutTileIt := by
  obtain ⟨_, _, _, _, _, _, _, _, _, rfl⟩ := h.eq_with
  exact ⟨rfl, rfl⟩

/-- The output stage does nothing, or it writes while the array is waited for. -/
theorem Outputs.writes (h : Outputs s wait c c₁ c₂ cmds written) :
    (c₂ = c₁ ∧ cmds = [] ∧ written = .column) ∨
      (0 < c₁.outputValid ∧ c.iwStatus = .streamed ∧ s.dataflow.mTileSizeOut ≠ 0 ∧
        Writes s.dataflow c₁ c₂ written) := by
  cases h with
  | skips _ => exact .inl ⟨rfl, rfl, rfl⟩
  | asks hvalid hstatus hwrite =>
      obtain ⟨hne, got, _, heq⟩ := writeOutputs_spec hwrite
      have hwrites : Writes s.dataflow c₁ _ _ := afterOutputs_writes s.dataflow wait got
      rw [← heq] at hwrites
      exact .inr ⟨hvalid, hstatus, hne, hwrites⟩

end JedecDRAMSystem

end Dramsim
