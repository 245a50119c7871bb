import ActorIdl.Build
import ActorIdl.Proofs.Round.Loops
/-! # The rounds of a build

    A build keeps only the sums of what its rounds make.  Here the rounds themselves are listed,
    each with the units that it was about, so that a property of a build can be stated of every
    round of it.  What the build returns is what it began with and then what the rounds made, in
    their order. -/

namespace ActorIdl

/-- A round of a build. -/
structure BuildRound where
  units : List SourceUnit
  /-- The first of the files that are new in the round. -/
  firstNew : FileId
  made : Round
  /-- What is reported when the stubs of the round are read or no further round is allowed. -/
  after : List Diagnostic

namespace BuildRound

/-- The table of the round. -/
def table (b : BuildRound) : Table := (Table.build b.units).1

/-- What is wrong with the declarations of the new files. -/
def reports (b : BuildRound) : List Diagnostic :=
  (Table.build b.units).2.filter (Build.isNews b.firstNew)

/-- Everything that is reported in the round. -/
def diagnostics (b : BuildRound) : List Diagnostic := b.reports ++ b.made.reports ++ b.after

end BuildRound

namespace Build

/-- What is reported after a round with its stubs at the end of `known` files, `more` being the
    number of rounds that are still allowed. -/
def reportsAfter (outDir : String) (more : Nat) (known : FileId) (r : Round) : List Diagnostic :=
  if r.stubs.isEmpty then []
  else match more with
    | 0 => [⟨.unsettled maxRounds, none, none⟩]
    | _ + 1 => (parseFiles known (r.stubs.map (stubFile outDir))).2

theorem reportsAfter_succ (outDir : String) (more : Nat) (known : FileId) (r : Round) :
    reportsAfter outDir (more + 1) known r =
      (parseFiles known (r.stubs.map (stubFile outDir))).2 := by
  unfold reportsAfter
  split
  · rename_i hstubs
    rw [List.isEmpty_iff.mp hstubs]
    rfl
  · rfl

section
variable {σ : Type} (filer : Filer σ) (renderer : Renderer) (outDir : String) (last : Stage)

/-- A round and the state of the filer after it. -/
def roundAt (more : Nat) (files : List ParsedFile) (firstNew known : FileId) (s : σ) :
    BuildRound × σ :=
  let units := unitsOf files firstNew
  let result := processRound filer renderer (Table.build units).1 last s
  (⟨units, firstNew, result.1, reportsAfter outDir more known result.1⟩, result.2)

section
variable (more : Nat) (files : List ParsedFile) (firstNew known : FileId) (s : σ)

theorem units_roundAt : (roundAt filer renderer outDir last more files firstNew known s).1.units =
    unitsOf files firstNew := rfl

theorem reports_roundAt : (roundAt filer renderer outDir last more files firstNew known s).1.reports =
    (Table.build (unitsOf files firstNew)).2.filter (isNews firstNew) := rfl

theorem after_roundAt : (roundAt filer renderer outDir last more files firstNew known s).1.after =
    reportsAfter outDir more known
      (roundAt filer renderer outDir last more files firstNew known s).1.made := rfl

theorem table_roundAt : (roundAt filer renderer outDir last more files firstNew known s).1.table =
    (Table.build (unitsOf files firstNew)).1 := rfl

theorem made_roundAt : (roundAt filer renderer outDir last more files firstNew known s).1.made =
    (processRound filer renderer (Table.build (unitsOf files firstNew)).1 last s).1 := rfl

theorem state_roundAt : (roundAt filer renderer outDir last more files firstNew known s).2 =
    (processRound filer renderer (Table.build (unitsOf files firstNew)).1 last s).2 := rfl

end

/-- A round and at most `more` further ones, `known` being the number of files so far. -/
def roundsFrom (more : Nat) (files : List ParsedFile) (firstNew known : FileId) (s : σ) :
    List BuildRound :=
  let round := roundAt filer renderer outDir last more files firstNew known s
  round.1 ::
    if round.1.made.stubs.isEmpty then []
    else match more with
      | 0 => []
      | more + 1 =>
        let stubs := round.1.made.stubs.map (stubFile outDir)
        roundsFrom more (files ++ (parseFiles known stubs).1) known (known + stubs.length) round.2

section
variable {more : Nat} {files : List ParsedFile} {firstNew known : FileId} {s : σ}

/-- A round without stubs is the last one. -/
theorem roundsFrom_of_no_stubs
    (h : (roundAt filer renderer outDir last more files firstNew known s).1.made.stubs = []) :
    roundsFrom filer renderer outDir last more files firstNew known s =
      [(roundAt filer renderer outDir last more files firstNew known s).1] := by
  unfold roundsFrom
  dsimp only
  rw [h, List.isEmpty_nil, if_pos rfl]

/-- A round with stubs is followed by the rounds about these. -/
theorem roundsFrom_of_stubs {stubs : List SourceFile}
    (h : (roundAt filer renderer outDir last (more + 1) files firstNew known s).1.made.stubs.map
      (stubFile outDir) = stubs) (hne : stubs ≠ []) :
    roundsFrom filer renderer outDir last (more + 1) files firstNew known s =
      (roundAt filer renderer outDir last (more + 1) files firstNew known s).1 ::
        roundsFrom filer renderer outDir last more (files ++ (parseFiles known stubs).1) known
          (known + stubs.length)
          (roundAt filer renderer outDir last (more + 1) files firstNew known s).2 := by
  subst h
  rw [ne_eq, List.map_eq_nil_iff, ← List.isEmpty_iff] at hne
  rw [roundsFrom]
  dsimp only
  rw [if_neg hne]

end

theorem roundAt_mem_roundsFrom (more : Nat) (files : List ParsedFile) (firstNew known : FileId)
    (s : σ) : (roundAt filer renderer outDir last more files firstNew known s).1 ∈
      roundsFrom filer renderer outDir last more files firstNew known s := by
  unfold roundsFrom
  exact List.mem_cons_self

/-- What holds of the files at the beginning, and is kept when the stubs of a round are added to
    them, holds of the files of every round. -/
theorem mem_roundsFrom_of_kept {P : List ParsedFile → FileId → FileId → Prop}
    (hkept : ∀ files firstNew known (stubs : List SourceFile), P files firstNew known →
      P (files ++ (parseFiles known stubs).1) known (known + stubs.length))
    {more : Nat} {files : List ParsedFile} {firstNew known : FileId} {s : σ} {b : BuildRound}
    (hfiles : P files firstNew known)
    (hb : b ∈ roundsFrom filer renderer outDir last more files firstNew known s) :
    ∃ more' files' firstNew' known' s', P files' firstNew' known' ∧
      b = (roundAt filer renderer outDir last more' files' firstNew' known' s').1 := by
  induction more generalizing files firstNew known s with
  | zero =>
    unfold roundsFrom at hb
    dsimp only at hb
    rw [ite_self] at hb
    exact ⟨_, _, _, _, _, hfiles, List.mem_singleton.mp hb⟩
  | succ more ih =>
    unfold roundsFrom at hb
    rcases List.mem_cons.mp hb with rfl | hb
    · exact ⟨_, _, _, _, _, hfiles, rfl⟩
    · split at hb
      · cases hb
      · exact ih (hkept _ _ _ _ hfiles) hb

/-- Every round of a run is made in the same way. -/
theorem mem_roundsFrom {more : Nat} {files : List ParsedFile} {firstNew known : FileId} {s : σ}
    {b : BuildRound} (hb : b ∈ roundsFrom filer renderer outDir last more files firstNew known s) :
    ∃ more' files' firstNew' known' s',
      b = (roundAt filer renderer outDir last more' files' firstNew' known' s').1 := by
  obtain ⟨more', files', firstNew', known', s', -, rfl⟩ :=
    mem_roundsFrom_of_kept filer renderer outDir last (P := fun _ _ _ => True)
      (fun _ _ _ _ _ => trivial) trivial hb
  exact ⟨more', files', firstNew', known', s', rfl⟩

/-- What a build returns after some rounds on top of what it had before. -/
structure Collects (c c' : Compilation) (bs : List BuildRound) : Prop where
  rounds : c'.rounds = c.rounds + bs.length
  descriptors : c'.descriptors = c.descriptors ++ bs.flatMap (·.made.descriptors)
  plans : c'.plans = c.plans ++ bs.flatMap (·.made.plans)
  generated : c'.generated = c.generated ++ bs.flatMap (·.made.generated)
  manifests : c'.manifests = c.manifests ++ bs.flatMap (·.made.manifests)
  diagnostics : c'.diagnostics = c.diagnostics ++ bs.flatMap (·.diagnostics)

omit filer renderer outDir last in
theorem Collects.append {c c' c'' : Compilation} {xs ys : List BuildRound}
    (hxs : Collects c c' xs) (hys : Collects c' c'' ys) : Collects c c'' (xs ++ ys) where
  rounds := by rw [hys.rounds, hxs.rounds, List.length_append, Nat.add_assoc]
  descriptors := by
    rw [hys.descriptors, hxs.descriptors, List.flatMap_append, List.append_assoc]
  plans := by rw [hys.plans, hxs.plans, List.flatMap_append, List.append_assoc]
  generated := by rw [hys.generated, hxs.generated, List.flatMap_append, List.append_assoc]
  manifests := by rw [hys.manifests, hxs.manifests, List.flatMap_append, List.append_assoc]
  diagnostics := by
    rw [hys.diagnostics, hxs.diagnostics, List.flatMap_append, List.append_assoc]

/-- The compilation after a round: the stubs are among the sources if a further round follows. -/
def afterRound (more : Nat) (b : BuildRound) (c : Compilation) : Compilation :=
  { addRound c b.made b.reports with
    sources :=
      if b.made.stubs.isEmpty || more == 0 then c.sources
      else c.sources ++ b.made.stubs.map (stubFile outDir)
    diagnostics := (addRound c b.made b.reports).diagnostics ++ b.after }

omit filer renderer last in
theorem collects_afterRound (more : Nat) (b : BuildRound) (c : Compilation) :
    Collects c (afterRound outDir more b c) [b] := by
  constructor <;> simp [afterRound, addRound, BuildRound.diagnostics]

omit filer renderer last in
theorem sources_afterRound {more : Nat} {b : BuildRound} (c : Compilation) {stubs : List SourceFile}
    (h : b.made.stubs.map (stubFile outDir) = stubs) :
    (afterRound outDir (more + 1) b c).sources = c.sources ++ stubs := by
  subst h
  by_cases hstubs : b.made.stubs = [] <;> simp [afterRound, hstubs]

omit filer renderer last in
theorem length_sources_afterRound {more : Nat} {b : BuildRound} (c : Compilation) :
    (afterRound outDir (more + 1) b c).sources.length =
      c.sources.length + (b.made.stubs.map (stubFile outDir)).length := by
  rw [sources_afterRound outDir c rfl, List.length_append]

/-- One round of a run, and the run from there on. -/
theorem runRounds_eq (more : Nat) (files : List ParsedFile) (firstNew : FileId) (c : Compilation)
    (s : σ) :
    runRounds filer renderer outDir last more files firstNew c s =
      let round := roundAt filer renderer outDir last more files firstNew c.sources.length s
      let c' := afterRound outDir more round.1 c
      if round.1.made.stubs.isEmpty then (c', round.2)
      else match more with
        | 0 => (c', round.2)
        | more + 1 =>
          let stubs := round.1.made.stubs.map (stubFile outDir)
          runRounds filer renderer outDir last more
            (files ++ (parseFiles c.sources.length stubs).1) c.sources.length c' round.2 := by
  rw [runRounds.eq_def]
  unfold roundAt afterRound reportsAfter
  dsimp only
  split
  · rename_i hstubs
    simp [hstubs, addRound, BuildRound.reports]
  · rename_i hstubs
    cases more with
    | zero => simp [hstubs, addRound, BuildRound.reports]
    | succ more => simp [hstubs, addRound, BuildRound.reports]

section
variable {more : Nat} {files : List ParsedFile} {firstNew : FileId} {c : Compilation} {s : σ}

/-- A run ends with a round without stubs. -/
theorem runRounds_of_no_stubs {round : BuildRound × σ}
    (hround : roundAt filer renderer outDir last more files firstNew c.sources.length s = round)
    (h : round.1.made.stubs = []) :
    runRounds filer renderer outDir last more files firstNew c s =
      (afterRound outDir more round.1 c, round.2) := by
  rw [runRounds_eq]
  dsimp only
  rw [hround, h, List.isEmpty_nil, if_pos rfl]

/-- A run goes on with the stubs of a round. -/
theorem runRounds_of_stubs {round : BuildRound × σ} {stubs : List SourceFile}
    (hround : roundAt filer renderer outDir last (more + 1) files firstNew c.sources.length s = round)
    (h : round.1.made.stubs.map (stubFile outDir) = stubs) (hne : stubs ≠ []) :
    runRounds filer renderer outDir last (more + 1) files firstNew c s =
      runRounds filer renderer outDir last more (files ++ (parseFiles c.sources.length stubs).1)
        c.sources.length (afterRound outDir (more + 1) round.1 c) round.2 := by
  subst h
  rw [ne_eq, List.map_eq_nil_iff, ← List.isEmpty_iff] at hne
  rw [runRounds_eq]
  dsimp only
  rw [hround, if_neg hne]

/-- A run of two rounds, the second of which is about the stubs of the first. -/
theorem runRounds_two {first second : BuildRound × σ} {stubs : List SourceFile}
    (hfirst :
      roundAt filer renderer outDir last (more + 1) files firstNew c.sources.length s = first)
    (hstubs : first.1.made.stubs.map (stubFile outDir) = stubs) (hne : stubs ≠ [])
    (hsecond : roundAt filer renderer outDir last more
      (files ++ (parseFiles c.sources.length stubs).1) c.sources.length
        (c.sources.length + stubs.length) first.2 = second)
    (hnone : second.1.made.stubs = []) :
    (runRounds filer renderer outDir last (more + 1) files firstNew c s).2 = second.2 ∧
      roundsFrom filer renderer outDir last (more + 1) files firstNew c.sources.length s =
        [first.1, second.1] ∧
      [first.1, second.1].flatMap (·.diagnostics) = first.1.reports ++ first.1.made.reports ++
        (parseFiles c.sources.length stubs).2 ++ (second.1.reports ++ second.1.made.reports) := by
  have hlength : (afterRound outDir (more + 1) first.1 c).sources.length =
      c.sources.length + stubs.length := by
    rw [length_sources_afterRound, hstubs]
  have hlast : roundAt filer renderer outDir last more
      (files ++ (parseFiles c.sources.length stubs).1) c.sources.length
        (afterRound outDir (more + 1) first.1 c).sources.length first.2 = second := by
    rw [hlength, hsecond]
  have hafter : first.1.after = (parseFiles c.sources.length stubs).2 := by
    rw [← hfirst, after_roundAt, reportsAfter_succ, hfirst, hstubs]
  have hafter' : second.1.after = [] := by
    rw [← hsecond, after_roundAt, hsecond]
    unfold reportsAfter
    rw [hnone, List.isEmpty_nil, if_pos rfl]
  refine ⟨?_, ?_, ?_⟩
  · rw [runRounds_of_stubs filer renderer outDir last hfirst hstubs hne,
      runRounds_of_no_stubs filer renderer outDir last hlast hnone]
  · rw [roundsFrom_of_stubs filer renderer outDir last (hfirst ▸ hstubs) hne, hfirst,
      roundsFrom_of_no_stubs filer renderer outDir last (hsecond ▸ hnone), hsecond]
  · simp [BuildRound.diagnostics, hafter, hafter']

end

/-- A build returns what its rounds have made. -/
theorem collects_runRounds (more : Nat) (files : List ParsedFile) (firstNew : FileId)
    (c : Compilation) (s : σ) :
    Collects c (runRounds filer renderer outDir last more files firstNew c s).1
      (roundsFrom filer renderer outDir last more files firstNew c.sources.length s) := by
  -- on the number of rounds that are still allowed
  induction more generalizing files firstNew c s with
  | zero =>
    rw [runRounds_eq, roundsFrom]
    dsimp only
    rw [ite_self, ite_self]
    exact collects_afterRound outDir 0 _ c
  | succ more ih =>
    rw [runRounds_eq, roundsFrom]
    dsimp only
    split
    · exact collects_afterRound outDir (more + 1) _ c
    · rw [← length_sources_afterRound outDir c]
      exact (collects_afterRound outDir (more + 1) _ c).append (ih _ _ _ _)

/-- What every output leaves alone a run of rounds leaves alone. -/
theorem runRounds_preserves {I : σ → Prop}
    (hI : ∀ kind path contents s, I s → I (filer kind path contents s).2) (more : Nat)
    (files : List ParsedFile) (firstNew : FileId) (c : Compilation) {s : σ} (h : I s) :
    I (runRounds filer renderer outDir last more files firstNew c s).2 := by
  induction more generalizing files firstNew c s with
  | zero =>
    rw [runRounds_eq]
    dsimp only
    rw [ite_self]
    exact processRound_preserves hI renderer _ last h
  | succ more ih =>
    have hround : I (roundAt filer renderer outDir last (more + 1) files firstNew
        c.sources.length s).2 := processRound_preserves hI renderer _ last h
    rw [runRounds_eq]
    dsimp only
    split
    · exact hround
    · exact ih _ _ _ hround

end

/-! ## Whole builds -/

/-- A compilation that has read and parsed its files. -/
def read (sources : SourceMap) : Compilation :=
  { loaded sources with diagnostics := (parseFiles 0 sources).2 }

section
variable {σ : Type} (tree : FileTree) (options : BuildOptions) (filer : Filer σ)
  (renderer : Renderer) (s : σ)

/-- The rounds of a build. -/
def rounds : List BuildRound :=
  match loadInputs tree options.inputs, options.emit.lastStage? with
  | .ok sources, some last =>
    roundsFrom filer renderer options.outDir last (maxRounds - 1) (parseFiles 0 sources).1
      librarySources.length sources.length s
  | _, _ => []

variable {tree options filer renderer s}

/-- A build that reads its inputs and has rounds is a run of these rounds. -/
theorem compile_of_loadInputs {last : Stage} (hlast : options.emit.lastStage? = some last)
    {sources : SourceMap} (hload : loadInputs tree options.inputs = .ok sources) :
    compile tree options filer renderer s =
      (.ok (runRounds filer renderer options.outDir last (maxRounds - 1) (parseFiles 0 sources).1
          librarySources.length (read sources) s).1,
        (runRounds filer renderer options.outDir last (maxRounds - 1) (parseFiles 0 sources).1
          librarySources.length (read sources) s).2) := by
  unfold compile
  rw [hload, hlast]
  rfl

theorem rounds_of_loadInputs {last : Stage} (hlast : options.emit.lastStage? = some last)
    {sources : SourceMap} (hload : loadInputs tree options.inputs = .ok sources) :
    rounds tree options filer renderer s =
      roundsFrom filer renderer options.outDir last (maxRounds - 1) (parseFiles 0 sources).1
        librarySources.length sources.length s := by
  unfold rounds
  rw [hload, hlast]

/-- The first round of a build is about its inputs. -/
theorem exists_first_round {last : Stage} (hlast : options.emit.lastStage? = some last)
    {sources : SourceMap} (hload : loadInputs tree options.inputs = .ok sources) :
    let t := (Table.build (unitsOf (parseFiles 0 sources).1 librarySources.length)).1
    ∃ b ∈ rounds tree options filer renderer s,
      b.table = t ∧ b.made = (processRound filer renderer t last s).1 := by
  rw [rounds_of_loadInputs hlast hload]
  exact ⟨_, roundAt_mem_roundsFrom .., table_roundAt .., made_roundAt ..⟩

theorem compile_eq {last : Stage} (hlast : options.emit.lastStage? = some last) {c : Compilation}
    {s' : σ} (h : compile tree options filer renderer s = (.ok c, s')) :
    ∃ sources, loadInputs tree options.inputs = .ok sources ∧
      runRounds filer renderer options.outDir last (maxRounds - 1) (parseFiles 0 sources).1
        librarySources.length (read sources) s = (c, s') := by
  cases hload : loadInputs tree options.inputs with
  | error e =>
    unfold compile at h
    rw [hload] at h
    cases h
  | ok sources =>
    rw [compile_of_loadInputs hlast hload] at h
    obtain ⟨hc, hs⟩ := Prod.mk.inj h
    exact ⟨sources, rfl, Prod.ext (Except.ok.inj hc) hs⟩

theorem collects_compile {last : Stage} (hlast : options.emit.lastStage? = some last)
    {c : Compilation} {s' : σ} (h : compile tree options filer renderer s = (.ok c, s')) :
    ∃ sources, loadInputs tree options.inputs = .ok sources ∧
      Collects (read sources) c (rounds tree options filer renderer s) := by
  obtain ⟨sources, hload, hrun⟩ := compile_eq hlast h
  refine ⟨sources, hload, ?_⟩
  have hcollects := collects_runRounds filer renderer options.outDir last (maxRounds - 1)
    (parseFiles 0 sources).1 librarySources.length (read sources) s
  rw [hrun] at hcollects
  rw [rounds_of_loadInputs hlast hload]
  exact hcollects

end

end Build

end ActorIdl
