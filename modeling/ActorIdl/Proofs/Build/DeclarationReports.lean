import ActorIdl.Proofs.Build.Generations
/-! # What is wrong with declarations is reported once

    Every round makes the table of all declarations anew, and with it all reports about them.  It
    passes on those that are in the files of the round.  A declaration of an earlier file is entered
    as it was before, so the reports of a table begin with those of the table before it, and what
    comes behind them is in the new files.  Over a whole build what is passed on is therefore what
    the last table reports. -/

namespace ActorIdl

/-- A place in a file is reported. -/
def Diagnostic.IsIn (file : FileId) (d : Diagnostic) : Prop :=
  ∃ span, d.location = some ⟨file, span⟩

/-- A report about a declaration that is there already or has surplus types above it. -/
def Diagnostic.isOfDeclaration (d : Diagnostic) : Bool :=
  d.cause.code? == some "E0102" || d.cause.code? == some "E0103"

section
variable {codes : List String} {ds : List Diagnostic}

theorem HaveCodes.filter_isOfDeclaration (h : HaveCodes ["E0102", "E0103"] ds) :
    ds.filter (·.isOfDeclaration) = ds := by
  refine List.filter_eq_self.mpr fun d hd => ?_
  obtain ⟨code, hcode, heq⟩ := h d hd
  rw [Diagnostic.isOfDeclaration, heq]
  rcases List.mem_pair.mp hcode with rfl | rfl <;> rfl

theorem HaveCodes.filter_isOfDeclaration_eq_nil (h : HaveCodes codes ds)
    (hcodes : "E0102" ∉ codes ∧ "E0103" ∉ codes) : ds.filter (·.isOfDeclaration) = [] := by
  refine List.filter_eq_nil_iff.mpr fun d hd hof => ?_
  rcases Bool.or_eq_true_iff.mp hof with heq | heq
  · exact h.ne hcodes.1 d hd (beq_iff_eq.mp heq)
  · exact h.ne hcodes.2 d hd (beq_iff_eq.mp heq)

end

theorem Build.haveCodes_reportsAfter (outDir : String) (more : Nat) (known : FileId) (r : Round) :
    HaveCodes ["E0101", "E0501"] (reportsAfter outDir more known r) := by
  unfold reportsAfter
  split
  · exact haveCodes_nil
  · cases more with
    | zero => exact haveCodes_cons.mpr ⟨⟨"E0501", by simp, rfl⟩, haveCodes_nil⟩
    | succ more => exact (haveCodes_parseFiles _ _).mono (by decide)

/-! ## Where declarations are reported -/

section
variable (u : SourceUnit)

mutual

theorem isIn_enterMember (outers : List Outer) (r : Register) (m : Syntax.Member) :
    ∀ d ∈ (enterMember u outers r m).reports, d.IsIn u.file :=
  match m with
  | .method _ => fun _ hd => absurd hd List.not_mem_nil
  | .nested head members => by
    intro d hd
    rw [enterMember] at hd
    dsimp only at hd
    split at hd
    · rw [List.mem_singleton.mp hd]
      exact ⟨_, rfl⟩
    · rcases List.mem_append.mp hd with hd | hd
      · obtain ⟨surplus, _, rfl⟩ := List.mem_map.mp hd
        exact ⟨_, rfl⟩
      · exact isIn_enterMembers _ _ members d hd

theorem isIn_enterMembers (outers : List Outer) (r : Register) (ms : List Syntax.Member) :
    ∀ d ∈ (enterMembers u outers r ms).reports, d.IsIn u.file :=
  match ms with
  | [] => fun _ hd => absurd hd List.not_mem_nil
  | m :: ms => by
    rw [enterMembers]
    exact List.forall_mem_append.mpr ⟨isIn_enterMember outers r m,
      isIn_enterMembers outers _ ms⟩

end

end

/-- What is wrong with units is reported in their files. -/
theorem isIn_enterUnits {r : Register} {us : List SourceUnit} {d : Diagnostic}
    (hd : d ∈ (enterUnits r us).reports) : ∃ u ∈ us, d.IsIn u.file := by
  induction us generalizing r with
  | nil => cases hd
  | cons u us ih =>
    rcases List.mem_append.mp hd with hd | hd
    · exact ⟨u, List.mem_cons_self, isIn_enterMembers u [] r _ d hd⟩
    · obtain ⟨u', hu', hin⟩ := ih hd
      exact ⟨u', List.mem_cons_of_mem _ hu', hin⟩

namespace Build

theorem isNews_of_isIn {d : Diagnostic} {file : FileId} (h : d.IsIn file) (firstNew : FileId) :
    isNews firstNew d = decide (firstNew ≤ file) := by
  obtain ⟨span, hlocation⟩ := h
  rw [isNews, hlocation]

/-! ## The reports of a table -/

/-- What is wrong with the declarations of files. -/
def declarationReports (files : List ParsedFile) : List Diagnostic :=
  (Table.build (unitsOf files 0)).2

/-- It does not matter which files are new. -/
theorem reports_build (files : List ParsedFile) (firstNew : FileId) :
    (Table.build (unitsOf files firstNew)).2 = declarationReports files := by
  have hroots : unitsOf files firstNew =
      (unitsOf files 0).map fun u => u.asRoot (decide (firstNew ≤ u.file)) := by
    rw [unitsOf, unitsOf, List.map_map]
    rfl
  rw [hroots]
  exact (enterUnits_asRoot _ .start _).2

/-- The reports about more files begin with those about the first ones, and the others are in the
    files that were added. -/
theorem exists_declarationReports_append (files new : List ParsedFile) :
    ∃ reports, declarationReports (files ++ new) = declarationReports files ++ reports ∧
      ∀ d ∈ reports, ∃ f ∈ new, d.IsIn f.file := by
  have happend : unitsOf (files ++ new) 0 = unitsOf files 0 ++ unitsOf new 0 := List.map_append
  have hreports : declarationReports (files ++ new) = declarationReports files ++
      (enterUnits (enterUnits .start (unitsOf files 0)).register (unitsOf new 0)).reports := by
    rw [declarationReports, happend]
    exact congrArg (·.reports) (enterUnits_append .start (unitsOf files 0) (unitsOf new 0))
  refine ⟨_, hreports, fun d hd => ?_⟩
  obtain ⟨u, hu, hin⟩ := isIn_enterUnits hd
  obtain ⟨f, hf, rfl⟩ := List.mem_map.mp hu
  exact ⟨f, hf, hin⟩

/-- With new files behind old ones, what is news is what the new files add. -/
theorem declarationReports_append {files new : List ParsedFile} {firstNew : FileId}
    (hold : ∀ f ∈ files, f.file < firstNew) (hnew : ∀ f ∈ new, firstNew ≤ f.file) :
    declarationReports (files ++ new) = declarationReports files ++
      (declarationReports (files ++ new)).filter (isNews firstNew) := by
  -- no old file brings news
  have hnone : (declarationReports files).filter (isNews firstNew) = [] := by
    refine List.filter_eq_nil_iff.mpr fun d hd hnews => ?_
    obtain ⟨u, hu, hin⟩ := isIn_enterUnits hd
    obtain ⟨f, hf, rfl⟩ := List.mem_map.mp hu
    rw [isNews_of_isIn hin, decide_eq_true_eq] at hnews
    exact Nat.not_le_of_lt (hold f hf) hnews
  obtain ⟨reports, happend, hin⟩ := exists_declarationReports_append files new
  have hall : reports.filter (isNews firstNew) = reports := by
    refine List.filter_eq_self.mpr fun d hd => ?_
    obtain ⟨f, hf, hin⟩ := hin d hd
    rw [isNews_of_isIn hin, decide_eq_true_eq]
    exact hnew f hf
  rw [happend, List.filter_append, hnone, hall, List.nil_append]

/-- Nothing is wrong with the library. -/
theorem declarationReports_library : declarationReports (parseFiles 0 librarySources).1 = [] := by
  rw [parseFiles_eq_parseTexts 0 libraryTexts.2 packageHint_of_mem_librarySources]
  decide +kernel

/-! ## Files behind files -/

theorem parseFiles_append (first : FileId) (files new : List SourceFile) :
    parseFiles first (files ++ new) =
      ((parseFiles first files).1 ++ (parseFiles (first + files.length) new).1,
        (parseFiles first files).2 ++ (parseFiles (first + files.length) new).2) := by
  have hparsed : (files ++ new).mapIdx (fun i f => parseFile (first + i) f) =
      files.mapIdx (fun i f => parseFile (first + i) f) ++
        new.mapIdx fun i f => parseFile (first + files.length + i) f := by
    rw [List.mapIdx_append]
    simp only [Nat.add_assoc, Nat.add_comm files.length]
  rw [parseFiles, parseFiles, parseFiles, hparsed, List.filterMap_append, List.flatMap_append]

/-- The first round of a build passes on all reports of its table. -/
theorem declarationReports_of_loadInputs {tree : FileTree} {inputs : List String}
    {sources : SourceMap} (hload : loadInputs tree inputs = .ok sources) :
    declarationReports (parseFiles 0 sources).1 =
      [] ++ (declarationReports (parseFiles 0 sources).1).filter (isNews librarySources.length) := by
  obtain ⟨files, rfl⟩ := exists_inputs_of_loadInputs hload
  rw [parseFiles_append, Nat.zero_add]
  have happend := @declarationReports_append (parseFiles 0 librarySources).1
    (parseFiles librarySources.length files).1 librarySources.length file_lt_of_mem_parseFiles
    fun f hf => (file_of_mem_parseFiles hf).1
  rwa [declarationReports_library] at happend

/-! ## The rounds of a build -/

section
variable {σ : Type} (filer : Filer σ) (renderer : Renderer) (outDir : String) (last : Stage)

/-- What the rounds report one after the other is what the last of their tables reports, if the
    first of them reports all that its own table does. -/
theorem reports_roundsFrom (more : Nat) {files : List ParsedFile} {firstNew known : FileId} (s : σ)
    {old : List Diagnostic} (hold : ∀ f ∈ files, f.file < known)
    (hfirst : declarationReports files =
      old ++ (declarationReports files).filter (isNews firstNew)) :
    ∃ b, (roundsFrom filer renderer outDir last more files firstNew known s).getLast? = some b ∧
      (Table.build b.units).2 = old ++
        (roundsFrom filer renderer outDir last more files firstNew known s).flatMap (·.reports) := by
  -- on the number of rounds that are allowed: each adds what is news in it to what came before
  induction more generalizing files firstNew known s old with
  | zero =>
    unfold roundsFrom
    dsimp only
    rw [ite_self, List.flatMap_singleton]
    refine ⟨_, List.getLast?_singleton, ?_⟩
    rw [units_roundAt, reports_roundAt, reports_build]
    exact hfirst
  | succ more ih =>
    let round := roundAt filer renderer outDir last (more + 1) files firstNew known s
    have hround : declarationReports files = old ++ round.1.reports := by
      rw [reports_roundAt, reports_build]
      exact hfirst
    by_cases hstubs : round.1.made.stubs = []
    · rw [roundsFrom_of_no_stubs _ _ _ _ hstubs, List.flatMap_singleton]
      refine ⟨_, List.getLast?_singleton, ?_⟩
      rw [units_roundAt, reports_build]
      exact hround
    · let stubs := round.1.made.stubs.map (stubFile outDir)
      have hne : stubs ≠ [] := fun h => hstubs (List.map_eq_nil_iff.mp h)
      -- the stubs are the new files of the next round
      have hnext : declarationReports (files ++ (parseFiles known stubs).1) =
          declarationReports files ++
            (declarationReports (files ++ (parseFiles known stubs).1)).filter (isNews known) :=
        declarationReports_append hold fun f hf => (file_of_mem_parseFiles hf).1
      have hold' : ∀ f ∈ files ++ (parseFiles known stubs).1, f.file < known + stubs.length :=
        List.forall_mem_append.mpr ⟨fun f hf => Nat.lt_add_right _ (hold f hf),
          fun f hf => (file_of_mem_parseFiles hf).2⟩
      obtain ⟨b, hlast, hreports⟩ := ih round.2 hold' hnext
      rw [roundsFrom_of_stubs _ _ _ _ rfl hne]
      refine ⟨b, ?_, ?_⟩
      · rw [List.getLast?_cons, hlast]
        rfl
      · rw [hreports, hround, List.flatMap_cons, List.append_assoc]

/-- The last round is about everything that the compilation has read, and that is what it had read
    before and then the stubs of the other rounds. -/
theorem sources_runRounds (more : Nat) {files : List ParsedFile} (firstNew : FileId)
    {c : Compilation} (s : σ) (hfiles : files = (parseFiles 0 c.sources).1) :
    let bs := roundsFrom filer renderer outDir last more files firstNew c.sources.length s
    let c' := (runRounds filer renderer outDir last more files firstNew c s).1
    c'.sources = c.sources ++ (bs.dropLast.flatMap (·.made.stubs)).map (stubFile outDir) ∧
      ∃ b, bs.getLast? = some b ∧ b.units = unitsOf (parseFiles 0 c'.sources).1 b.firstNew := by
  -- round by round; a round without stubs is the last one, however many are left
  induction more generalizing files firstNew c s with
  | zero =>
    have hsources : ∀ b, (afterRound outDir 0 b c).sources = c.sources := by simp [afterRound]
    rw [runRounds_eq, roundsFrom]
    dsimp only
    rw [ite_self, ite_self, hsources]
    refine ⟨(List.append_nil _).symm, _, List.getLast?_singleton, ?_⟩
    rw [units_roundAt, ← hfiles]
    rfl
  | succ more ih =>
    let round := roundAt filer renderer outDir last (more + 1) files firstNew c.sources.length s
    let stubs := round.1.made.stubs.map (stubFile outDir)
    have hsources : (afterRound outDir (more + 1) round.1 c).sources = c.sources ++ stubs :=
      sources_afterRound outDir c rfl
    by_cases hstubs : round.1.made.stubs = []
    · have hnone : stubs = [] := List.map_eq_nil_iff.mpr hstubs
      rw [hnone, List.append_nil] at hsources
      rw [runRounds_of_no_stubs _ _ _ _ rfl hstubs, roundsFrom_of_no_stubs _ _ _ _ hstubs]
      dsimp only
      rw [hsources]
      refine ⟨(List.append_nil _).symm, _, List.getLast?_singleton, ?_⟩
      rw [units_roundAt, ← hfiles]
      rfl
    · have hne : stubs ≠ [] := fun h => hstubs (List.map_eq_nil_iff.mp h)
      -- the files of the next round are those of all sources up to then
      have hfiles' : files ++ (parseFiles c.sources.length stubs).1 =
          (parseFiles 0 (afterRound outDir (more + 1) round.1 c).sources).1 := by
        rw [hsources, parseFiles_append, hfiles, Nat.zero_add]
      obtain ⟨hmore, b, hlast, hunits⟩ := ih c.sources.length round.2 hfiles'
      rw [length_sources_afterRound outDir c] at hmore hlast
      rw [runRounds_of_stubs _ _ _ _ rfl rfl hne, roundsFrom_of_stubs _ _ _ _ rfl hne]
      refine ⟨?_, b, ?_, hunits⟩
      · rw [hmore, hsources,
          List.dropLast_cons_of_ne_nil (List.ne_nil_of_mem (roundAt_mem_roundsFrom ..)),
          List.flatMap_cons, List.map_append, List.append_assoc]
      · rw [List.getLast?_cons, hlast]
        rfl

/-- Of all that a round reports, what is wrong with declarations is what its table reports. -/
theorem filter_isOfDeclaration_of_mem_roundsFrom {more : Nat} {files : List ParsedFile}
    {firstNew known : FileId} {s : σ} {b : BuildRound}
    (hb : b ∈ roundsFrom filer renderer outDir last more files firstNew known s) :
    b.diagnostics.filter (·.isOfDeclaration) = b.reports := by
  obtain ⟨more', files', firstNew', known', s', rfl⟩ :=
    mem_roundsFrom filer renderer outDir last hb
  have hreports := (haveCodes_build (unitsOf files' firstNew')).filter (isNews firstNew')
  have hmade :=
    haveCodes_processRound filer renderer (Table.build (unitsOf files' firstNew')).1 last s'
  have hafter := haveCodes_reportsAfter outDir more' known'
    (roundAt filer renderer outDir last more' files' firstNew' known' s').1.made
  rw [BuildRound.diagnostics, List.filter_append, List.filter_append, reports_roundAt, made_roundAt,
    after_roundAt, hreports.filter_isOfDeclaration, hmade.filter_isOfDeclaration_eq_nil (by decide),
    hafter.filter_isOfDeclaration_eq_nil (by decide), List.append_nil, List.append_nil]

end

end Build

/-- However many rounds a build has and whatever the stubs in them declare, it reports what is wrong
    with declarations as a single table does that is made of everything the last round knows: the
    library, the inputs and the stubs of all rounds before, in the order of their files.  Nothing is
    reported again when the table is made anew, and nothing is lost. -/
theorem declarationReports_of_compile {σ : Type} (tree : FileTree) (options : BuildOptions)
    (filer : Filer σ) (renderer : Renderer) (s : σ) {sources : SourceMap}
    (hload : Build.loadInputs tree options.inputs = .ok sources) :
    let bs := Build.rounds tree options filer renderer s
    ∃ c s', compile tree options filer renderer s = (.ok c, s') ∧
      c.sources = sources ++
        (bs.dropLast.flatMap (·.made.stubs)).map (Build.stubFile options.outDir) ∧
      (∀ b, bs.getLast? = some b →
        b.units = Build.unitsOf (Build.parseFiles 0 c.sources).1 b.firstNew) ∧
      c.diagnostics.filter (fun d =>
          d.cause.code? == some "E0102" || d.cause.code? == some "E0103") =
        bs.getLast?.elim [] fun b => (Table.build b.units).2 := by
  intro bs
  cases hlast : options.emit.lastStage? with
  | none =>
    have hbs : bs = [] := by
      show Build.rounds tree options filer renderer s = []
      unfold Build.rounds
      rw [hload, hlast]
    refine ⟨Build.loaded sources, s, ?_, ?_⟩
    · unfold compile
      rw [hload, hlast]
    · rw [hbs]
      simp [Build.loaded]
  | some last =>
    have hbs : bs = Build.roundsFrom filer renderer options.outDir last (maxRounds - 1)
        (Build.parseFiles 0 sources).1 Build.librarySources.length sources.length s :=
      Build.rounds_of_loadInputs hlast hload
    obtain ⟨hsources, b, hb, hunits⟩ := Build.sources_runRounds filer renderer options.outDir last
      (maxRounds - 1) Build.librarySources.length (c := Build.read sources) s rfl
    have hcollects := Build.collects_runRounds filer renderer options.outDir last (maxRounds - 1)
      (Build.parseFiles 0 sources).1 Build.librarySources.length (Build.read sources) s
    have hknown : (Build.read sources).sources = sources := rfl
    rw [hknown, ← hbs] at hsources hb hcollects
    refine ⟨_, _, Build.compile_of_loadInputs hlast hload, hsources, ?_, ?_⟩
    · intro b' hb'
      cases Option.some.inj (hb.symm.trans hb')
      exact hunits
    · have hread : (Build.read sources).diagnostics.filter (·.isOfDeclaration) = [] :=
        (Build.haveCodes_parseFiles 0 sources).filter_isOfDeclaration_eq_nil (by decide)
      have hround : ∀ b ∈ bs, b.diagnostics.filter (·.isOfDeclaration) = b.reports := by
        rw [hbs]
        exact fun b hb => Build.filter_isOfDeclaration_of_mem_roundsFrom filer renderer _ last hb
      have hrounds : (bs.flatMap (·.diagnostics)).filter (·.isOfDeclaration) =
          bs.flatMap (·.reports) := by
        rw [List.filter_flatMap]
        exact List.flatMap_congr hround
      obtain ⟨b', hb', hreports⟩ := Build.reports_roundsFrom filer renderer options.outDir last
        (maxRounds - 1) s Build.file_lt_of_mem_parseFiles
        (Build.declarationReports_of_loadInputs hload)
      rw [← hbs] at hb' hreports
      show (Compilation.diagnostics _).filter (·.isOfDeclaration) = _
      rw [hcollects.diagnostics, List.filter_append, hread, hrounds, hb', Option.elim_some,
        hreports]

/-- A renderer whose stubs declare a class that extends two types. -/
def Renderer.surplus : Renderer := fun p =>
  .ok [⟨.declarationStub, p.factoryName, "class C extends Object, Void;"⟩]

/-- A name that is declared twice is reported in the first round and a surplus type in the second
    one. -/
theorem runRounds_surplus :
    let c := (Build.runRounds acceptAll .surplus "out" .register (maxRounds - 1)
      (Build.parseFiles 0 (singleSources "interface I extends Actor; interface I;")).1
      Build.librarySources.length
      (Build.read (singleSources "interface I extends Actor; interface I;")) ()).1
    c.rounds = 2 ∧ (c.diagnostics.filter (·.isOfDeclaration)).map (·.cause.code?) =
      [some "E0102", some "E0103"] := by
  have hfiles := parseFiles_single
    (rfl : "interface I extends Actor; interface I;" = String.ofList _)
  rw [Build.read, hfiles]
  decide +kernel

theorem declarationReports_of_compile_surplus :
    ∃ c s', compile (.single "interface I extends Actor; interface I;") ⟨["A.orbit"], "out", .all⟩
        acceptAll .surplus () = (.ok c, s') ∧ c.rounds = 2 ∧ ∃ b : BuildRound,
      b.units = Build.unitsOf (Build.parseFiles 0 c.sources).1 b.firstNew ∧
      c.diagnostics.filter (fun d =>
        d.cause.code? == some "E0102" || d.cause.code? == some "E0103") = (Table.build b.units).2 ∧
      (Table.build b.units).2.map (·.cause.code?) = [some "E0102", some "E0103"] := by
  have hload := loadInputs_single "interface I extends Actor; interface I;"
  obtain ⟨c, s', hcompile, _, hunits, hreports⟩ := declarationReports_of_compile
    (.single "interface I extends Actor; interface I;") ⟨["A.orbit"], "out", .all⟩ acceptAll
    .surplus () hload
  have hrun := @Build.compile_of_loadInputs _ (.single "interface I extends Actor; interface I;")
    ⟨["A.orbit"], "out", .all⟩ acceptAll .surplus () _ rfl _ hload
  rw [hcompile] at hrun
  obtain ⟨hc, _⟩ := Prod.mk.inj hrun
  obtain ⟨hrounds, hcodes⟩ := runRounds_surplus
  rw [← Except.ok.inj hc] at hrounds hcodes
  change (c.diagnostics.filter fun d =>
    d.cause.code? == some "E0102" || d.cause.code? == some "E0103").map _ = _ at hcodes
  refine ⟨c, s', hcompile, hrounds, ?_⟩
  cases hlast : (Build.rounds (.single "interface I extends Actor; interface I;")
    ⟨["A.orbit"], "out", .all⟩ acceptAll .surplus ()).getLast? with
  | none =>
    -- without a round nothing would be reported
    rw [hreports, hlast] at hcodes
    cases hcodes
  | some b =>
    rw [hlast, Option.elim_some] at hreports
    rw [hreports] at hcodes
    exact ⟨b, hunits b hlast, hreports, hcodes⟩

end ActorIdl
