import ActorIdl.Proofs.Build.Outputs
import ActorIdl.Proofs.Renderer.Stub
import ActorIdl.Proofs.Round.Reports
/-! # Builds settle

    With the default renderer the only new sources of a round are the stubs of the plans that it
    wrote.  Everything that a stub declares carries the mark of the compiler, and the mark resolves
    to the annotation of the library whatever else is declared, since a declaration cannot be named
    by a reserved word.  So the round about the stubs has no candidates and makes nothing, and it is
    the last one. -/

namespace ActorIdl

open Syntax

/-! ## The stubs of a round -/

theorem kind_renderModule {p : Plan} {unit : RenderedUnit}
    (h : Generated.renderModule p = .ok unit) : unit.kind = .implementation := by
  obtain ⟨_, _, rfl⟩ := Generated.renderModule_eq_ok_iff.mp h
  rfl

theorem stubs_of_default {p : Plan} {units : List RenderedUnit}
    (h : Renderer.default p = .ok units) :
    units.filter (·.kind == .declarationStub) = [Stub.render p] := by
  obtain ⟨unit, hmodule, rfl⟩ := exists_module_of_default h
  have hkind := kind_renderModule hmodule
  simp [hkind, Stub.render]

section
variable {σ : Type} {filer : Filer σ} {renderer : Renderer} {t : Table} {s : σ}

/-- There is one stub for every plan that was written. -/
theorem stubs_processRound : (processRound filer .default t .register s).1.stubs =
    (processRound filer .default t .register s).1.written.map fun w => Stub.render w.1 := by
  have hmap : ∀ ws : List (Plan × List RenderedUnit),
      (∀ w ∈ ws, Renderer.default w.1 = .ok w.2) →
        (ws.flatMap (·.2)).filter (·.kind == .declarationStub) =
          ws.map fun w => Stub.render w.1 := by
    intro ws hws
    induction ws with
    | nil => rfl
    | cons w ws ih =>
      obtain ⟨hw, hws⟩ := List.forall_mem_cons.mp hws
      rw [List.flatMap_cons, List.filter_append, stubs_of_default hw, ih hws]
      rfl
  exact hmap _ fun w hw => (mem_of_mem_written hw).2

/-- A round without candidates is over before it begins. -/
theorem processRound_of_no_candidates (h : t.candidates = ⟨[], [], []⟩) (last : Stage) :
    processRound filer renderer t last s = (.start, s) := by
  have hrun : ∀ stage, Round.run filer renderer t stage .start s = (.start, s) := by
    intro stage
    cases stage with
    | walk =>
      show ({ Round.start with candidates := t.candidates }, s) = (Round.start, s)
      rw [h]
      rfl
    | assignIds =>
      have hnone : collisionReports t [] = [] := by
        simp [collisionReports, interfaceCollisionReports, interfaceIds]
      show ({ Round.start with reports := [] ++ collisionReports t [] }, s) = (Round.start, s)
      rw [hnone]
      rfl
    | _ => rfl
  -- no stage finds anything to do, so each leaves the round as it began
  have hkeeps : ∀ stage r s', r = .start ∧ s' = s →
      (Round.run filer renderer t stage r s').1 = .start ∧
        (Round.run filer renderer t stage r s').2 = s := by
    rintro stage _ _ ⟨rfl, rfl⟩
    rw [hrun]
    exact ⟨rfl, rfl⟩
  have hall := @Round.runAll_keeps _ filer renderer t (fun r s' => r = .start ∧ s' = s) hkeeps
    last.required .start s ⟨rfl, rfl⟩
  rw [processRound]
  exact Prod.ext hall.1 hall.2

end

/-! ## The files of a build -/

namespace Build

theorem mem_parseFiles {first : FileId} {files : List SourceFile} {f : ParsedFile}
    (h : f ∈ (parseFiles first files).1) : ∃ i source, files[i]? = some source ∧
      (parse source.text).unit = some f.unit ∧ f.file = first + i ∧
      f.packageHint = source.packageHint := by
  obtain ⟨parsed, hparsed, hf⟩ := List.mem_filterMap.mp h
  obtain ⟨i, hi, rfl⟩ := List.mem_mapIdx.mp hparsed
  obtain ⟨unit, hunit, rfl⟩ := Option.map_eq_some_iff.mp hf
  exact ⟨i, files[i], List.getElem?_eq_getElem hi, hunit, rfl, rfl⟩

/-- Files are numbered one after the other. -/
theorem file_of_mem_parseFiles {first : FileId} {files : List SourceFile} {f : ParsedFile}
    (hf : f ∈ (parseFiles first files).1) : first ≤ f.file ∧ f.file < first + files.length := by
  obtain ⟨i, _, hi, _, hfile, _⟩ := mem_parseFiles hf
  rw [hfile]
  exact ⟨Nat.le_add_right _ _, Nat.add_lt_add_left (List.getElem?_eq_some_iff.mp hi).1 _⟩

theorem file_lt_of_mem_parseFiles {sources : List SourceFile} :
    ∀ f ∈ (parseFiles 0 sources).1, f.file < sources.length :=
  fun _ hf => Nat.zero_add sources.length ▸ (file_of_mem_parseFiles hf).2

theorem haveCodes_parseFiles (first : FileId) (files : List SourceFile) :
    HaveCodes ["E0101"] (parseFiles first files).2 := by
  refine haveCodes_flatMap fun parsed hparsed => ?_
  obtain ⟨i, _, rfl⟩ := List.mem_mapIdx.mp hparsed
  intro d hd
  obtain ⟨fault, _, rfl⟩ := List.mem_map.mp hd
  exact ⟨"E0101", by simp, rfl⟩

theorem wellNamed_parseFiles (first : FileId) (files : List SourceFile) :
    ∀ f ∈ (parseFiles first files).1, f.unit.WellNamed := by
  intro f hf
  obtain ⟨_, _, _, hparse, _, _⟩ := mem_parseFiles hf
  exact wellNamed_of_parse hparse

theorem wellNamed_unitsOf {files : List ParsedFile} (h : ∀ f ∈ files, f.unit.WellNamed)
    (firstNew : FileId) : ∀ u ∈ unitsOf files firstNew, u.unit.WellNamed := by
  intro u hu
  obtain ⟨f, hf, rfl⟩ := List.mem_map.mp hu
  exact h f hf

end Build

/-- The hint of a source is a dotted name if it is used: if the source names no package itself. -/
def SourceFile.HasDottedHint (f : SourceFile) : Prop :=
  ∀ unit, (parse f.text).unit = some unit → unit.package = none →
    ∀ hint ∈ f.packageHint, IsDotted hint

theorem hasDottedHint_unitsOf {first firstNew : FileId} {sources : List SourceFile}
    (h : ∀ f ∈ sources, f.HasDottedHint) :
    ∀ u ∈ Build.unitsOf (Build.parseFiles first sources).1 firstNew, u.HasDottedHint := by
  intro u hu
  obtain ⟨f, hf, rfl⟩ := List.mem_map.mp hu
  obtain ⟨i, source, hsource, hparse, _, hhint⟩ := Build.mem_parseFiles hf
  intro hpackage hint hmem
  change hint ∈ f.packageHint at hmem
  rw [hhint] at hmem
  exact h source (List.mem_of_getElem? hsource) f.unit hparse hpackage hint hmem

/-! ## Declarations of stubs -/

/-- A declaration cannot stand between the segments of the mark, so the mark is what it says. -/
theorem resolve_mark {s : Scope} (hnames : ∀ p, s.declares (p ++ "." ++ Keyword.annotation_.text) = false)
    {a : AnnotationExpr} (ha : Stub.IsMark a) : s.resolve a.name = Library.generated := by
  have hsegments : a.name.head.text :: a.name.tail.map Name.text =
      ["orbit", "actors", "annotation", "Generated"] := ha.name
  have htail := (List.cons.inj hsegments).2
  have hmem : "annotation" ∈ a.name.tail.map Name.text := by
    rw [htail]
    simp
  obtain ⟨n, hn, htext⟩ := List.mem_map.mp hmem
  rw [Scope.resolve_eq_dotted (fun p => htext ▸ hnames p) hn, QualifiedName.dotted]
  exact congrArg (Text.joinWith ".") ha.name

theorem Table.isGenerated_of_mem_roots {units : List SourceUnit}
    (hunits : ∀ u ∈ units, u.unit.WellNamed)
    (hroots : ∀ u ∈ units, u.isRoot = true → ∃ p, Stub.Declares p u.unit) :
    ∀ id ∈ (Table.build units).1.roots, (Table.build units).1.isGenerated id = true := by
  intro id hid
  obtain ⟨u, hu, hroot, e, he, rfl, _, _, d, hd, hhead⟩ := entry_of_mem_roots hid
  obtain ⟨p, hp⟩ := hroots u hu hroot
  obtain ⟨head, tail, _, hdecls⟩ := hp.decls
  obtain ⟨c, hc⟩ : ∃ c : Stub.ClassLine, c.Declares d := by
    obtain ⟨i, hi, rfl⟩ := List.mem_iff_getElem.mp hd
    have hlength := hdecls.length_eq
    exact ⟨_, hdecls.get (hlength ▸ hi) hi⟩
  obtain ⟨a, hannotations, ha⟩ := hc.annotations
  -- the third segment of the mark is reserved, so no declaration is found on the way
  have hnames : ∀ p, p ++ "." ++ Keyword.annotation_.text ∉ entryNames (entriesOf units) := by
    intro p hmem
    obtain ⟨e', he', heq⟩ := List.mem_map.mp hmem
    obtain ⟨u', hu', hfits, hwell⟩ := fits_of_mem_enterUnits he'
    exact hfits.ne_reserved (hwell (hunits u' hu')) p _ heq
  have hmark := @resolve_mark (e.headScope (.of (entryNames (entriesOf units))))
    (fun p => Bool.eq_false_iff.mpr (mt (Scope.declares_iff rfl).mp (hnames p))) a ha
  have hget : (entriesOf units)[e.id]? = some e := getElem?_of_mem_entries he
  rw [isGenerated, isMarked, get?_build, hget, Option.map_some, Option.any_some]
  unfold Declaration.isMarked Entry.declared Entry.info
  dsimp only
  rw [hhead, hannotations, List.map_singleton]
  simp [Scope.resolveAnnotation, hmark]

/-! ## The round about the stubs -/

section
variable {σ : Type} {filer : Filer σ} {outDir : String}

/-- A stub is parsed to the unit of its plan. -/
theorem declares_of_mem_parseFiles {first : FileId} {ps : List Plan} (hps : ∀ p ∈ ps, p.WellNamed)
    {f : Build.ParsedFile}
    (hf : f ∈ (Build.parseFiles first (ps.map fun p => Build.stubFile outDir (Stub.render p))).1) :
    ∃ p, Stub.Declares p f.unit := by
  obtain ⟨i, source, hsource, hparse, _, _⟩ := Build.mem_parseFiles hf
  obtain ⟨p, hp, rfl⟩ := List.mem_map.mp (List.mem_of_getElem? hsource)
  obtain ⟨u, hu, hdeclares⟩ := Stub.parse_render (hps p hp)
  have htext : (Build.stubFile outDir (Stub.render p)).text = (Stub.render p).contents := rfl
  rw [htext, hu] at hparse
  exact ⟨p, Option.some.inj hparse ▸ hdeclares⟩

/-- A round whose new files are stubs makes nothing. -/
theorem made_of_stubs {files : List Build.ParsedFile} {known : FileId}
    (hfiles : ∀ f ∈ files, f.unit.WellNamed) (hold : ∀ f ∈ files, f.file < known)
    {ps : List Plan} (hps : ∀ p ∈ ps, p.WellNamed) (more : Nat) (next : FileId) (s : σ) :
    (Build.roundAt filer .default outDir .register more (files ++ (Build.parseFiles known
      (ps.map fun p => Build.stubFile outDir (Stub.render p))).1) known next s).1.made =
        .start := by
  rw [Build.made_roundAt]
  refine congrArg Prod.fst (processRound_of_no_candidates ?_ _)
  refine Table.candidates_of_generated_roots (Table.isGenerated_of_mem_roots ?_ ?_)
  · refine Build.wellNamed_unitsOf (List.forall_mem_append.mpr ⟨hfiles, ?_⟩) known
    exact Build.wellNamed_parseFiles known _
  · intro u hu hroot
    obtain ⟨f, hf, rfl⟩ := List.mem_map.mp hu
    have hnew : known ≤ f.file := by simpa using hroot
    -- a root is declared in a new file, and the new files are the stubs
    rcases List.mem_append.mp hf with hf | hf
    · exact absurd hnew (Nat.not_le_of_lt (hold f hf))
    · exact declares_of_mem_parseFiles hps hf

end

/-! ## The rounds of a build -/

/-- The codes under which a build can report as long as further rounds are allowed. -/
def Build.codes : List String := "E0101" :: "E0102" :: "E0103" :: roundCodes

theorem Build.haveCodes_roundAt {σ : Type} (filer : Filer σ) (renderer : Renderer)
    (outDir : String) (last : Stage) (more : Nat) (files : List ParsedFile)
    (firstNew known : FileId) (s : σ) : HaveCodes codes
      (roundAt filer renderer outDir last (more + 1) files firstNew known s).1.diagnostics := by
  have hreports := (haveCodes_build (unitsOf files firstNew)).filter (isNews firstNew)
  have hmade := haveCodes_processRound filer renderer (Table.build (unitsOf files firstNew)).1 last s
  have hafter : HaveCodes ["E0101"] (reportsAfter outDir (more + 1) known
      (processRound filer renderer (Table.build (unitsOf files firstNew)).1 last s).1) := by
    unfold reportsAfter
    split
    · exact haveCodes_nil
    · exact haveCodes_parseFiles _ _
  exact haveCodes_append.mpr ⟨haveCodes_append.mpr ⟨hreports.mono (by decide),
    hmade.mono (by decide)⟩, hafter.mono (by decide)⟩

section
variable {σ : Type} {filer : Filer σ} {outDir : String}

/-- The rounds of a build: one, and a second one that makes nothing if the first one has written a
    plan. -/
structure Settles (bs : List BuildRound) (first : BuildRound) : Prop where
  rounds : (bs = [first] ∧ first.made.written = []) ∨
    ∃ second, bs = [first, second] ∧ first.made.written ≠ [] ∧ second.made = .start
  codes : ∀ b ∈ bs, HaveCodes Build.codes b.diagnostics

theorem settles_roundsFrom {files : List Build.ParsedFile} {firstNew known : FileId}
    (hfiles : ∀ f ∈ files, f.unit.WellNamed) (hold : ∀ f ∈ files, f.file < known)
    (hhints : ∀ u ∈ Build.unitsOf files firstNew, u.HasDottedHint) (more : Nat) (s : σ) :
    ∃ first, Settles (Build.roundsFrom filer .default outDir .register (more + 2) files firstNew
      known s) first := by
  let first := (Build.roundAt filer .default outDir .register (more + 2) files firstNew known s).1
  refine ⟨first, ?_⟩
  have hcodes : HaveCodes Build.codes first.diagnostics :=
    Build.haveCodes_roundAt filer .default outDir .register (more + 1) files firstNew known s
  have hmade : first.made = (processRound filer .default
      (Table.build (Build.unitsOf files firstNew)).1 .register s).1 := Build.made_roundAt ..
  have hstubs : first.made.stubs = first.made.written.map fun w => Stub.render w.1 := by
    rw [hmade, stubs_processRound]
  by_cases hwritten : first.made.written = []
  · have hnone : first.made.stubs = [] := by rw [hstubs, hwritten, List.map_nil]
    rw [Build.roundsFrom_of_no_stubs _ _ _ _ hnone]
    exact ⟨.inl ⟨rfl, hwritten⟩, List.forall_mem_singleton.mpr hcodes⟩
  · -- the first round is about well-named units, so its stubs are sources
    have hplans : ∀ p ∈ first.made.written.map (·.1), p.WellNamed := by
      intro p hp
      obtain ⟨w, hw, rfl⟩ := List.mem_map.mp hp
      rw [hmade] at hw
      exact wellNamed_of_mem_plans (Build.wellNamed_unitsOf hfiles firstNew) hhints
        (mem_of_mem_written hw).1
    let stubs := (first.made.written.map (·.1)).map
      fun p => Build.stubFile outDir (Stub.render p)
    have hfirst : first.made.stubs.map (Build.stubFile outDir) = stubs := by
      show _ = (first.made.written.map (·.1)).map _
      rw [hstubs, List.map_map, List.map_map]
      rfl
    have hne : stubs ≠ [] := by
      rw [ne_eq, List.map_eq_nil_iff, List.map_eq_nil_iff]
      exact hwritten
    let s₁ := (Build.roundAt filer .default outDir .register (more + 2) files firstNew known s).2
    let second := (Build.roundAt filer .default outDir .register (more + 1)
      (files ++ (Build.parseFiles known stubs).1) known (known + stubs.length) s₁).1
    have hsecond : second.made = .start := made_of_stubs hfiles hold hplans _ _ _
    have hcodes' : HaveCodes Build.codes second.diagnostics :=
      Build.haveCodes_roundAt filer .default outDir .register more _ known _ s₁
    have hnone : second.made.stubs = [] := by
      rw [hsecond]
      rfl
    rw [Build.roundsFrom_of_stubs _ _ _ _ hfirst hne, Build.roundsFrom_of_no_stubs _ _ _ _ hnone]
    refine ⟨.inr ⟨second, rfl, hwritten, hsecond⟩, ?_⟩
    exact List.forall_mem_cons.mpr ⟨hcodes, List.forall_mem_singleton.mpr hcodes'⟩

end

/-! ## Whole builds -/

/-- A build with the default renderer runs one round, and a second one about the stubs if the first
    one has written a plan.  The second one makes nothing, so what the build returns was made in the
    first one, and it is never reported that the build did not settle. -/
theorem rounds_of_compile {σ : Type} (tree : FileTree) (options : BuildOptions)
    (hemit : options.emit = .all) (filer : Filer σ) (s : σ) {sources : SourceMap}
    (hload : Build.loadInputs tree options.inputs = .ok sources)
    (hhints : ∀ f ∈ sources, f.HasDottedHint) :
    ∃ c s' first, compile tree options filer .default s = (.ok c, s') ∧
      (Build.rounds tree options filer .default s = [first] ∧ c.rounds = 1 ∧
          first.made.written = [] ∨
        ∃ second, Build.rounds tree options filer .default s = [first, second] ∧ c.rounds = 2 ∧
          first.made.written ≠ [] ∧ second.made.candidates = ⟨[], [], []⟩ ∧
          second.made.descriptors = [] ∧ second.made.plans = [] ∧ second.made.generated = [] ∧
          second.made.manifests = []) ∧
      c.descriptors = first.made.descriptors ∧ c.plans = first.made.plans ∧
      c.generated = first.made.generated ∧ c.manifests = first.made.manifests ∧
      ∀ d ∈ c.diagnostics, d.cause.code? ≠ some "E0501" := by
  have hlast : options.emit.lastStage? = some .register := by rw [hemit]; rfl
  obtain ⟨c, s', hcompile⟩ : ∃ c s', compile tree options filer .default s = (.ok c, s') :=
    ⟨_, _, Build.compile_of_loadInputs hlast hload⟩
  obtain ⟨sources', hload', hcollects⟩ := Build.collects_compile hlast hcompile
  cases Except.ok.inj (hload.symm.trans hload')
  have hold : ∀ f ∈ (Build.parseFiles 0 sources).1, f.file < sources.length := by
    intro f hf
    obtain ⟨i, _, hi, _, hfile, _⟩ := Build.mem_parseFiles hf
    rw [hfile, Nat.zero_add]
    exact (List.getElem?_eq_some_iff.mp hi).1
  obtain ⟨first, hsettles⟩ := @settles_roundsFrom σ filer options.outDir
    (Build.parseFiles 0 sources).1 Build.librarySources.length sources.length
    (Build.wellNamed_parseFiles 0 sources) hold (hasDottedHint_unitsOf hhints) 5 s
  have hbs : Build.rounds tree options filer .default s = Build.roundsFrom filer .default
      options.outDir .register (5 + 2) (Build.parseFiles 0 sources).1 Build.librarySources.length
      sources.length s := Build.rounds_of_loadInputs hlast hload
  rw [← hbs] at hsettles
  -- a build that did not settle would be reported under a code of its own
  have hcodes : ∀ d ∈ c.diagnostics, d.cause.code? ≠ some "E0501" := by
    have hread : HaveCodes Build.codes (Build.read sources).diagnostics :=
      (Build.haveCodes_parseFiles 0 sources).mono (by decide)
    have hall : HaveCodes Build.codes c.diagnostics := by
      rw [hcollects.diagnostics]
      exact haveCodes_append.mpr ⟨hread, haveCodes_flatMap hsettles.codes⟩
    exact hall.ne (by decide)
  refine ⟨c, s', first, hcompile, ?_⟩
  rw [hcollects.rounds, hcollects.descriptors, hcollects.plans, hcollects.generated,
    hcollects.manifests]
  rcases hsettles.rounds with ⟨hone, hwritten⟩ | ⟨second, htwo, hwritten, hsecond⟩
  · rw [hone]
    refine ⟨.inl ⟨rfl, rfl, hwritten⟩, ?_, ?_, ?_, ?_, hcodes⟩ <;>
      simp [Build.read, Build.loaded]
  · rw [htwo]
    refine ⟨.inr ⟨second, rfl, rfl, hwritten, ?_⟩, ?_, ?_, ?_, ?_, hcodes⟩
    · rw [hsecond]
      exact ⟨rfl, rfl, rfl, rfl, rfl⟩
    all_goals simp [Build.read, Build.loaded, hsecond, Round.start, Round.generated, Round.units]

/-- The first round of the build of an actor interface writes its plan. -/
theorem written_actorInterface :
    (processRound Outputs.filer .default (Table.build (Build.unitsOf (Build.parseFiles 0
      (singleSources "interface I extends Actor;")).1 Build.librarySources.length)).1 .register
        (.empty [])).1.written.isEmpty = false := by
  have hfiles := parseFiles_single (rfl : "interface I extends Actor;" = String.ofList _)
  rw [hfiles]
  decide +kernel

theorem rounds_of_compile_actorInterface :
    ∃ c o, compile (.single "interface I extends Actor;") ⟨["A.orbit"], "out", .all⟩ Outputs.filer
        .default (.empty []) = (.ok c, o) ∧ c.rounds = 2 := by
  have hload := loadInputs_single "interface I extends Actor;"
  have hhints : ∀ f ∈ singleSources "interface I extends Actor;", f.HasDottedHint := by
    intro f hf _ _ _ hint hmem
    rw [packageHint_of_mem_singleSources f hf] at hmem
    cases hmem
  obtain ⟨c, o, first, hcompile, hrounds, _⟩ := rounds_of_compile
    (.single "interface I extends Actor;") ⟨["A.orbit"], "out", .all⟩ rfl Outputs.filer (.empty [])
    hload hhints
  refine ⟨c, o, hcompile, ?_⟩
  rcases hrounds with ⟨hone, _, hnone⟩ | ⟨_, _, htwo, _⟩
  · obtain ⟨b, hb, _, hmade⟩ := @Build.exists_first_round _
      (.single "interface I extends Actor;") ⟨["A.orbit"], "out", .all⟩ Outputs.filer .default
      (.empty []) _ rfl _ hload
    rw [hone, List.mem_singleton] at hb
    have hwritten := written_actorInterface
    rw [← hmade, hb, hnone] at hwritten
    cases hwritten
  · exact htwo

end ActorIdl
