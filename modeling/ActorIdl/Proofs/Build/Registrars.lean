import ActorIdl.Proofs.Build.Settling
import ActorIdl.Proofs.Declaration.BinaryNames
import ActorIdl.Proofs.Round.Writing
import Mathlib.Data.List.Pairwise
/-! # Registrars

    The manifest of an interface names a registrar, and interfaces of different names can ask for
    one and the same: the registrar is named after the interface without its mark and without the
    declarations around it.  Its stub has the name in its path, and no path is written twice.  So
    of the plans that share a registrar at most one counts as written, whichever outputs are
    refused, and only plans that count as written are registered. -/

namespace ActorIdl

open Syntax

/-! ## Names -/

/-- The name of a registrar has no dot in it, whatever the package is. -/
theorem not_mem_factoryName {units : List SourceUnit} (hunits : ∀ u ∈ units, u.unit.WellNamed)
    {p : Plan} (hp : p ∈ (Table.build units).1.plans) : '.' ∉ p.factoryName.toList := by
  obtain ⟨d, hd, hfor, _⟩ := Table.isFor_of_mem_plans hp
  rw [Table.get?_build] at hd
  obtain ⟨e, he, rfl⟩ := Option.map_eq_some_iff.mp hd
  obtain ⟨u, hu, _, hwell⟩ := fits_of_mem_enterUnits (List.mem_of_getElem? he)
  have hbase : IsWord (baseName e.simpleName) := isWord_baseName (hwell (hunits u hu)).head.name.1
  have hfactory : p.factoryName = baseName e.simpleName ++ "Factory" := hfor.factoryName
  rw [hfactory, String.toList_append, List.mem_append]
  exact not_or.mpr ⟨hbase.not_mem (by decide), by decide⟩

/-- Plans with one registrar have one stub. -/
theorem Plan.stubPath_eq {p q : Plan} (hp : '.' ∉ p.factoryName.toList)
    (hq : '.' ∉ q.factoryName.toList) (h : p.factoryQualifiedName = q.factoryQualifiedName) :
    Stub.path p = Stub.path q := by
  obtain ⟨hpackage, hname⟩ := qualify_inj hp hq h
  rw [Stub.path, Stub.path, hpackage, hname]

theorem interfacePath_inj {name name' : String}
    (h : Manifest.interfacePath name = Manifest.interfacePath name') : name = name' :=
  (String.append_right_inj _).mp h

/-- The manifests of interfaces and of classes are in different directories. -/
theorem interfacePath_ne_classPath (name name' : String) :
    Manifest.interfacePath name ≠ Manifest.classPath name' := by
  intro h
  have hclass : "META-INF/orbit/actors/classes/".toList <+: (Manifest.classPath name').toList :=
    ⟨name'.toList, String.toList_append.symm⟩
  have hinterface : "META-INF/orbit/actors/interfaces/".toList <+:
      (Manifest.classPath name').toList :=
    h ▸ ⟨name.toList, String.toList_append.symm⟩
  have hdirs := List.prefix_of_prefix_length_le hclass hinterface (by decide)
  exact absurd hdirs (by decide)

/-! ## The rounds of a build -/

namespace Build

section
variable (renderer : Renderer) (outDir : String)

theorem gains_roundAt (more : Nat) (files : List ParsedFile) (firstNew known : FileId)
    (o : Outputs) :
    let round := roundAt Outputs.filer renderer outDir .register more files firstNew known o
    o.Gains round.1.made.units (round.1.made.manifestFiles round.1.table) round.2 := by
  dsimp only
  rw [made_roundAt, table_roundAt, state_roundAt]
  exact gains_processRound renderer _ o

/-- Whatever is refused, a run of rounds adds the sources of the plans that its rounds have written,
    and no other manifests than theirs and those of actor classes. -/
theorem gains_runRounds (more : Nat) (files : List ParsedFile) (firstNew : FileId) (c : Compilation)
    (o : Outputs) :
    let bs := roundsFrom Outputs.filer renderer outDir .register more files firstNew
      c.sources.length o
    o.Gains (bs.flatMap (·.made.units)) (bs.flatMap fun b => b.made.manifestFiles b.table)
      (runRounds Outputs.filer renderer outDir .register more files firstNew c o).2 := by
  -- on the number of rounds that are allowed: each adds its own outputs to those before it
  induction more generalizing files firstNew c o with
  | zero =>
    rw [runRounds_eq, roundsFrom]
    dsimp only
    rw [ite_self, ite_self, List.flatMap_singleton, List.flatMap_singleton]
    dsimp only
    exact gains_roundAt renderer outDir 0 files firstNew c.sources.length o
  | succ more ih =>
    let round := roundAt Outputs.filer renderer outDir .register (more + 1) files firstNew
      c.sources.length o
    have hround : o.Gains round.1.made.units (round.1.made.manifestFiles round.1.table) round.2 :=
      gains_roundAt renderer outDir (more + 1) files firstNew c.sources.length o
    by_cases hstubs : round.1.made.stubs = []
    · rw [runRounds_of_no_stubs _ _ _ _ rfl hstubs, roundsFrom_of_no_stubs _ _ _ _ hstubs]
      dsimp only
      rw [List.flatMap_singleton, List.flatMap_singleton]
      exact hround
    · have hne : round.1.made.stubs.map (stubFile outDir) ≠ [] := by simpa using hstubs
      rw [runRounds_of_stubs _ _ _ _ rfl rfl hne, roundsFrom_of_stubs _ _ _ _ rfl hne]
      have hrest := ih (files ++ (parseFiles c.sources.length
        (round.1.made.stubs.map (stubFile outDir))).1) c.sources.length
        (afterRound outDir (more + 1) round.1 c) round.2
      rw [length_sources_afterRound outDir c] at hrest
      dsimp only at hrest ⊢
      rw [List.flatMap_cons, List.flatMap_cons]
      exact hround.trans hrest

/-- Every round is about parsed units. -/
theorem wellNamed_of_mem_roundsFrom {σ : Type} {filer : Filer σ} {last : Stage} {more : Nat}
    {files : List ParsedFile} {firstNew known : FileId} {s : σ}
    (hfiles : ∀ f ∈ files, f.unit.WellNamed) {b : BuildRound}
    (hb : b ∈ roundsFrom filer renderer outDir last more files firstNew known s) :
    ∀ u ∈ b.units, u.unit.WellNamed := by
  obtain ⟨_, files', firstNew', _, _, hfiles', rfl⟩ := mem_roundsFrom_of_kept filer renderer outDir last
    (P := fun files _ _ => ∀ f ∈ files, f.unit.WellNamed)
    (fun _ _ known stubs h => List.forall_mem_append.mpr ⟨h, wellNamed_parseFiles known stubs⟩) hfiles hb
  exact wellNamed_unitsOf hfiles' firstNew'

theorem mem_of_mem_written_of_mem_roundsFrom {σ : Type} {filer : Filer σ} {more : Nat}
    {files : List ParsedFile} {firstNew known : FileId} {s : σ} {b : BuildRound}
    (hb : b ∈ roundsFrom filer renderer outDir .register more files firstNew known s)
    {w : Plan × List RenderedUnit} (hw : w ∈ b.made.written) :
    w.1 ∈ b.table.plans ∧ renderer w.1 = .ok w.2 := by
  obtain ⟨_, files', firstNew', _, s', rfl⟩ := mem_roundsFrom filer renderer outDir .register hb
  rw [made_roundAt] at hw
  rw [table_roundAt]
  exact mem_of_mem_written hw

end

end Build

/-! ## Plans that are written -/

/-- What is in two parts of a list without repetitions shows that the parts are one. -/
theorem eq_of_nodup_flatMap {α β γ : Type} {xs : List α} {f : α → List β} {g : β → γ}
    (h : ((xs.flatMap f).map g).Nodup) {x y : α} (hx : x ∈ xs) (hy : y ∈ xs) {b c : β}
    (hb : b ∈ f x) (hc : c ∈ f y) (heq : g b = g c) : x = y := by
  rw [List.map_flatMap, List.nodup_flatMap] at h
  by_contra hne
  have hsymm : Std.Symm (Function.onFun List.Disjoint fun a => (f a).map g) :=
    ⟨fun _ _ h c hc hc' => h hc' hc⟩
  have hdisjoint := h.2.forall hx hy hne
  exact hdisjoint (List.mem_map_of_mem hb) (heq ▸ List.mem_map_of_mem hc)

/-- Outputs that rounds with the default renderer have left behind: no two under one path, the
    sources of all plans that were written, and no manifests but those of such plans and of actor
    classes.  The registrars of the plans have plain names. -/
structure Outputs.LeftBy (o : Outputs) (bs : List BuildRound) : Prop where
  distinct : o.Distinct
  planned : ∀ b ∈ bs, ∀ w ∈ b.made.written, w.1 ∈ b.made.plans
  rendered : ∀ b ∈ bs, ∀ w ∈ b.made.written, Renderer.default w.1 = .ok w.2
  named : ∀ b ∈ bs, ∀ w ∈ b.made.written, '.' ∉ w.1.factoryName.toList
  sources : ((bs.flatMap (·.made.units)).map (·.file)).Sublist o.files
  manifests : ∀ f ∈ o.files, f.kind = .resource →
    ∃ b ∈ bs, f ∈ b.made.manifestFiles b.table

namespace Outputs.LeftBy

theorem nil (failing : List String) : (Outputs.empty failing).LeftBy [] where
  distinct := distinct_empty failing
  planned _ hb := absurd hb List.not_mem_nil
  rendered _ hb := absurd hb List.not_mem_nil
  named _ hb := absurd hb List.not_mem_nil
  sources := List.Sublist.refl _
  manifests _ hf := absurd hf List.not_mem_nil

variable {o : Outputs} {bs : List BuildRound} (h : o.LeftBy bs) {b b' : BuildRound}
  {w w' : Plan × List RenderedUnit}
include h

theorem get?_source (hb : b ∈ bs) (hw : w ∈ b.made.written) {u : RenderedUnit} (hu : u ∈ w.2) :
    o.get? .source u.path = some u.contents := by
  refine (get?_eq_some_iff h.distinct).mpr (h.sources.subset (List.mem_map.mpr ⟨u, ?_, rfl⟩))
  exact List.mem_flatMap.mpr ⟨b, hb, List.mem_flatMap.mpr ⟨w, hw, hu⟩⟩

/-- Two plans that were written do not share the path of their stubs. -/
theorem eq_of_stubPath_eq (hb : b ∈ bs) (hb' : b' ∈ bs) (hw : w ∈ b.made.written)
    (hw' : w' ∈ b'.made.written) (hpath : Stub.path w.1 = Stub.path w'.1) : w = w' := by
  -- the units of all plans are among the outputs, and no two outputs are under one path
  have hkeys : (((bs.flatMap (·.made.written)).flatMap (·.2)).map (·.file.key)).Nodup := by
    have hunits : (bs.flatMap (·.made.written)).flatMap (·.2) = bs.flatMap (·.made.units) :=
      List.flatMap_assoc
    have hsub := (h.sources.map OutputFile.key).nodup h.distinct
    rw [List.map_map] at hsub
    rw [hunits]
    exact hsub
  have hstub : ∀ b ∈ bs, ∀ w ∈ b.made.written, Stub.render w.1 ∈ w.2 := by
    intro b hb w hw
    obtain ⟨unit, _, hunits⟩ := exists_module_of_default (h.rendered b hb w hw)
    rw [hunits]
    exact List.mem_cons_of_mem _ List.mem_cons_self
  refine eq_of_nodup_flatMap hkeys (List.mem_flatMap.mpr ⟨b, hb, hw⟩)
    (List.mem_flatMap.mpr ⟨b', hb', hw'⟩) (hstub b hb w hw) (hstub b' hb' w' hw') ?_
  exact Prod.ext rfl hpath

/-- The manifest of an interface is that of a plan that was written. -/
theorem exists_written {name contents : String}
    (hget : o.get? .resource (Manifest.interfacePath name) = some contents) :
    ∃ b ∈ bs, ∃ w ∈ b.made.written, w.1.binaryName = name ∧ w.1.factoryQualifiedName = contents := by
  have hmem := (get?_eq_some_iff h.distinct).mp hget
  obtain ⟨b, hb, hf⟩ := h.manifests _ hmem rfl
  rcases List.mem_append.mp hf with hf | hf
  · obtain ⟨w, hw, heq⟩ := List.mem_map.mp hf
    rw [Plan.manifest, OutputFile.mk.injEq] at heq
    exact ⟨b, hb, w, hw, interfacePath_inj heq.2.1, heq.2.2⟩
  · -- a class has its manifest elsewhere
    obtain ⟨id, _, hclass⟩ := List.mem_filterMap.mp hf
    obtain ⟨d, _, heq⟩ := Table.classManifest?_eq_some_iff.mp hclass
    exact absurd (congrArg OutputFile.path heq) (interfacePath_ne_classPath _ _)

end Outputs.LeftBy

/-- What a build leaves behind, whatever was refused. -/
theorem Build.leftBy_compile {tree : FileTree} {options : BuildOptions} (hemit : options.emit = .all)
    (failing : List String) :
    (compile tree options Outputs.filer .default (.empty failing)).2.LeftBy
      (rounds tree options Outputs.filer .default (.empty failing)) := by
  have hlast : options.emit.lastStage? = some .register := by rw [hemit]; rfl
  cases hload : loadInputs tree options.inputs with
  | error e =>
    -- without inputs that can be read nothing runs
    have hstate : (compile tree options Outputs.filer .default (.empty failing)).2 =
        .empty failing := by
      unfold compile
      rw [hload]
    have hrounds : rounds tree options Outputs.filer .default (.empty failing) = [] := by
      unfold rounds
      rw [hload]
    rw [hstate, hrounds]
    exact .nil failing
  | ok sources =>
    -- the files are added round by round, each path once, and manifests are among them
    have hdistinct := runRounds_preserves Outputs.filer .default options.outDir .register
      (fun _ _ _ _ => Outputs.distinct_filer) (maxRounds - 1) (parseFiles 0 sources).1
      librarySources.length (read sources) (Outputs.distinct_empty failing)
    obtain ⟨added, hfiles, hsources, hmanifests⟩ := gains_runRounds .default options.outDir
      (maxRounds - 1) (parseFiles 0 sources).1 librarySources.length (read sources) (.empty failing)
    have hempty : (Outputs.empty failing).files = [] := rfl
    have hknown : (read sources).sources = sources := rfl
    rw [hempty, List.nil_append] at hfiles
    rw [hknown] at hsources hmanifests
    rw [compile_of_loadInputs hlast hload, rounds_of_loadInputs hlast hload]
    dsimp only
    generalize hbs : roundsFrom Outputs.filer .default options.outDir .register (maxRounds - 1)
      (parseFiles 0 sources).1 librarySources.length sources.length (.empty failing) = bs at *
    -- what a round has written is rendered from plans of its own
    have hwritten : ∀ b ∈ bs, ∀ w ∈ b.made.written,
        w.1 ∈ b.table.plans ∧ Renderer.default w.1 = .ok w.2 := by
      rw [← hbs]
      exact fun b hb w hw => mem_of_mem_written_of_mem_roundsFrom _ _ hb hw
    constructor
    · exact hdistinct
    · intro b hb w hw
      rw [← hbs] at hb
      rw [plans_of_mem_roundsFrom (by decide) hb]
      exact (hwritten b (hbs ▸ hb) w hw).1
    · exact fun b hb w hw => (hwritten b hb w hw).2
    · intro b hb w hw
      refine not_mem_factoryName ?_ (hwritten b hb w hw).1
      rw [← hbs] at hb
      exact wellNamed_of_mem_roundsFrom _ _ (wellNamed_parseFiles 0 sources) hb
    · rw [hfiles]
      exact hsources
    · intro f hf hkind
      rw [hfiles] at hf
      exact List.mem_flatMap.mp (hmanifests f hf hkind)

/-- Whichever outputs are refused, the manifest of an interface names the registrar of a plan that
    has its module and its stub where they belong, and no two manifests name one registrar. -/
theorem registrars_of_compile {tree : FileTree} {options : BuildOptions}
    (hemit : options.emit = .all) (failing : List String) :
    let bs := Build.rounds tree options Outputs.filer .default (.empty failing)
    let o := (compile tree options Outputs.filer .default (.empty failing)).2
    (∀ name contents, o.get? .resource (Manifest.interfacePath name) = some contents →
      ∃ b ∈ bs, ∃ p ∈ b.made.plans, ∃ unit, (p, [unit, Stub.render p]) ∈ b.made.written ∧
        p.binaryName = name ∧ p.factoryQualifiedName = contents ∧
        Generated.renderModule p = .ok unit ∧
        o.get? .source (Generated.modulePath p) = some unit.contents ∧
        o.get? .source (Stub.path p) = some (Stub.render p).contents) ∧
    ∀ name name' contents, o.get? .resource (Manifest.interfacePath name) = some contents →
      o.get? .resource (Manifest.interfacePath name') = some contents → name = name' := by
  intro bs o
  have hleft : o.LeftBy bs := Build.leftBy_compile hemit failing
  refine ⟨fun name contents hget => ?_, fun name name' contents hget hget' => ?_⟩
  · obtain ⟨b, hb, w, hw, hname, hcontents⟩ := hleft.exists_written hget
    obtain ⟨unit, hmodule, hunits⟩ := exists_module_of_default (hleft.rendered b hb w hw)
    have hsources : ∀ u ∈ [unit, Stub.render w.1], o.get? .source u.path = some u.contents :=
      fun u hu => hleft.get?_source hb hw (hunits ▸ hu)
    refine ⟨b, hb, w.1, hleft.planned b hb w hw, unit, ?_, hname, hcontents, hmodule, ?_, ?_⟩
    · rw [← hunits]
      exact hw
    · rw [← path_renderModule hmodule]
      exact hsources unit List.mem_cons_self
    · exact hsources _ (List.mem_cons_of_mem _ List.mem_cons_self)
  · obtain ⟨b, hb, w, hw, rfl, rfl⟩ := hleft.exists_written hget
    obtain ⟨b', hb', w', hw', rfl, hsame⟩ := hleft.exists_written hget'
    -- one registrar, so one stub, and only one plan can have written it
    have hpath := Plan.stubPath_eq (hleft.named b' hb' w' hw') (hleft.named b hb w hw) hsame
    rw [hleft.eq_of_stubPath_eq hb' hb hw' hw hpath]

/-- An interface in another one and an interface of the same simple name beside it: if the module of
    the first is refused, the second gets the registrar. -/
theorem runRounds_nested :
    (Build.runRounds Outputs.filer .default "out" .register (maxRounds - 1)
      (Build.parseFiles 0 (singleSources
        "interface O { interface A extends Actor; } interface A extends Actor;")).1
      Build.librarySources.length (Build.read (singleSources
        "interface O { interface A extends Actor; } interface A extends Actor;"))
      (.empty ["o_a.rs"])).2.get? .resource (Manifest.interfacePath "A") = some "AFactory" := by
  have hfiles := parseFiles_single
    (rfl : "interface O { interface A extends Actor; } interface A extends Actor;" =
      String.ofList _)
  rw [Build.read, hfiles]
  decide +kernel

theorem registrars_of_compile_nested :
    ∃ c o, compile (.single "interface O { interface A extends Actor; } interface A extends Actor;")
        ⟨["A.orbit"], "out", .all⟩ Outputs.filer .default (.empty ["o_a.rs"]) = (.ok c, o) ∧
      o.get? .resource (Manifest.interfacePath "A") = some "AFactory" ∧
      o.get? .resource (Manifest.interfacePath "O$A") ≠ some "AFactory" ∧
      ∃ p unit, p.binaryName = "A" ∧ Generated.renderModule p = .ok unit ∧
        o.get? .source (Generated.modulePath p) = some unit.contents := by
  obtain ⟨c, o, hcompile, hget⟩ : ∃ c o, compile
      (.single "interface O { interface A extends Actor; } interface A extends Actor;")
        ⟨["A.orbit"], "out", .all⟩ Outputs.filer .default (.empty ["o_a.rs"]) = (.ok c, o) ∧
      o.get? .resource (Manifest.interfacePath "A") = some "AFactory" := by
    rw [Build.compile_of_loadInputs rfl (loadInputs_single _)]
    exact ⟨_, _, rfl, runRounds_nested⟩
  obtain ⟨hmanifests, hunique⟩ := @registrars_of_compile
    (.single "interface O { interface A extends Actor; } interface A extends Actor;")
    ⟨["A.orbit"], "out", .all⟩ rfl ["o_a.rs"]
  rw [hcompile] at hmanifests hunique
  obtain ⟨_, _, p, _, unit, _, hname, _, hmodule, hsource, _⟩ := hmanifests _ _ hget
  refine ⟨c, o, hcompile, hget, fun hget' => ?_, p, unit, hname, hmodule, hsource⟩
  exact absurd (hunique _ _ _ hget hget') (by decide)

end ActorIdl
