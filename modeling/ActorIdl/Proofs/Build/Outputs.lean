import ActorIdl.Proofs.Build.Single
import ActorIdl.Proofs.Declaration.Subject
import ActorIdl.Proofs.Plan.WellFormed
import ActorIdl.Proofs.Renderer.MethodTexts
/-! # What a build writes

    A build that reports no error has written everything that the declarations of its rounds call
    for, and nothing else.  An actor or observer interface calls for its module, its stub and its
    manifest, an actor class for its manifest.  The rounds add their outputs to a filer that was
    empty, and since it holds no two outputs under one path, the output of a path is the one that
    was written there. -/

namespace ActorIdl

namespace Table

/-- An interface with the actor or the observer marker above it. -/
def IsRemote (t : Table) (id : DeclId) : Prop :=
  t.isKind id .interfaceType = true ∧
    (t.reaches id Library.actor = true ∨ t.reaches id Library.actorObserver = true)

variable {t : Table} {id : DeclId}

theorem role_ne_neither_iff : (t.role id != .neither) = true ↔
    t.reaches id Library.actor = true ∨ t.reaches id Library.actorObserver = true := by
  unfold role
  generalize t.reaches id Library.actor = actor
  generalize t.reaches id Library.actorObserver = observer
  cases actor <;> cases observer <;> decide

theorem mem_remotes_iff : id ∈ t.remotes ↔ t.IsSubject id ∧ t.IsRemote id := by
  rw [remotes, List.mem_filter, mem_interfaces, role_ne_neither_iff, IsRemote, and_assoc]

end Table

/-- The outputs that a declaration of a round calls for. -/
inductive BuildRound.Expects (b : BuildRound) (id : DeclId) : OutputFile → Prop where
  | module {p : Plan} {unit : RenderedUnit} : b.table.IsRemote id → p ∈ b.made.plans →
      p.decl = id → Generated.renderModule p = .ok unit →
      Expects b id ⟨.source, Generated.modulePath p, unit.contents⟩
  | stub {p : Plan} : b.table.IsRemote id → p ∈ b.made.plans → p.decl = id →
      Expects b id ⟨.source, Stub.path p, (Stub.render p).contents⟩
  | interfaceManifest {p : Plan} {d : Declaration} : b.table.IsRemote id → p ∈ b.made.plans →
      p.decl = id → b.table.get? id = some d →
      Expects b id ⟨.resource, Manifest.interfacePath d.binaryName, p.factoryQualifiedName⟩
  | classManifest {d : Declaration} : b.table.IsActorClass id d →
      Expects b id ⟨.resource, Manifest.classPath d.binaryName, d.binaryName⟩

/-! ## The sources of a plan -/

theorem path_renderModule {p : Plan} {unit : RenderedUnit}
    (h : Generated.renderModule p = .ok unit) : unit.path = Generated.modulePath p := by
  obtain ⟨_, _, rfl⟩ := Generated.renderModule_eq_ok_iff.mp h
  rfl

/-- The default renderer fails exactly where the module cannot be rendered. -/
theorem default_eq (p : Plan) : Renderer.default p =
    (Generated.renderModule p).map fun unit => [unit, Stub.render p] := by
  unfold Renderer.default Renderer.both Renderer.implementation Renderer.stub
  cases Generated.renderModule p <;> rfl

/-- What the default renderer makes of a plan: its module and its stub. -/
theorem exists_module_of_default {p : Plan} {units : List RenderedUnit}
    (h : Renderer.default p = .ok units) :
    ∃ unit, Generated.renderModule p = .ok unit ∧ units = [unit, Stub.render p] := by
  rw [default_eq] at h
  cases hmodule : Generated.renderModule p with
  | error e =>
    rw [hmodule] at h
    cases h
  | ok unit =>
    rw [hmodule] at h
    exact ⟨unit, rfl, (Except.ok.inj h).symm⟩

theorem mem_sources_iff {p : Plan} {f : OutputFile} : f ∈ p.sources .default ↔
    ∃ unit, Generated.renderModule p = .ok unit ∧
      (f = ⟨.source, Generated.modulePath p, unit.contents⟩ ∨
        f = ⟨.source, Stub.path p, (Stub.render p).contents⟩) := by
  unfold Plan.sources
  rw [default_eq]
  cases h : Generated.renderModule p with
  | error e => simp [Except.map]
  | ok unit =>
    have hpath := path_renderModule h
    simp [Except.map, RenderedUnit.file, hpath, Stub.render]

/-! ## The outputs of a round -/

namespace BuildRound

variable {b : BuildRound} (hplans : b.made.plans = b.table.plans)
include hplans

/-- A remote interface has exactly one plan. -/
theorem exists_plan {id : DeclId} (hsubject : b.table.IsSubject id) (hremote : b.table.IsRemote id) :
    ∃ d p, b.table.get? id = some d ∧ p ∈ b.made.plans ∧ p.IsFor id d := by
  have hid : id ∈ b.table.plans.map (·.decl) := by
    rw [Table.decls_plans]
    exact Table.mem_remotes_iff.mpr ⟨hsubject, hremote⟩
  obtain ⟨p, hp, rfl⟩ := List.mem_map.mp hid
  obtain ⟨d, hd, hfor, _⟩ := Table.isFor_of_mem_plans hp
  exact ⟨d, p, hd, hplans ▸ hp, hfor⟩

/-- What a round without errors adds is what its declarations call for. -/
theorem mem_outputs_iff (hrendered : ∀ p ∈ b.made.plans, ∃ unit, Generated.renderModule p = .ok unit)
    {f : OutputFile} : f ∈ b.table.outputs .default ↔
    ∃ id, b.table.IsSubject id ∧ b.Expects id f := by
  -- every plan is for a subject of the table that is remote
  have hof : ∀ p ∈ b.table.plans, b.table.IsSubject p.decl ∧ b.table.IsRemote p.decl := by
    intro p hp
    rw [← Table.mem_remotes_iff, ← Table.decls_plans]
    exact List.mem_map_of_mem hp
  unfold Table.outputs
  rw [List.mem_append, List.mem_append, List.mem_flatMap, List.mem_map, List.mem_filterMap]
  constructor
  · rintro ((⟨p, hp, hf⟩ | ⟨p, hp, rfl⟩) | ⟨id, hid, hf⟩)
    · obtain ⟨hsubject, hremote⟩ := hof p hp
      obtain ⟨unit, hunit, rfl | rfl⟩ := mem_sources_iff.mp hf
      · exact ⟨_, hsubject, .module hremote (hplans ▸ hp) rfl hunit⟩
      · exact ⟨_, hsubject, .stub hremote (hplans ▸ hp) rfl⟩
    · obtain ⟨hsubject, hremote⟩ := hof p hp
      obtain ⟨d, hd, hfor, _⟩ := Table.isFor_of_mem_plans hp
      refine ⟨_, hsubject, ?_⟩
      rw [Plan.manifest, hfor.binaryName]
      exact .interfaceManifest hremote (hplans ▸ hp) rfl hd
    · obtain ⟨d, hclass, rfl⟩ := Table.classManifest?_eq_some_iff.mp hf
      exact ⟨id, (Table.mem_classes.mp hid).1, .classManifest hclass⟩
  · rintro ⟨id, hsubject, hf⟩
    cases hf with
    | module _ hp _ hunit =>
      exact .inl (.inl ⟨_, hplans ▸ hp, mem_sources_iff.mpr ⟨_, hunit, .inl rfl⟩⟩)
    | stub _ hp _ =>
      -- a stub is written with the module of its plan
      obtain ⟨unit, hunit⟩ := hrendered _ hp
      exact .inl (.inl ⟨_, hplans ▸ hp, mem_sources_iff.mpr ⟨unit, hunit, .inr rfl⟩⟩)
    | interfaceManifest _ hp hdecl hd =>
      obtain ⟨d, hd', hfor, _⟩ := Table.isFor_of_mem_plans (hplans ▸ hp)
      rw [hdecl, hd] at hd'
      cases hd'
      refine .inl (.inr ⟨_, hplans ▸ hp, ?_⟩)
      rw [Plan.manifest, hfor.binaryName]
    | classManifest hclass =>
      have hkind : b.table.isKind id .classType = true := by
        rw [Table.isKind, hclass.1, Option.any_some, hclass.2.1]
        rfl
      exact .inr ⟨id, Table.mem_classes.mpr ⟨hsubject, hkind⟩,
        Table.classManifest?_eq_some_iff.mpr ⟨_, hclass, rfl⟩⟩

end BuildRound

/-! ## The outputs of a build -/

namespace Build

section
variable {renderer : Renderer} {outDir : String}

theorem plans_of_mem_roundsFrom {σ : Type} {filer : Filer σ} {last : Stage} {more : Nat}
    {files : List ParsedFile} {firstNew known : FileId} {s : σ} (hlast : .plan ∈ last.required)
    {b : BuildRound} (hb : b ∈ roundsFrom filer renderer outDir last more files firstNew known s) :
    b.made.plans = b.table.plans := by
  obtain ⟨more', files', firstNew', known', s', rfl⟩ := mem_roundsFrom filer renderer outDir last hb
  rw [made_roundAt, table_roundAt]
  exact plans_processRound filer renderer _ s' hlast

theorem files_roundAt {more : Nat} {files : List ParsedFile} {firstNew known : FileId}
    {o : Outputs} (h : NoErrors (roundAt Outputs.filer renderer outDir .register more files firstNew
      known o).1.made.reports) :
    (roundAt Outputs.filer renderer outDir .register more files firstNew known o).2.files =
      o.files ++ (roundAt Outputs.filer renderer outDir .register more files firstNew known
        o).1.table.outputs renderer ∧
      ∀ p ∈ (roundAt Outputs.filer renderer outDir .register more files firstNew known
        o).1.table.plans, ∃ units, renderer p = .ok units := by
  rw [made_roundAt] at h
  rw [state_roundAt, table_roundAt]
  exact files_processRound h

theorem rendered_of_mem_roundsFrom {more : Nat} {files : List ParsedFile} {firstNew known : FileId}
    {o : Outputs} {b : BuildRound}
    (hb : b ∈ roundsFrom Outputs.filer renderer outDir .register more files firstNew known o)
    (h : NoErrors b.made.reports) : ∀ p ∈ b.table.plans, ∃ units, renderer p = .ok units := by
  obtain ⟨_, _, _, _, _, rfl⟩ := mem_roundsFrom Outputs.filer renderer outDir .register hb
  exact (files_roundAt h).2

/-- Rounds without errors add their outputs one after the other. -/
theorem files_runRounds {more : Nat} {files : List ParsedFile} {firstNew : FileId}
    {c : Compilation} {o : Outputs}
    (h : ∀ b ∈ roundsFrom Outputs.filer renderer outDir .register more files firstNew
      c.sources.length o, NoErrors b.made.reports) :
    (runRounds Outputs.filer renderer outDir .register more files firstNew c o).2.files =
      o.files ++ (roundsFrom Outputs.filer renderer outDir .register more files firstNew
        c.sources.length o).flatMap (·.table.outputs renderer) := by
  induction more generalizing files firstNew c o with
  | zero =>
    rw [runRounds_eq]
    unfold roundsFrom at h ⊢
    dsimp only at h ⊢
    rw [ite_self] at h ⊢
    rw [ite_self, List.flatMap_singleton]
    dsimp only
    exact (files_roundAt (h _ (List.mem_singleton_self _))).1
  | succ more ih =>
    rw [runRounds_eq]
    unfold roundsFrom at h ⊢
    dsimp only at h ⊢
    have hfirst := (files_roundAt (h _ List.mem_cons_self)).1
    split
    · rw [List.flatMap_singleton]
      dsimp only
      exact hfirst
    · -- the first round adds its outputs, the others add theirs behind them
      rename_i hstubs
      rw [if_neg hstubs] at h
      rw [← length_sources_afterRound outDir c] at h ⊢
      rw [ih fun b hb => h b (List.mem_cons_of_mem _ hb), hfirst, List.append_assoc,
        List.flatMap_cons]

end

end Build

/-- A build without errors has written, under every path, what some declaration of a round calls
    for there, and nothing under any other path.  What a declaration calls for exists: every remote
    interface has a plan in its round, and the plan could be rendered. -/
theorem outputs_of_compile {tree : FileTree} {options : BuildOptions} (hemit : options.emit = .all)
    {failing : List String} {c : Compilation} {o : Outputs}
    (h : compile tree options Outputs.filer .default (.empty failing) = (.ok c, o))
    (hok : hasErrors c.diagnostics = false) :
    let bs := Build.rounds tree options Outputs.filer .default (.empty failing)
    (∀ b ∈ bs, ∀ id, b.table.IsSubject id → b.table.IsRemote id →
      ∃ d p unit, b.table.get? id = some d ∧ p ∈ b.made.plans ∧ p.IsFor id d ∧
        Generated.renderModule p = .ok unit) ∧
    ∀ kind path contents, o.get? kind path = some contents ↔
      ∃ b ∈ bs, ∃ id, b.table.IsSubject id ∧ b.Expects id ⟨kind, path, contents⟩ := by
  intro bs
  have hlast : options.emit.lastStage? = some .register := by rw [hemit]; rfl
  obtain ⟨sources, hload, hrun⟩ := Build.compile_eq hlast h
  have hbs : bs = Build.roundsFrom Outputs.filer .default options.outDir .register (maxRounds - 1)
      (Build.parseFiles 0 sources).1 Build.librarySources.length sources.length (.empty failing) :=
    Build.rounds_of_loadInputs hlast hload
  -- no round has reported an error
  have hreports : ∀ b ∈ bs, NoErrors b.made.reports := by
    obtain ⟨_, _, hcollects⟩ := Build.collects_compile hlast h
    have hnone := hasErrors_eq_false_iff.mp hok
    rw [hcollects.diagnostics] at hnone
    intro b hb d hd
    apply hnone d
    refine List.mem_append_right _ (List.mem_flatMap.mpr ⟨b, hb, ?_⟩)
    exact List.mem_append_left _ (List.mem_append_right _ hd)
  have hplans : ∀ b ∈ bs, b.made.plans = b.table.plans := by
    rw [hbs]
    exact fun b hb => Build.plans_of_mem_roundsFrom (by decide) hb
  have hrendered : ∀ b ∈ bs, ∀ p ∈ b.made.plans, ∃ unit, Generated.renderModule p = .ok unit := by
    intro b hb p hp
    rw [hplans b hb] at hp
    have hround := hreports b hb
    rw [hbs] at hb
    obtain ⟨units, hunits⟩ := Build.rendered_of_mem_roundsFrom hb hround p hp
    rw [default_eq] at hunits
    cases hmodule : Generated.renderModule p with
    | ok unit => exact ⟨unit, rfl⟩
    | error e => rw [hmodule] at hunits; cases hunits
  have hfiles : o.files = bs.flatMap (·.table.outputs .default) := by
    have hfiles := @Build.files_runRounds .default options.outDir (maxRounds - 1)
      (Build.parseFiles 0 sources).1 Build.librarySources.length (Build.read sources)
      (.empty failing)
    have hempty : (Outputs.empty failing).files = [] := rfl
    have hsources : (Build.read sources).sources = sources := rfl
    rw [hrun, hempty, hsources, List.nil_append, ← hbs] at hfiles
    exact hfiles hreports
  have hdistinct : o.Distinct := by
    have hdistinct := Build.runRounds_preserves Outputs.filer .default options.outDir .register
      (fun _ _ _ _ => Outputs.distinct_filer) (maxRounds - 1) (Build.parseFiles 0 sources).1
      Build.librarySources.length (Build.read sources) (Outputs.distinct_empty failing)
    rw [hrun] at hdistinct
    exact hdistinct
  -- the outputs of all rounds, each of them once
  refine ⟨fun b hb id hsubject hremote => ?_, fun kind path contents => ?_⟩
  · obtain ⟨d, p, hd, hp, hfor⟩ := BuildRound.exists_plan (hplans b hb) hsubject hremote
    obtain ⟨unit, hunit⟩ := hrendered b hb p hp
    exact ⟨d, p, unit, hd, hp, hfor, hunit⟩
  · rw [Outputs.get?_eq_some_iff hdistinct, hfiles, List.mem_flatMap]
    exact exists_congr fun b => and_congr_right fun hb =>
      BuildRound.mem_outputs_iff (hplans b hb) (hrendered b hb)

/-- An actor interface and an actor class. -/
def workerSource : String := "interface I extends Actor { Task f(int n); } class C implements I;"

/-- The stub of the interface, as it is among the sources of the second round. -/
def workerStub : SourceFile :=
  ⟨"out/src/IFactory.orbit", "// Generated by orbc from I. Do not edit.

@orbit.actors.annotation.Generated
class IReference implements I;

@orbit.actors.annotation.Generated
class IInvoker;

@orbit.actors.annotation.Generated
class IFactory;
", none⟩

/-- The first round of the build. -/
def workerRound : BuildRound × Outputs :=
  Build.roundAt Outputs.filer .default "out" .register 7
    (Build.parseFiles 0 (singleSources workerSource)).1 Build.librarySources.length
    (Build.read (singleSources workerSource)).sources.length (.empty [])

set_option maxRecDepth 10000 in
theorem workerRound_outline :
    (Build.parseFiles 0 (singleSources workerSource)).2 = [] ∧
      workerRound.1.made.stubs.map (Build.stubFile "out") = [workerStub] ∧
      hasErrors (workerRound.1.reports ++ workerRound.1.made.reports) = false ∧
      (workerRound.1.table.remotes.map fun id => (workerRound.1.table.get? id).map (·.binaryName)) =
        [some "I"] ∧
      (workerRound.1.table.roots.any fun id => !workerRound.1.table.isGenerated id &&
        workerRound.1.table.isActorClass id &&
          (workerRound.1.table.get? id).any (·.binaryName == "C")) = true := by
  unfold workerRound
  rw [parseFiles_single (rfl : workerSource = String.ofList _)]
  decide +kernel

/-- The second round, about the stub. -/
def workerStubRound : BuildRound × Outputs :=
  let known := (Build.read (singleSources workerSource)).sources.length
  Build.roundAt Outputs.filer .default "out" .register 6
    ((Build.parseFiles 0 (singleSources workerSource)).1 ++ (Build.parseFiles known [workerStub]).1)
    known (known + [workerStub].length) workerRound.2

set_option maxRecDepth 10000 in
theorem workerStubRound_outline :
    (Build.parseFiles (Build.read (singleSources workerSource)).sources.length
      [workerStub]).2 = [] ∧
      workerStubRound.1.made.stubs = [] ∧
      hasErrors (workerStubRound.1.reports ++ workerStubRound.1.made.reports) = false ∧
      workerStubRound.2.get? .resource (Manifest.classPath "IReference") = none := by
  have hstub : ∀ known, Build.parseFiles known [workerStub] = Build.parseTexts known [_] :=
    fun known => Build.parseFiles_eq_parseTexts known (rfl : _ = [String.ofList _]) (by decide)
  unfold workerStubRound workerRound
  rw [parseFiles_single (rfl : workerSource = String.ofList _)]
  simp only [hstub]
  decide +kernel

/-- The build has these two rounds, and no errors are reported in it. -/
theorem compile_worker :
    ∃ c, compile (.single workerSource) ⟨["A.orbit"], "out", .all⟩ Outputs.filer .default
        (.empty []) = (.ok c, workerStubRound.2) ∧ hasErrors c.diagnostics = false ∧
      Build.rounds (.single workerSource) ⟨["A.orbit"], "out", .all⟩ Outputs.filer .default
        (.empty []) = [workerRound.1, workerStubRound.1] := by
  obtain ⟨hparse, hstubs, hfirst, _, _⟩ := workerRound_outline
  obtain ⟨hparse', hnone, hsecond, _⟩ := workerStubRound_outline
  obtain ⟨hstate, hrounds, hdiagnostics⟩ := Build.runRounds_two Outputs.filer .default "out"
    .register (rfl : _ = workerRound) hstubs (by simp) (rfl : _ = workerStubRound) hnone
  have hbs : Build.rounds (.single workerSource) ⟨["A.orbit"], "out", .all⟩ Outputs.filer .default
      (.empty []) = [workerRound.1, workerStubRound.1] := by
    rw [Build.rounds_of_loadInputs rfl (loadInputs_single workerSource)]
    exact hrounds
  obtain ⟨c, o, hcompile, ho⟩ : ∃ c o, compile (.single workerSource) ⟨["A.orbit"], "out", .all⟩
      Outputs.filer .default (.empty []) = (.ok c, o) ∧ o = workerStubRound.2 := by
    rw [Build.compile_of_loadInputs rfl (loadInputs_single workerSource)]
    exact ⟨_, _, rfl, hstate⟩
  subst ho
  obtain ⟨sources, hload, hcollects⟩ := Build.collects_compile rfl hcompile
  obtain rfl : singleSources workerSource = sources :=
    Except.ok.inj ((loadInputs_single workerSource).symm.trans hload)
  refine ⟨c, hcompile, ?_, hbs⟩
  have hstart : (Build.read (singleSources workerSource)).diagnostics = [] := hparse
  rw [hcollects.diagnostics, hstart, hbs, hdiagnostics, hparse', List.nil_append, List.append_nil]
  rw [hasErrors_eq_false_iff] at hfirst hsecond ⊢
  exact noErrors_append.mpr ⟨hfirst, hsecond⟩

theorem outputs_of_compile_worker :
    ∃ c o, compile (.single workerSource) ⟨["A.orbit"], "out", .all⟩ Outputs.filer .default
        (.empty []) = (.ok c, o) ∧ hasErrors c.diagnostics = false ∧ c.rounds = 2 ∧
      (∃ p unit, p.binaryName = "I" ∧ Generated.renderModule p = .ok unit ∧
        o.get? .source (Generated.modulePath p) = some unit.contents ∧
        o.get? .source (Stub.path p) = some (Stub.render p).contents ∧
        o.get? .resource (Manifest.interfacePath "I") = some p.factoryQualifiedName) ∧
      o.get? .resource (Manifest.classPath "C") = some "C" ∧
      o.get? .resource (Manifest.classPath "IReference") = none := by
  obtain ⟨c, hcompile, hok, hrounds⟩ := compile_worker
  obtain ⟨_, _, _, hremotes, hroots⟩ := workerRound_outline
  obtain ⟨_, _, hcollects⟩ := Build.collects_compile rfl hcompile
  obtain ⟨hplanned, houtputs⟩ := outputs_of_compile rfl hcompile hok
  rw [hrounds] at hplanned houtputs hcollects
  have hmem : workerRound.1 ∈ [workerRound.1, workerStubRound.1] := List.mem_cons_self
  refine ⟨c, _, hcompile, hok, hcollects.rounds, ?_, ?_, workerStubRound_outline.2.2.2⟩
  · -- the interface is the one remote declaration of the first round
    obtain ⟨id, hids, hname⟩ := List.map_eq_singleton_iff.mp hremotes
    have hid : id ∈ workerRound.1.table.remotes := hids ▸ List.mem_cons_self
    obtain ⟨hsubject, hremote⟩ := Table.mem_remotes_iff.mp hid
    obtain ⟨d, p, unit, hd, hp, hfor, hunit⟩ := hplanned _ hmem id hsubject hremote
    rw [hd] at hname
    have hbinary : d.binaryName = "I" := Option.some.inj hname
    refine ⟨p, unit, hfor.binaryName.trans hbinary, hunit, ?_, ?_, ?_⟩
    · exact (houtputs _ _ _).mpr ⟨_, hmem, id, hsubject, .module hremote hp hfor.decl hunit⟩
    · exact (houtputs _ _ _).mpr ⟨_, hmem, id, hsubject, .stub hremote hp hfor.decl⟩
    · rw [← hbinary]
      exact (houtputs _ _ _).mpr
        ⟨_, hmem, id, hsubject, .interfaceManifest hremote hp hfor.decl hd⟩
  · obtain ⟨id, hid, hactor⟩ := List.any_eq_true.mp hroots
    simp only [Bool.and_eq_true, Bool.not_eq_true'] at hactor
    obtain ⟨⟨hgenerated, hactor⟩, hnamed⟩ := hactor
    obtain ⟨d, hd, hname⟩ := Option.any_eq_true _ _ |>.mp hnamed
    have hexpects : workerRound.1.Expects id
        ⟨.resource, Manifest.classPath d.binaryName, d.binaryName⟩ :=
      .classManifest ((Table.isActorClass_iff hd).mp hactor)
    rw [beq_iff_eq.mp hname] at hexpects
    exact (houtputs _ _ _).mpr ⟨_, hmem, id, .root hid hgenerated, hexpects⟩

end ActorIdl
