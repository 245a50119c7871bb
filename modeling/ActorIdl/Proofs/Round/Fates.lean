import ActorIdl.Proofs.Output.Recording
import ActorIdl.Proofs.Round.Loops
import Mathlib.Data.List.Basic
/-! # What becomes of plans and classes

    A round takes up its plans twice, first for their sources and then, if these were all created,
    for their manifests; after that it takes up its classes.  Any output can be refused on the way.
    The fate of a plan says how far the plan got: it could not be rendered, one of its sources was
    refused, or its sources were written and its manifest was created or refused.  The fates of all
    plans and classes, in their order, determine what the round creates, what it lists and what it
    reports.

    What a step of a loop does is told by a fate, so a whole loop is told by a list of fates.  The
    two passes over the plans are told separately, and the fates of the second one are put into
    those of the first. -/

namespace ActorIdl

/-! ## Manifests -/

/-- What becomes of a manifest. -/
inductive ManifestFate where
  | created
  | refused (cause : OutputError)

namespace ManifestFate

/-- The manifest, if it is created. -/
def files (f : OutputFile) : ManifestFate → List OutputFile
  | created => [f]
  | refused _ => []

/-- The report about a manifest that is refused. -/
def reports (t : Table) (id : DeclId) : ManifestFate → List Diagnostic
  | created => []
  | refused cause => [t.reportAt id (.manifestNotWritten cause)]

/-- What a round goes on with: the path of the manifest, or the report. -/
def outcome (t : Table) (id : DeclId) (f : OutputFile) : ManifestFate → Except Diagnostic String
  | created => .ok f.path
  | refused cause => .error (t.reportAt id (.manifestNotWritten cause))

end ManifestFate

/-- What becomes of a class: it has no manifest, or its manifest has a fate. -/
abbrev ClassFate := Option (OutputFile × ManifestFate)

namespace ClassFate

/-- The manifest of the class, if it is created. -/
def files (fate : ClassFate) : List OutputFile := fate.toList.flatMap fun x => x.2.files x.1

/-- The report about the manifest of the class, if it is refused. -/
def reports (t : Table) (id : DeclId) (fate : ClassFate) : List Diagnostic :=
  fate.toList.flatMap fun x => x.2.reports t id

/-- The codes under which the class is reported. -/
def codes : ClassFate → List String
  | none => []
  | some (_, .created) => []
  | some (_, .refused _) => ["E0401"]

/-- What a round goes on with. -/
def outcome (t : Table) (id : DeclId) (fate : ClassFate) : Option (Except Diagnostic String) :=
  fate.map fun x => x.2.outcome t id x.1

theorem codes_reports (t : Table) (id : DeclId) (fate : ClassFate) :
    (fate.reports t id).map (·.cause.code?) = fate.codes.map some := by
  rcases fate with _ | ⟨f, _ | e⟩ <;> rfl

end ClassFate

/-! ## Plans -/

/-- What becomes of a plan.  Something more is known of a plan whose sources were written: in the
    end, what becomes of its manifest. -/
inductive PlanFate (μ : Type) where
  | unrendered (cause : RenderError)
  /-- Some units are created, and then one is refused. -/
  | refused (created : List RenderedUnit) (cause : OutputError)
  | written (units : List RenderedUnit) (manifest : μ)

namespace PlanFate

section
variable {μ : Type}

/-- Whether a plan with this fate is rendered accordingly. -/
def Fits (renderer : Renderer) (p : Plan) : PlanFate μ → Prop
  | unrendered cause => renderer p = .error cause
  | refused created _ => ∃ u rest, renderer p = .ok (created ++ u :: rest)
  | written units _ => renderer p = .ok units

/-- The units that are created. -/
def created : PlanFate μ → List RenderedUnit
  | unrendered _ => []
  | refused created _ => created
  | written units _ => units

/-- The units that the round lists. -/
def listed : PlanFate μ → List RenderedUnit
  | unrendered _ => []
  | refused _ _ => []
  | written units _ => units

/-- What is reported about the sources. -/
def cause (p : Plan) : PlanFate μ → Cause
  | unrendered cause => .notRendered cause
  | refused _ cause => .sourceNotWritten cause
  | written units _ => .generated p.factoryQualifiedName units.length

/-- What a round goes on with. -/
def outcome : PlanFate μ → Except Cause (List RenderedUnit)
  | unrendered cause => .error (.notRendered cause)
  | refused _ cause => .error (.sourceNotWritten cause)
  | written units _ => .ok units

/-- What is known beyond the sources. -/
def manifest? : PlanFate μ → Option μ
  | unrendered _ => none
  | refused _ _ => none
  | written _ manifest => some manifest

/-- The fate with nothing known beyond the sources. -/
def sources : PlanFate μ → PlanFate Unit
  | unrendered cause => .unrendered cause
  | refused created cause => .refused created cause
  | written units _ => .written units ()

@[simp] theorem fits_sources {renderer : Renderer} {p : Plan} {fate : PlanFate μ} :
    fate.sources.Fits renderer p ↔ fate.Fits renderer p := by
  cases fate <;> exact Iff.rfl

@[simp] theorem created_sources (fate : PlanFate μ) : fate.sources.created = fate.created := by
  cases fate <;> rfl

@[simp] theorem outcome_sources (fate : PlanFate μ) : fate.sources.outcome = fate.outcome := by
  cases fate <;> rfl

@[simp] theorem cause_sources (p : Plan) (fate : PlanFate μ) :
    fate.sources.cause p = fate.cause p := by
  cases fate <;> rfl

theorem sourceReports_outcome (t : Table) (p : Plan) (fate : PlanFate μ) :
    Round.sourceReports t (p, fate.outcome) = [t.reportAt p.decl (fate.cause p)] := by
  cases fate <;> rfl

theorem listed_outcome (p : Plan) (fate : PlanFate μ) :
    (Round.written? (p, fate.outcome)).toList.flatMap (·.2) = fate.listed := by
  cases fate with
  | written units m => exact List.append_nil _
  | _ => rfl

theorem map_written?_outcome (p : Plan) (fate : PlanFate μ) :
    (Round.written? (p, fate.outcome)).map (·.1) = fate.manifest?.map fun _ => p := by
  cases fate <;> rfl

end

/-- The manifest of the interface, if it is created. -/
def manifestFiles (p : Plan) (fate : PlanFate ManifestFate) : List OutputFile :=
  fate.manifest?.toList.flatMap (·.files p.manifest)

/-- The report about the manifest of the interface, if it is refused. -/
def manifestReports (t : Table) (p : Plan) (fate : PlanFate ManifestFate) : List Diagnostic :=
  fate.manifest?.toList.flatMap (·.reports t p.decl)

/-- All that is reported about what is written for a plan: what became of its sources, and then
    that its manifest was refused. -/
def reports (t : Table) (p : Plan) (fate : PlanFate ManifestFate) : List Diagnostic :=
  t.reportAt p.decl (fate.cause p) :: fate.manifestReports t p

/-- The codes under which the plan is reported. -/
def codes : PlanFate ManifestFate → List String
  | unrendered _ => ["E0402"]
  | refused _ _ => ["E0401"]
  | written _ .created => ["I0001"]
  | written _ (.refused _) => ["I0001", "E0401"]

theorem codes_reports (t : Table) (p : Plan) (fate : PlanFate ManifestFate) :
    (fate.reports t p).map (·.cause.code?) = fate.codes.map some := by
  rcases fate with e | ⟨created, e⟩ | ⟨units, _ | e⟩ <;> rfl

end PlanFate

/-! ## Loops with a record -/

namespace Round

section
variable {σ : Type} (filer : Filer σ) (renderer : Renderer) (t : Table)

/-- What a step makes of an element, and what it adds to the record, is told by a fate of the
    element. -/
structure Tells {α β φ : Type} (step : α → σ × List OutputFile → β × σ × List OutputFile)
    (Fits : α → φ → Prop) (outcome : α → φ → β) (files : α → φ → List OutputFile) (a : α)
    (s : σ × List OutputFile) (fate : φ) : Prop where
  fits : Fits a fate
  outcome : (step a s).1 = outcome a fate
  files : (step a s).2.2 = s.2 ++ files a fate

theorem Tells.of_eq {α β φ : Type} {step : α → σ × List OutputFile → β × σ × List OutputFile}
    {Fits : α → φ → Prop} {outcome : α → φ → β} {files : α → φ → List OutputFile} {a : α}
    {s s' : σ × List OutputFile} {fate : φ} (hfits : Fits a fate)
    (hstep : step a s = (outcome a fate, s')) (hfiles : s'.2 = s.2 ++ files a fate) :
    Tells step Fits outcome files a s fate where
  fits := hfits
  outcome := congrArg Prod.fst hstep
  files := by
    rw [hstep]
    exact hfiles

/-- If steps are told by fates, a visit is told by the fates of its elements, in their order. -/
theorem visit_told {α β φ : Type} {step : α → σ × List OutputFile → β × σ × List OutputFile}
    {Fits : α → φ → Prop} {outcome : α → φ → β} {files : α → φ → List OutputFile}
    (hstep : ∀ a s, ∃ fate, Tells step Fits outcome files a s fate) (as : List α)
    (s : σ × List OutputFile) :
    ∃ fates : List (α × φ), fates.map (·.1) = as ∧ (∀ x ∈ fates, Fits x.1 x.2) ∧
      (visit step as s).1 = fates.map (fun x => (x.1, outcome x.1 x.2)) ∧
      (visit step as s).2.2 = s.2 ++ fates.flatMap fun x => files x.1 x.2 := by
  -- on the elements: each goes on with the record that those before it have left
  induction as generalizing s with
  | nil => exact ⟨[], rfl, fun x hx => absurd hx List.not_mem_nil, rfl, (List.append_nil _).symm⟩
  | cons a as ih =>
    obtain ⟨fate, hfits, houtcome, hfiles⟩ := hstep a s
    obtain ⟨fates, helements, hall, houtcomes, hrecord⟩ := ih (step a s).2
    refine ⟨(a, fate) :: fates, ?_, List.forall_mem_cons.mpr ⟨hfits, hall⟩, ?_, ?_⟩
    · rw [List.map_cons, helements]
    · rw [visit, houtcome, houtcomes]
      rfl
    · rw [visit, List.flatMap_cons, ← List.append_assoc, ← hfiles]
      exact hrecord

/-- The units of a plan are created one after the other, all of them or up to one that is
    refused. -/
theorem createUnits_told (us : List RenderedUnit) (s : σ × List OutputFile) :
    ((createUnits filer.recording us s).1 = .ok () ∧
        (createUnits filer.recording us s).2.2 = s.2 ++ us.map (·.file)) ∨
      ∃ created u rest cause, us = created ++ u :: rest ∧
        (createUnits filer.recording us s).1 = .error cause ∧
        (createUnits filer.recording us s).2.2 = s.2 ++ created.map (·.file) := by
  -- on the units: the first one that is refused ends them
  induction us generalizing s with
  | nil => exact .inl ⟨rfl, (List.append_nil _).symm⟩
  | cons u us ih =>
    unfold createUnits
    rcases Filer.recording_cases filer u.file s.1 s.2 with
      ⟨s', _, hrecorded⟩ | ⟨e, s', _, hrecorded⟩
    · rw [show filer.recording .source u.path u.contents s = _ from hrecorded]
      dsimp only
      rcases ih (s', s.2 ++ [u.file]) with ⟨hok, hlog⟩ | ⟨created, v, rest, e, rfl, herror, hlog⟩
      · exact .inl ⟨hok, hlog.trans (List.append_assoc _ _ _)⟩
      · exact .inr ⟨u :: created, v, rest, e, rfl, herror, hlog.trans (List.append_assoc _ _ _)⟩
    · rw [show filer.recording .source u.path u.contents s = _ from hrecorded]
      exact .inr ⟨[], u, us, e, rfl, rfl, (List.append_nil _).symm⟩

theorem writePlan_told (p : Plan) (s : σ × List OutputFile) : ∃ fate : PlanFate Unit,
    Tells (writePlan filer.recording renderer) (fun p fate => fate.Fits renderer p)
      (fun _ fate => fate.outcome) (fun _ fate => fate.created.map (·.file)) p s fate := by
  cases hrender : renderer p with
  | error e =>
    have hwrite : writePlan filer.recording renderer p s = (.error (.notRendered e), s) := by
      rw [writePlan, hrender]
    exact ⟨.unrendered e, .of_eq hrender hwrite (List.append_nil _).symm⟩
  | ok units =>
    -- the units are all written, or one of them is the first that is refused
    have htold := createUnits_told filer units s
    cases hcreate : createUnits filer.recording units s with
    | mk outcome s' =>
      rw [hcreate] at htold
      rcases htold with ⟨rfl, hlog⟩ | ⟨created, u, rest, e, rfl, rfl, hlog⟩
      · have hwrite : writePlan filer.recording renderer p s = (.ok units, s') := by
          rw [writePlan, hrender]
          dsimp only
          rw [hcreate]
        exact ⟨.written units (), .of_eq hrender hwrite hlog⟩
      · have hwrite : writePlan filer.recording renderer p s =
            (.error (.sourceNotWritten e), s') := by
          rw [writePlan, hrender]
          dsimp only
          rw [hcreate]
        exact ⟨.refused created e, .of_eq ⟨u, rest, hrender⟩ hwrite hlog⟩

theorem write_told (id : DeclId) {f : OutputFile} (hkind : f.kind = .resource)
    (s : σ × List OutputFile) : ∃ fate : ManifestFate,
      (Manifest.write filer.recording t id f.path f.contents s).1 = fate.outcome t id f ∧
        (Manifest.write filer.recording t id f.path f.contents s).2.2 = s.2 ++ fate.files f := by
  unfold Manifest.write
  rw [← hkind]
  rcases Filer.recording_cases filer f s.1 s.2 with ⟨s', _, hrecorded⟩ | ⟨e, s', _, hrecorded⟩
  · rw [show filer.recording f.kind f.path f.contents s = _ from hrecorded]
    exact ⟨.created, rfl, rfl⟩
  · rw [show filer.recording f.kind f.path f.contents s = _ from hrecorded]
    exact ⟨.refused e, rfl, (List.append_nil _).symm⟩

theorem registerInterface_told (p : Plan) (s : σ × List OutputFile) : ∃ fate : ManifestFate,
    Tells (Manifest.registerInterface filer.recording t) (fun _ _ => True)
      (fun p fate => fate.outcome t p.decl p.manifest) (fun p fate => fate.files p.manifest) p s
      fate := by
  obtain ⟨fate, houtcome, hfiles⟩ := write_told filer t p.decl (f := p.manifest) rfl s
  exact ⟨fate, trivial, houtcome, hfiles⟩

theorem registerClass_told (id : DeclId) (s : σ × List OutputFile) : ∃ fate : ClassFate,
    Tells (Manifest.registerClass filer.recording t)
      (fun id fate => fate.map (·.1) = t.classManifest? id)
      (fun id fate => fate.outcome t id) (fun _ fate => fate.files) id s fate := by
  cases hd : t.get? id with
  | none =>
    have hnone : t.classManifest? id = none := by
      rw [Table.classManifest?, hd, Option.map_none, ite_self]
    have hregister : Manifest.registerClass filer.recording t id s = (none, s) := by
      rw [Manifest.registerClass, hd]
    exact ⟨none, .of_eq hnone.symm hregister (List.append_nil _).symm⟩
  | some d =>
    by_cases hactor : t.isActorClass id = true
    · have hsome := Table.classManifest?_of_isActorClass hd hactor
      obtain ⟨fate, houtcome, hfiles⟩ := write_told filer t id
        (f := ⟨.resource, Manifest.classPath d.binaryName, d.binaryName⟩) rfl s
      refine ⟨some (_, fate), hsome.symm, ?_, ?_⟩
      · rw [Manifest.registerClass, hd]
        dsimp only
        rw [if_pos hactor]
        exact congrArg some houtcome
      · rw [Manifest.registerClass, hd]
        dsimp only
        rw [if_pos hactor]
        exact hfiles.trans (congrArg _ (List.append_nil _).symm)
    · -- nothing is asked of the filer
      have hnone : t.classManifest? id = none := by
        rw [Table.classManifest?, if_neg hactor]
      have hregister : Manifest.registerClass filer.recording t id s = (none, s) := by
        rw [Manifest.registerClass, hd]
        dsimp only
        rw [if_neg hactor]
      exact ⟨none, .of_eq hnone.symm hregister (List.append_nil _).symm⟩

/-! ## The three passes -/

theorem writePlans_told (ps : List Plan) (s : σ × List OutputFile) :
    ∃ fates : List (Plan × PlanFate Unit), fates.map (·.1) = ps ∧
      (∀ x ∈ fates, x.2.Fits renderer x.1) ∧
      (writePlans filer.recording renderer t ps s).1.1 =
        fates.filterMap (fun x => written? (x.1, x.2.outcome)) ∧
      (writePlans filer.recording renderer t ps s).1.2 =
        fates.map (fun x => t.reportAt x.1.decl (x.2.cause x.1)) ∧
      (writePlans filer.recording renderer t ps s).2.2 =
        s.2 ++ fates.flatMap fun x => x.2.created.map (·.file) := by
  obtain ⟨fates, hplans, hfits, houtcomes, hrecord⟩ :=
    visit_told (writePlan_told filer renderer) ps s
  rw [writePlans_eq_visit]
  dsimp only
  rw [houtcomes, List.filterMap_map, List.flatMap_map]
  refine ⟨fates, hplans, hfits, rfl, ?_, hrecord⟩
  simp only [PlanFate.sourceReports_outcome]
  exact List.map_eq_flatMap.symm

theorem registerInterfaces_told (ps : List Plan) (s : σ × List OutputFile) :
    ∃ fates : List (Plan × ManifestFate), fates.map (·.1) = ps ∧
      (registerInterfaces filer.recording t ps s).1.1 =
        (fates.flatMap fun x => x.2.files x.1.manifest).map (·.path) ∧
      (registerInterfaces filer.recording t ps s).1.2 =
        (fates.flatMap fun x => x.2.reports t x.1.decl) ∧
      (registerInterfaces filer.recording t ps s).2.2 =
        s.2 ++ fates.flatMap fun x => x.2.files x.1.manifest := by
  obtain ⟨fates, hplans, _, houtcomes, hrecord⟩ := visit_told (registerInterface_told filer t) ps s
  have hpath : ∀ x : Plan × ManifestFate,
      (manifestPath? (x.1, x.2.outcome t x.1.decl x.1.manifest)).toList =
        (x.2.files x.1.manifest).map (·.path) := by
    rintro ⟨p, fate⟩
    cases fate <;> rfl
  have hreports : ∀ x : Plan × ManifestFate,
      manifestReports (x.1, x.2.outcome t x.1.decl x.1.manifest) = x.2.reports t x.1.decl := by
    rintro ⟨p, fate⟩
    cases fate <;> rfl
  rw [registerInterfaces_eq_visit]
  dsimp only
  rw [houtcomes, List.filterMap_map, List.flatMap_map, List.filterMap_eq_flatMap_toList]
  refine ⟨fates, hplans, ?_, ?_, hrecord⟩
  · simp only [Function.comp_apply, hpath, List.map_flatMap]
  · simp only [hreports]

theorem registerClasses_told (ids : List DeclId) (s : σ × List OutputFile) :
    ∃ fates : List (DeclId × ClassFate), fates.map (·.1) = ids ∧
      (∀ x ∈ fates, x.2.map (·.1) = t.classManifest? x.1) ∧
      (registerClasses filer.recording t ids s).1.1 =
        (fates.flatMap fun x => x.2.files).map (·.path) ∧
      (registerClasses filer.recording t ids s).1.2 =
        (fates.flatMap fun x => x.2.reports t x.1) ∧
      (registerClasses filer.recording t ids s).2.2 = s.2 ++ fates.flatMap fun x => x.2.files := by
  obtain ⟨fates, hids, hfits, houtcomes, hrecord⟩ := visit_told (registerClass_told filer t) ids s
  have hpath : ∀ x : DeclId × ClassFate,
      (classPath? (x.1, x.2.outcome t x.1)).toList = x.2.files.map (·.path) := by
    rintro ⟨id, _ | ⟨f, _ | e⟩⟩ <;> rfl
  have hreports : ∀ x : DeclId × ClassFate,
      classReports (x.1, x.2.outcome t x.1) = x.2.reports t x.1 := by
    rintro ⟨id, _ | ⟨f, _ | e⟩⟩ <;> rfl
  rw [registerClasses_eq_visit]
  dsimp only
  rw [houtcomes, List.filterMap_map, List.flatMap_map, List.filterMap_eq_flatMap_toList]
  refine ⟨fates, hids, hfits, ?_, ?_, hrecord⟩
  · simp only [Function.comp_apply, hpath, List.map_flatMap]
  · simp only [hreports]

end

/-- What the second pass over the plans finds out is put into the fates that the first one has
    left, at the plans whose sources were written. -/
theorem exists_fates (sources : List (Plan × PlanFate Unit)) (manifests : List (Plan × ManifestFate))
    (h : manifests.map (·.1) = sources.filterMap fun x => x.2.manifest?.map fun _ => x.1) :
    ∃ fates : List (Plan × PlanFate ManifestFate),
      fates.map (fun x => (x.1, x.2.sources)) = sources ∧
        fates.filterMap (fun x => x.2.manifest?.map fun m => (x.1, m)) = manifests := by
  induction sources generalizing manifests with
  | nil =>
    obtain rfl := List.map_eq_nil_iff.mp h
    exact ⟨[], rfl, rfl⟩
  | cons x sources ih =>
    obtain ⟨p, fate⟩ := x
    cases fate with
    | unrendered e =>
      obtain ⟨fates, hsources, hmanifests⟩ := ih manifests h
      exact ⟨(p, .unrendered e) :: fates, congrArg (List.cons _) hsources, hmanifests⟩
    | refused created e =>
      obtain ⟨fates, hsources, hmanifests⟩ := ih manifests h
      exact ⟨(p, .refused created e) :: fates, congrArg (List.cons _) hsources, hmanifests⟩
    | written units _ =>
      -- the next manifest is that of this plan
      cases manifests with
      | nil => cases h
      | cons y manifests =>
        obtain ⟨q, m⟩ := y
        obtain ⟨rfl, hrest⟩ := List.cons.inj h
        obtain ⟨fates, hsources, hmanifests⟩ := ih manifests hrest
        exact ⟨(_, .written units m) :: fates, congrArg (List.cons _) hsources,
          congrArg (List.cons _) hmanifests⟩

/-- Both passes over the plans. -/
theorem plans_told {σ : Type} (filer : Filer σ) (renderer : Renderer) (t : Table) (ps : List Plan)
    (s : σ × List OutputFile) :
    let sources := writePlans filer.recording renderer t ps s
    let interfaces := registerInterfaces filer.recording t (sources.1.1.map (·.1)) sources.2
    ∃ fates : List (Plan × PlanFate ManifestFate), fates.map (·.1) = ps ∧
      (∀ x ∈ fates, x.2.Fits renderer x.1) ∧
      sources.1.1 = fates.filterMap (fun x => written? (x.1, x.2.outcome)) ∧
      sources.1.2 = fates.map (fun x => t.reportAt x.1.decl (x.2.cause x.1)) ∧
      interfaces.1.1 = (fates.flatMap fun x => x.2.manifestFiles x.1).map (·.path) ∧
      interfaces.1.2 = (fates.flatMap fun x => x.2.manifestReports t x.1) ∧
      interfaces.2.2 = s.2 ++ (fates.flatMap fun x => x.2.created.map (·.file)) ++
        fates.flatMap fun x => x.2.manifestFiles x.1 := by
  dsimp only
  obtain ⟨sources, hplans, hfits, hwritten, hsourceReports, hsourceRecord⟩ :=
    writePlans_told filer renderer t ps s
  generalize writePlans filer.recording renderer t ps s = first at *
  obtain ⟨manifests, hmanifestPlans, hpaths, hmanifestReports, hmanifestRecord⟩ :=
    registerInterfaces_told filer t (first.1.1.map (·.1)) first.2
  generalize registerInterfaces filer.recording t (first.1.1.map (·.1)) first.2 = second at *
  -- the plans of the second pass are those that the first one has written
  rw [hwritten, List.map_filterMap] at hmanifestPlans
  simp only [PlanFate.map_written?_outcome] at hmanifestPlans
  obtain ⟨fates, rfl, rfl⟩ := exists_fates sources manifests hmanifestPlans
  -- what was found out about some plans, said of all of them
  have hmanifests : ∀ {β : Type} (f : Plan × ManifestFate → List β),
      (fates.filterMap fun x => x.2.manifest?.map fun m => (x.1, m)).flatMap f =
        fates.flatMap fun x => x.2.manifest?.toList.flatMap fun m => f (x.1, m) := by
    intro β f
    rw [List.filterMap_eq_flatMap_toList, List.flatMap_assoc]
    refine List.flatMap_congr fun x _ => ?_
    cases x.2.manifest? <;> rfl
  rw [hmanifests] at hpaths hmanifestReports hmanifestRecord
  rw [List.map_map] at hplans hsourceReports
  rw [List.filterMap_map] at hwritten
  rw [List.flatMap_map] at hsourceRecord
  refine ⟨fates, hplans, ?_, ?_, ?_, hpaths, hmanifestReports, ?_⟩
  · intro x hx
    exact PlanFate.fits_sources.mp (hfits _ (List.mem_map_of_mem hx))
  · rw [hwritten]
    simp only [Function.comp_def, PlanFate.outcome_sources]
  · rw [hsourceReports]
    simp only [Function.comp_def, PlanFate.cause_sources]
  · rw [hmanifestRecord, hsourceRecord]
    simp only [PlanFate.created_sources]
    rfl

/-! ## Accounts -/

/-- The fates of all plans and classes account for a round that keeps a record: for what it has
    created, for what it lists, and for what it reports when its plans are made. -/
structure Accounts (renderer : Renderer) (t : Table) (round : Round) (log : List OutputFile)
    (fates : List (Plan × PlanFate ManifestFate)) (classes : List (DeclId × ClassFate)) : Prop where
  plans : fates.map (·.1) = t.plans
  fits : ∀ x ∈ fates, x.2.Fits renderer x.1
  candidates : classes.map (·.1) = t.candidates.classes
  manifest : ∀ x ∈ classes, x.2.map (·.1) = t.classManifest? x.1
  created : log = (fates.flatMap fun x => x.2.created.map (·.file)) ++
    (fates.flatMap fun x => x.2.manifestFiles x.1) ++ classes.flatMap fun x => x.2.files
  written : round.written = fates.filterMap fun x => written? (x.1, x.2.outcome)
  generated : round.generated = fates.flatMap fun x => x.2.listed.map (·.path)
  stubs : round.stubs = fates.flatMap fun x => x.2.listed.filter (·.kind == .declarationStub)
  manifests : round.manifests = (log.filter (·.kind == .resource)).map (·.path)
  reports : round.reports = (planned t).reports ++
    fates.map (fun x => t.reportAt x.1.decl (x.2.cause x.1)) ++
    (fates.flatMap fun x => x.2.manifestReports t x.1) ++
    classes.flatMap fun x => x.2.reports t x.1

end Round

/-! ## Sources and manifests in the record -/

/-- Outputs of one kind are all of that kind and none of another one. -/
theorem filter_kind {kind : OutputKind} {fs : List OutputFile} (h : ∀ f ∈ fs, f.kind = kind)
    (other : OutputKind) : fs.filter (·.kind == other) = if kind = other then fs else [] := by
  split
  · rename_i heq
    exact List.filter_eq_self.mpr fun f hf => beq_iff_eq.mpr ((h f hf).trans heq)
  · rename_i hne
    exact List.filter_eq_nil_iff.mpr fun f hf heq => hne ((h f hf).symm.trans (beq_iff_eq.mp heq))

theorem kind_of_mem_sources {fates : List (Plan × PlanFate ManifestFate)} {f : OutputFile}
    (hf : f ∈ fates.flatMap fun x => x.2.created.map (·.file)) : f.kind = .source := by
  obtain ⟨x, _, hf⟩ := List.mem_flatMap.mp hf
  obtain ⟨u, _, rfl⟩ := List.mem_map.mp hf
  rfl

theorem kind_of_mem_manifests {fates : List (Plan × PlanFate ManifestFate)} {f : OutputFile}
    (hf : f ∈ fates.flatMap fun x => x.2.manifestFiles x.1) : f.kind = .resource := by
  obtain ⟨x, _, hf⟩ := List.mem_flatMap.mp hf
  obtain ⟨m, _, hf⟩ := List.mem_flatMap.mp hf
  cases m with
  | created =>
    rw [List.mem_singleton.mp hf]
    rfl
  | refused e => cases hf

theorem kind_of_mem_classManifests {t : Table} {classes : List (DeclId × ClassFate)}
    (hclasses : ∀ x ∈ classes, x.2.map (·.1) = t.classManifest? x.1) {f : OutputFile}
    (hf : f ∈ classes.flatMap fun x => x.2.files) : f.kind = .resource := by
  obtain ⟨⟨id, fate⟩, hx, hf⟩ := List.mem_flatMap.mp hf
  obtain ⟨⟨g, m⟩, hm, hf⟩ := List.mem_flatMap.mp hf
  have hmanifest := hclasses _ hx
  dsimp only at hm hmanifest
  rw [Option.mem_toList.mp hm] at hmanifest
  cases m with
  | created =>
    rw [List.mem_singleton.mp hf]
    exact Table.kind_of_classManifest? hmanifest.symm
  | refused e => cases hf

/-! ## Rounds -/

section
variable {σ : Type} (filer : Filer σ) (renderer : Renderer) (t : Table) (s : σ)

/-- To keep a record changes nothing of a round. -/
theorem processRound_recording :
    (processRound filer.recording renderer t .register (s, [])).1 =
        (processRound filer renderer t .register s).1 ∧
      (processRound filer.recording renderer t .register (s, [])).2.1 =
        (processRound filer renderer t .register s).2 := by
  have hagrees : ∀ f, filer.recording.Agrees filer (fun r s => r.1 = s) f := by
    rintro f ⟨s, log⟩ _ rfl
    dsimp only
    rcases Filer.recording_cases filer f s log with
      ⟨s', hcreated, hrecorded⟩ | ⟨e, s', hrefused, hrecorded⟩
    · rw [hcreated, hrecorded]
      exact ⟨rfl, rfl⟩
    · rw [hrefused, hrecorded]
      exact ⟨rfl, rfl⟩
  obtain ⟨hmade, hstate⟩ := processRound_agrees (R := fun r s => r.1 = s) (s := (s, []))
    rfl renderer t .register hagrees
  exact ⟨hmade, hstate⟩

/-- Every round, whatever its filer refuses, is accounted for by fates. -/
theorem exists_accounts :
    ∃ fates classes, Round.Accounts renderer t
      (processRound filer renderer t .register s).1
      (processRound filer.recording renderer t .register (s, [])).2.2 fates classes := by
  rw [← (processRound_recording filer renderer t s).1, processRound_eq]
  dsimp only
  obtain ⟨fates, hplans, hfits, hwritten, hsourceReports, hpaths, hmanifestReports, hrecord⟩ :=
    Round.plans_told filer renderer t t.plans (s, [])
  generalize Round.writePlans filer.recording renderer t t.plans (s, []) = first at *
  generalize Round.registerInterfaces filer.recording t (first.1.1.map (·.1)) first.2 = second at *
  obtain ⟨classes, hids, hclasses, hmore, hclassReports, hclassRecord⟩ :=
    Round.registerClasses_told filer t t.candidates.classes second.2
  generalize Round.registerClasses filer.recording t t.candidates.classes second.2 = third at *
  rw [List.nil_append] at hrecord
  have hunits : first.1.1.flatMap (·.2) = fates.flatMap fun x => x.2.listed := by
    rw [hwritten, List.filterMap_eq_flatMap_toList, List.flatMap_assoc]
    simp only [PlanFate.listed_outcome]
  refine ⟨fates, classes, hplans, hfits, hids, hclasses, ?_, hwritten, ?_, ?_, ?_, ?_⟩
  · rw [hclassRecord, hrecord]
  · rw [Round.generated, Round.units, hunits, List.map_flatMap]
  · rw [Round.stubs, Round.units, hunits, List.filter_flatMap]
  · -- the sources come first, and the others are all manifests
    rw [hclassRecord, hrecord, List.filter_append, List.filter_append,
      filter_kind (fun f => kind_of_mem_sources), filter_kind (fun f => kind_of_mem_manifests),
      filter_kind (fun f => kind_of_mem_classManifests hclasses), if_neg (by decide), if_pos rfl,
      if_pos rfl, List.nil_append, List.map_append, hpaths, hmore]
  · rw [hsourceReports, hmanifestReports, hclassReports]

end

end ActorIdl
