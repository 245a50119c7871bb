import ActorIdl.Proofs.Output.Memory
import ActorIdl.Proofs.Round.Planning
/-! # What a round writes

    A round without errors writes exactly the outputs that its table calls for: the sources of every
    plan, the manifest of every plan and the manifest of every actor class among the candidates.
    Each of the loops over plans and classes either adds the outputs of its element or reports an
    error about it, so a loop without an error has added all of them. -/

namespace ActorIdl

/-! ## Reports without errors -/

/-- No report is an error. -/
def NoErrors (ds : List Diagnostic) : Prop := ∀ d ∈ ds, d.isError = false

theorem hasErrors_eq_false_iff {ds : List Diagnostic} : hasErrors ds = false ↔ NoErrors ds := by
  unfold hasErrors NoErrors
  simp

theorem noErrors_append {ds es : List Diagnostic} :
    NoErrors (ds ++ es) ↔ NoErrors ds ∧ NoErrors es :=
  List.forall_mem_append

theorem noErrors_cons {d : Diagnostic} {ds : List Diagnostic} :
    NoErrors (d :: ds) ↔ d.isError = false ∧ NoErrors ds :=
  List.forall_mem_cons

/-! ## The outputs that a table calls for -/

/-- A rendered unit as an output. -/
def RenderedUnit.file (u : RenderedUnit) : OutputFile := ⟨.source, u.path, u.contents⟩

/-- The sources of a plan; none if it cannot be rendered. -/
def Plan.sources (renderer : Renderer) (p : Plan) : List OutputFile :=
  match renderer p with
  | .ok units => units.map (·.file)
  | .error _ => []

/-- The manifest of the interface of a plan. -/
def Plan.manifest (p : Plan) : OutputFile :=
  ⟨.resource, Manifest.interfacePath p.binaryName, p.factoryQualifiedName⟩

namespace Table

/-- The manifest of a class, if its instances are actors. -/
def classManifest? (t : Table) (id : DeclId) : Option OutputFile :=
  if t.isActorClass id then
    (t.get? id).map fun d => ⟨.resource, Manifest.classPath d.binaryName, d.binaryName⟩
  else none

/-- A class that is not abstract, with the actor marker above it. -/
def IsActorClass (t : Table) (id : DeclId) (d : Declaration) : Prop :=
  t.get? id = some d ∧ d.kind = .classType ∧ d.isAbstract = false ∧
    t.reaches id Library.actor = true

theorem isActorClass_iff {t : Table} {id : DeclId} {d : Declaration} (hd : t.get? id = some d) :
    t.isActorClass id = true ↔ t.IsActorClass id d := by
  unfold isActorClass IsActorClass
  rw [hd, Option.any_some, Bool.and_eq_true, Bool.and_eq_true, decide_eq_true_eq,
    Bool.not_eq_true', and_assoc]
  exact (and_iff_right rfl).symm

theorem classManifest?_eq_some_iff {t : Table} {id : DeclId} {f : OutputFile} :
    t.classManifest? id = some f ↔ ∃ d, t.IsActorClass id d ∧
      f = ⟨.resource, Manifest.classPath d.binaryName, d.binaryName⟩ := by
  unfold classManifest?
  constructor
  · intro h
    split at h
    · rename_i hclass
      obtain ⟨d, hd, rfl⟩ := Option.map_eq_some_iff.mp h
      exact ⟨d, (isActorClass_iff hd).mp hclass, rfl⟩
    · cases h
  · rintro ⟨d, hclass, rfl⟩
    rw [if_pos ((isActorClass_iff hclass.1).mpr hclass), hclass.1]
    rfl

theorem classManifest?_of_isActorClass {t : Table} {id : DeclId} {d : Declaration}
    (hd : t.get? id = some d) (hactor : t.isActorClass id = true) :
    t.classManifest? id = some ⟨.resource, Manifest.classPath d.binaryName, d.binaryName⟩ :=
  classManifest?_eq_some_iff.mpr ⟨d, (isActorClass_iff hd).mp hactor, rfl⟩

theorem kind_of_classManifest? {t : Table} {id : DeclId} {f : OutputFile}
    (h : t.classManifest? id = some f) : f.kind = .resource := by
  obtain ⟨d, _, rfl⟩ := classManifest?_eq_some_iff.mp h
  rfl

/-- All outputs of a round over the table. -/
def outputs (renderer : Renderer) (t : Table) : List OutputFile :=
  t.plans.flatMap (·.sources renderer) ++ t.plans.map (·.manifest) ++
    t.candidates.classes.filterMap t.classManifest?

end Table

namespace Round

variable {renderer : Renderer} {t : Table}

/-! ## Sources -/

theorem files_of_createUnits_ok {us : List RenderedUnit} {o o' : Outputs}
    (h : createUnits Outputs.filer us o = (.ok (), o')) :
    o'.files = o.files ++ us.map (·.file) := by
  induction us generalizing o with
  | nil =>
    cases h
    exact (List.append_nil _).symm
  | cons u us ih =>
    unfold createUnits at h
    split at h
    · rename_i o₁ hfirst
      rw [ih h, Outputs.files_of_filer_ok hfirst, List.append_assoc]
      rfl
    · cases h

theorem files_of_writePlan_ok {p : Plan} {units : List RenderedUnit} {o o' : Outputs}
    (h : writePlan Outputs.filer renderer p o = (.ok units, o')) :
    renderer p = .ok units ∧ o'.files = o.files ++ p.sources renderer := by
  unfold writePlan at h
  split at h
  · cases h
  · rename_i units' hrender
    split at h
    · cases h
    · rename_i hcreate
      cases h
      refine ⟨hrender, ?_⟩
      rw [files_of_createUnits_ok hcreate, Plan.sources, hrender]

theorem severity_of_writePlan_error {σ : Type} {filer : Filer σ} {p : Plan} {cause : Cause}
    {s s' : σ} (h : writePlan filer renderer p s = (.error cause, s')) :
    cause.severity = .error := by
  rcases cause_of_writePlan (congrArg Prod.fst h) with ⟨e, rfl⟩ | ⟨e, rfl⟩
  · rfl
  · rfl

/-- Without an error all plans are written. -/
theorem files_writePlans {ps : List Plan} {o : Outputs}
    (h : NoErrors (writePlans Outputs.filer renderer t ps o).1.2) :
    (writePlans Outputs.filer renderer t ps o).2.files =
        o.files ++ ps.flatMap (·.sources renderer) ∧
      (writePlans Outputs.filer renderer t ps o).1.1.map (·.1) = ps ∧
      ∀ p ∈ ps, ∃ units, renderer p = .ok units := by
  induction ps generalizing o with
  | nil => exact ⟨(List.append_nil _).symm, rfl, fun p hp => absurd hp List.not_mem_nil⟩
  | cons p ps ih =>
    unfold writePlans at h ⊢
    cases hp : writePlan Outputs.filer renderer p o with
    | mk outcome o₁ =>
      rw [hp] at h
      cases outcome with
      | error cause =>
        -- the report about the plan is an error
        have herror : (t.reportAt p.decl cause).isError = false := (noErrors_cons.mp h).1
        rw [Diagnostic.isError, Table.reportAt, severity_of_writePlan_error hp] at herror
        exact absurd herror (by decide)
      | ok units =>
        obtain ⟨hrender, hfiles⟩ := files_of_writePlan_ok hp
        obtain ⟨hfiles', hwritten, hall⟩ := ih (noErrors_cons.mp h).2
        refine ⟨?_, ?_, ?_⟩
        · dsimp only
          rw [hfiles', hfiles, List.append_assoc]
          rfl
        · dsimp only
          rw [List.map_cons, hwritten]
        · exact List.forall_mem_cons.mpr ⟨⟨units, hrender⟩, hall⟩

/-! ## Manifests -/

theorem write_cases (id : DeclId) (path contents : String) (o : Outputs) :
    (∃ d o', Manifest.write Outputs.filer t id path contents o = (.error d, o') ∧
        d.isError = true) ∨
      ∃ o', Manifest.write Outputs.filer t id path contents o = (.ok path, o') ∧
        o'.files = o.files ++ [⟨.resource, path, contents⟩] := by
  unfold Manifest.write
  split
  · rename_i hwrite
    exact .inr ⟨_, rfl, Outputs.files_of_filer_ok hwrite⟩
  · exact .inl ⟨_, _, rfl, rfl⟩

theorem files_registerInterfaces {ps : List Plan} {o : Outputs}
    (h : NoErrors (registerInterfaces Outputs.filer t ps o).1.2) :
    (registerInterfaces Outputs.filer t ps o).2.files = o.files ++ ps.map (·.manifest) := by
  induction ps generalizing o with
  | nil => exact (List.append_nil _).symm
  | cons p ps ih =>
    unfold registerInterfaces Manifest.registerInterface at h ⊢
    rcases write_cases (t := t) p.decl (Manifest.interfacePath p.binaryName)
      p.factoryQualifiedName o with ⟨d, o₁, hwrite, hd⟩ | ⟨o₁, hwrite, hfiles⟩
    · -- a failed write is reported
      rw [hwrite] at h
      have herror := (noErrors_cons.mp h).1
      rw [hd] at herror
      cases herror
    · rw [hwrite] at h ⊢
      dsimp only at h ⊢
      rw [ih h, hfiles, List.append_assoc]
      rfl

theorem files_registerClasses {ids : List DeclId} {o : Outputs}
    (h : NoErrors (registerClasses Outputs.filer t ids o).1.2) :
    (registerClasses Outputs.filer t ids o).2.files = o.files ++ ids.filterMap t.classManifest? := by
  induction ids generalizing o with
  | nil => exact (List.append_nil _).symm
  | cons id ids ih =>
    unfold registerClasses Manifest.registerClass at h ⊢
    rw [List.filterMap_cons, Table.classManifest?]
    cases hd : t.get? id with
    | none =>
      -- what is not declared has no manifest
      rw [hd] at h
      simp only [Option.map_none, ite_self]
      exact ih h
    | some d =>
      rw [hd] at h
      by_cases hactor : t.isActorClass id = true
      · simp only [if_pos hactor, Option.map_some] at h ⊢
        rcases write_cases (t := t) id (Manifest.classPath d.binaryName) d.binaryName o with
          ⟨d', o₁, hwrite, hd'⟩ | ⟨o₁, hwrite, hfiles⟩
        · rw [hwrite] at h
          have herror := (noErrors_cons.mp h).1
          rw [hd'] at herror
          cases herror
        · rw [hwrite] at h ⊢
          dsimp only at h ⊢
          rw [ih h, hfiles, List.append_assoc]
          rfl
      · simp only [if_neg hactor] at h ⊢
        exact ih h

end Round

/-! ## A whole round -/

/-- A round without errors renders every plan and adds the outputs of its table to those that are
    there. -/
theorem files_processRound {renderer : Renderer} {t : Table} {o : Outputs}
    (h : NoErrors (processRound Outputs.filer renderer t .register o).1.reports) :
    (processRound Outputs.filer renderer t .register o).2.files = o.files ++ t.outputs renderer ∧
      ∀ p ∈ t.plans, ∃ units, renderer p = .ok units := by
  rw [processRound_eq] at h ⊢
  dsimp only at h ⊢
  obtain ⟨h, hclasses⟩ := noErrors_append.mp h
  obtain ⟨h, hinterfaces⟩ := noErrors_append.mp h
  obtain ⟨_, hplans⟩ := noErrors_append.mp h
  obtain ⟨hsources, hwritten, hrendered⟩ := Round.files_writePlans hplans
  refine ⟨?_, hrendered⟩
  rw [Round.files_registerClasses hclasses, Round.files_registerInterfaces hinterfaces, hsources,
    hwritten, Table.outputs, List.append_assoc, List.append_assoc, List.append_assoc]

end ActorIdl
