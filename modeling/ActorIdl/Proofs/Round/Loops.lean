import ActorIdl.Proofs.Round.Outputs
/-! # The loops of a round

    A round writes the sources of one plan after the other, then the manifests of one interface and
    of one class after the other.  Each of these loops visits the elements of a list in their order,
    and everything that it makes can be read off the outcomes of its visits.  So filers that answer
    alike at every output make the same rounds, and what every output leaves alone a round leaves
    alone. -/

namespace ActorIdl

namespace Round

/-! ## Visits -/

section
variable {σ α β : Type}

/-- Takes a step for one element after the other: the elements with their outcomes. -/
def visit (step : α → σ → β × σ) : List α → σ → List (α × β) × σ
  | [], s => ([], s)
  | a :: as, s =>
    ((a, (step a s).1) :: (visit step as (step a s).2).1, (visit step as (step a s).2).2)

/-- Steps that have one outcome in related states, and lead to related states. -/
theorem visit_agrees {τ : Type} {R : σ → τ → Prop} (step : α → σ → β × σ) (step' : α → τ → β × τ)
    {as : List α} (hstep : ∀ a ∈ as, ∀ s s', R s s' →
      (step a s).1 = (step' a s').1 ∧ R (step a s).2 (step' a s').2)
    {s : σ} {s' : τ} (h : R s s') :
    (visit step as s).1 = (visit step' as s').1 ∧
      R (visit step as s).2 (visit step' as s').2 := by
  induction as generalizing s s' with
  | nil => exact ⟨rfl, h⟩
  | cons a as ih =>
    obtain ⟨ha, has⟩ := List.forall_mem_cons.mp hstep
    obtain ⟨houtcome, hstate⟩ := ha s s' h
    obtain ⟨hrest, hlast⟩ := ih has hstate
    rw [visit, visit, houtcome, hrest]
    exact ⟨rfl, hlast⟩

end

/-! ## The loops as visits -/

/-- The plan of which the sources were written, with its units. -/
def written? : Plan × Except Cause (List RenderedUnit) → Option (Plan × List RenderedUnit)
  | (p, .ok units) => some (p, units)
  | (_, .error _) => none

/-- The report about the sources of a plan. -/
def sourceReports (t : Table) : Plan × Except Cause (List RenderedUnit) → List Diagnostic
  | (p, .ok units) => [t.reportAt p.decl (.generated p.factoryQualifiedName units.length)]
  | (p, .error cause) => [t.reportAt p.decl cause]

/-- The path of the manifest of an interface that was written. -/
def manifestPath? : Plan × Except Diagnostic String → Option String
  | (_, .ok path) => some path
  | (_, .error _) => none

/-- The report about the manifest of an interface that was not written. -/
def manifestReports : Plan × Except Diagnostic String → List Diagnostic
  | (_, .ok _) => []
  | (_, .error report) => [report]

/-- The path of the manifest of a class that was written. -/
def classPath? : DeclId × Option (Except Diagnostic String) → Option String
  | (_, some (.ok path)) => some path
  | _ => none

/-- The report about the manifest of a class that was not written. -/
def classReports : DeclId × Option (Except Diagnostic String) → List Diagnostic
  | (_, some (.error report)) => [report]
  | _ => []

section
variable {σ : Type} (filer : Filer σ) (renderer : Renderer) (t : Table)

theorem writePlans_eq_visit (ps : List Plan) (s : σ) :
    writePlans filer renderer t ps s =
      (((visit (writePlan filer renderer) ps s).1.filterMap written?,
        (visit (writePlan filer renderer) ps s).1.flatMap (sourceReports t)),
        (visit (writePlan filer renderer) ps s).2) := by
  induction ps generalizing s with
  | nil => rfl
  | cons p ps ih =>
    rw [writePlans, visit]
    dsimp only
    rw [ih]
    cases writePlan filer renderer p s with
    | mk outcome s₁ => cases outcome <;> rfl

theorem registerInterfaces_eq_visit (ps : List Plan) (s : σ) :
    registerInterfaces filer t ps s =
      (((visit (Manifest.registerInterface filer t) ps s).1.filterMap manifestPath?,
        (visit (Manifest.registerInterface filer t) ps s).1.flatMap manifestReports),
        (visit (Manifest.registerInterface filer t) ps s).2) := by
  induction ps generalizing s with
  | nil => rfl
  | cons p ps ih =>
    rw [registerInterfaces, visit]
    dsimp only
    rw [ih]
    cases Manifest.registerInterface filer t p s with
    | mk outcome s₁ => cases outcome <;> rfl

theorem registerClasses_eq_visit (ids : List DeclId) (s : σ) :
    registerClasses filer t ids s =
      (((visit (Manifest.registerClass filer t) ids s).1.filterMap classPath?,
        (visit (Manifest.registerClass filer t) ids s).1.flatMap classReports),
        (visit (Manifest.registerClass filer t) ids s).2) := by
  induction ids generalizing s with
  | nil => rfl
  | cons id ids ih =>
    rw [registerClasses, visit]
    dsimp only
    rw [ih]
    cases Manifest.registerClass filer t id s with
    | mk outcome s₁ =>
      cases outcome with
      | none => rfl
      | some outcome => cases outcome <;> rfl

end

end Round

/-! ## Filers that agree -/

/-- Two filers answer alike when they are to create an output in related states, and get to related
    states again. -/
def Filer.Agrees {σ τ : Type} (filer : Filer σ) (filer' : Filer τ) (R : σ → τ → Prop)
    (f : OutputFile) : Prop :=
  ∀ s s', R s s' → (filer f.kind f.path f.contents s).1 = (filer' f.kind f.path f.contents s').1 ∧
    R (filer f.kind f.path f.contents s).2 (filer' f.kind f.path f.contents s').2

section
variable {σ τ : Type} {filer : Filer σ} {filer' : Filer τ} {R : σ → τ → Prop}
  {renderer : Renderer} {t : Table} {s : σ} {s' : τ} (h : R s s')
include h

namespace Round

theorem createUnits_agrees {us : List RenderedUnit}
    (hus : ∀ u ∈ us, filer.Agrees filer' R u.file) :
    (createUnits filer us s).1 = (createUnits filer' us s').1 ∧
      R (createUnits filer us s).2 (createUnits filer' us s').2 := by
  induction us generalizing s s' with
  | nil => exact ⟨rfl, h⟩
  | cons u us ih =>
    obtain ⟨hu, hus⟩ := List.forall_mem_cons.mp hus
    have hfirst := hu s s' h
    unfold createUnits
    rw [RenderedUnit.file] at hfirst
    cases hleft : filer .source u.path u.contents s with
    | mk outcome s₁ =>
      cases hright : filer' .source u.path u.contents s' with
      | mk outcome' s₁' =>
        rw [hleft, hright] at hfirst
        obtain ⟨rfl, hstate⟩ := hfirst
        -- both go on with the other units, or both stop here
        cases outcome with
        | ok => exact ih hstate hus
        | error e => exact ⟨rfl, hstate⟩

theorem writePlan_agrees {p : Plan} (hp : ∀ f ∈ p.sources renderer, filer.Agrees filer' R f) :
    (writePlan filer renderer p s).1 = (writePlan filer' renderer p s').1 ∧
      R (writePlan filer renderer p s).2 (writePlan filer' renderer p s').2 := by
  unfold writePlan
  cases hrender : renderer p with
  | error e => exact ⟨rfl, h⟩
  | ok units =>
    have hunits : ∀ u ∈ units, filer.Agrees filer' R u.file := by
      intro u hu
      apply hp
      rw [Plan.sources, hrender]
      exact List.mem_map_of_mem hu
    obtain ⟨houtcome, hstate⟩ := createUnits_agrees h hunits
    dsimp only
    cases hleft : createUnits filer units s with
    | mk outcome s₁ =>
      cases hright : createUnits filer' units s' with
      | mk outcome' s₁' =>
        rw [hleft, hright] at houtcome hstate
        obtain rfl : outcome = outcome' := houtcome
        cases outcome <;> exact ⟨rfl, hstate⟩

theorem write_agrees (id : DeclId) {path contents : String}
    (hpath : filer.Agrees filer' R ⟨.resource, path, contents⟩) :
    (Manifest.write filer t id path contents s).1 =
        (Manifest.write filer' t id path contents s').1 ∧
      R (Manifest.write filer t id path contents s).2
        (Manifest.write filer' t id path contents s').2 := by
  have hwrite := hpath s s' h
  unfold Manifest.write
  cases hleft : filer .resource path contents s with
  | mk outcome s₁ =>
    cases hright : filer' .resource path contents s' with
    | mk outcome' s₁' =>
      rw [hleft, hright] at hwrite
      obtain ⟨rfl, hstate⟩ := hwrite
      cases outcome <;> exact ⟨rfl, hstate⟩

theorem registerInterface_agrees {p : Plan} (hp : filer.Agrees filer' R p.manifest) :
    (Manifest.registerInterface filer t p s).1 = (Manifest.registerInterface filer' t p s').1 ∧
      R (Manifest.registerInterface filer t p s).2 (Manifest.registerInterface filer' t p s').2 :=
  write_agrees h p.decl hp

theorem registerClass_agrees {id : DeclId}
    (hid : ∀ f, t.classManifest? id = some f → filer.Agrees filer' R f) :
    (Manifest.registerClass filer t id s).1 = (Manifest.registerClass filer' t id s').1 ∧
      R (Manifest.registerClass filer t id s).2 (Manifest.registerClass filer' t id s').2 := by
  unfold Manifest.registerClass
  cases hd : t.get? id with
  | none => exact ⟨rfl, h⟩
  | some d =>
    dsimp only
    by_cases hactor : t.isActorClass id = true
    · have hmanifest := hid _ (Table.classManifest?_of_isActorClass hd hactor)
      obtain ⟨houtcome, hstate⟩ := write_agrees (t := t) h id hmanifest
      rw [if_pos hactor, if_pos hactor]
      exact ⟨congrArg some houtcome, hstate⟩
    · rw [if_neg hactor, if_neg hactor]
      exact ⟨rfl, h⟩

variable (t)

theorem writePlans_agrees (renderer : Renderer) {ps : List Plan}
    (hps : ∀ p ∈ ps, ∀ f ∈ p.sources renderer, filer.Agrees filer' R f) :
    (writePlans filer renderer t ps s).1 = (writePlans filer' renderer t ps s').1 ∧
      R (writePlans filer renderer t ps s).2 (writePlans filer' renderer t ps s').2 := by
  obtain ⟨houtcomes, hstate⟩ := visit_agrees (writePlan filer renderer)
    (writePlan filer' renderer) (fun p hp _ _ h => writePlan_agrees h (hps p hp)) h
  rw [writePlans_eq_visit, writePlans_eq_visit, houtcomes]
  exact ⟨rfl, hstate⟩

theorem registerInterfaces_agrees {ps : List Plan}
    (hps : ∀ p ∈ ps, filer.Agrees filer' R p.manifest) :
    (registerInterfaces filer t ps s).1 = (registerInterfaces filer' t ps s').1 ∧
      R (registerInterfaces filer t ps s).2 (registerInterfaces filer' t ps s').2 := by
  obtain ⟨houtcomes, hstate⟩ := visit_agrees (Manifest.registerInterface filer t)
    (Manifest.registerInterface filer' t)
    (fun p hp _ _ h => registerInterface_agrees h (hps p hp)) h
  rw [registerInterfaces_eq_visit, registerInterfaces_eq_visit, houtcomes]
  exact ⟨rfl, hstate⟩

theorem registerClasses_agrees {ids : List DeclId}
    (hids : ∀ id ∈ ids, ∀ f, t.classManifest? id = some f → filer.Agrees filer' R f) :
    (registerClasses filer t ids s).1 = (registerClasses filer' t ids s').1 ∧
      R (registerClasses filer t ids s).2 (registerClasses filer' t ids s').2 := by
  obtain ⟨houtcomes, hstate⟩ := visit_agrees (Manifest.registerClass filer t)
    (Manifest.registerClass filer' t)
    (fun id hid _ _ h => registerClass_agrees h (hids id hid)) h
  rw [registerClasses_eq_visit, registerClasses_eq_visit, houtcomes]
  exact ⟨rfl, hstate⟩

theorem run_agrees (renderer : Renderer) (hagrees : ∀ f, filer.Agrees filer' R f) (stage : Stage)
    (r : Round) :
    (run filer renderer t stage r s).1 = (run filer' renderer t stage r s').1 ∧
      R (run filer renderer t stage r s).2 (run filer' renderer t stage r s').2 := by
  cases stage with
  | render =>
    obtain ⟨hplans, hsources⟩ := writePlans_agrees t h renderer fun p (_ : p ∈ r.plans) f _ =>
      hagrees f
    rw [run_render, run_render, hplans]
    exact ⟨rfl, hsources⟩
  | register =>
    obtain ⟨hpaths, hinterfaces⟩ := registerInterfaces_agrees t h fun p
      (_ : p ∈ r.written.map (·.1)) => hagrees p.manifest
    obtain ⟨hmore, hclasses⟩ := registerClasses_agrees t hinterfaces fun id
      (_ : id ∈ r.candidates.classes) f _ => hagrees f
    rw [run_register, run_register]
    dsimp only
    rw [hpaths, hmore]
    exact ⟨rfl, hclasses⟩
  -- no other stage calls the filer
  | _ => exact ⟨rfl, h⟩

theorem runAll_agrees (renderer : Renderer) (hagrees : ∀ f, filer.Agrees filer' R f)
    (stages : List Stage) (r : Round) :
    (runAll filer renderer t stages r s).1 = (runAll filer' renderer t stages r s').1 ∧
      R (runAll filer renderer t stages r s).2 (runAll filer' renderer t stages r s').2 := by
  induction stages generalizing r s s' with
  | nil => exact ⟨rfl, h⟩
  | cons stage stages ih =>
    obtain ⟨hmade, hstate⟩ := run_agrees t h renderer hagrees stage r
    rw [runAll, runAll]
    dsimp only
    rw [hmade]
    exact ih hstate _

end Round

/-- Filers that agree at every output make one and the same round. -/
theorem processRound_agrees (renderer : Renderer) (t : Table) (last : Stage)
    (hagrees : ∀ f, filer.Agrees filer' R f) :
    (processRound filer renderer t last s).1 = (processRound filer' renderer t last s').1 ∧
      R (processRound filer renderer t last s).2 (processRound filer' renderer t last s').2 :=
  Round.runAll_agrees t h renderer hagrees last.required .start

end

/-! ## What outputs leave alone -/

/-- Creating an output keeps what is known of the state of a filer. -/
def Filer.Keeps {σ : Type} (filer : Filer σ) (I : σ → Prop) (f : OutputFile) : Prop :=
  ∀ s, I s → I (filer f.kind f.path f.contents s).2

section
variable {σ : Type} {filer : Filer σ} {I : σ → Prop} {renderer : Renderer} {t : Table} {s : σ}

/-- A filer agrees with itself in one state, of which something is known. -/
theorem Filer.Keeps.agrees {f : OutputFile} (h : filer.Keeps I f) :
    filer.Agrees filer (fun s s' => s = s' ∧ I s) f := by
  rintro s _ ⟨rfl, hs⟩
  exact ⟨rfl, rfl, h s hs⟩

namespace Round

theorem writePlan_preserves {p : Plan} (hI : ∀ f ∈ p.sources renderer, filer.Keeps I f) (h : I s) :
    I (writePlan filer renderer p s).2 :=
  (writePlan_agrees ⟨rfl, h⟩ fun f hf => (hI f hf).agrees).2.2

theorem registerInterface_preserves {p : Plan} (hI : filer.Keeps I p.manifest) (h : I s) :
    I (Manifest.registerInterface filer t p s).2 :=
  (registerInterface_agrees ⟨rfl, h⟩ hI.agrees).2.2

theorem registerClass_preserves {id : DeclId}
    (hI : ∀ f, t.classManifest? id = some f → filer.Keeps I f) (h : I s) :
    I (Manifest.registerClass filer t id s).2 :=
  (registerClass_agrees ⟨rfl, h⟩ fun f hf => (hI f hf).agrees).2.2

end Round

end

/-- What every output leaves alone a round leaves alone. -/
theorem processRound_preserves {σ : Type} {filer : Filer σ} {I : σ → Prop}
    (hI : ∀ kind path contents s, I s → I (filer kind path contents s).2) (renderer : Renderer)
    (t : Table) (last : Stage) {s : σ} (h : I s) : I (processRound filer renderer t last s).2 := by
  have hkeeps : ∀ f, filer.Keeps I f := fun f => hI f.kind f.path f.contents
  exact (processRound_agrees ⟨rfl, h⟩ renderer t last fun f => (hkeeps f).agrees).2.2

end ActorIdl
