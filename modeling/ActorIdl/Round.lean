import ActorIdl.Declaration.Candidates
import ActorIdl.Interface.Collision
import ActorIdl.Interface.Contract
import ActorIdl.Manifest
import ActorIdl.Renderer
import ActorIdl.Stage
/-! # Rounds

    One round over a table of declarations: from the candidates to descriptors and plans, and on to
    sources and manifests.  Whatever fails is reported against the declaration that it concerns and
    leaves the others alone.  A plan whose sources cannot all be written counts as not generated and
    gets no manifest. -/

namespace ActorIdl

/-- What a round has made so far. -/
structure Round where
  candidates : Candidates
  /-- The roles of the candidate interfaces. -/
  roles : List (DeclId × Role)
  descriptors : List InterfaceDescriptor
  plans : List Plan
  /-- The plans whose sources were all written, with their units. -/
  written : List (Plan × List RenderedUnit)
  /-- The paths of the manifests that were written. -/
  manifests : List String
  reports : List Diagnostic

namespace Round

/-- A round before its first stage. -/
def start : Round := ⟨⟨[], [], []⟩, [], [], [], [], [], []⟩

/-- The units of the plans that were written, in order. -/
def units (r : Round) : List RenderedUnit := r.written.flatMap (·.2)

/-- The paths of the sources of the plans that were written. -/
def generated (r : Round) : List String := r.units.map (·.path)

/-- The stubs among the sources that were written. -/
def stubs (r : Round) : List RenderedUnit := r.units.filter (·.kind == .declarationStub)

/-- The candidates that are actor interfaces. -/
def actors (r : Round) : List DeclId := (r.roles.filter (·.2 == .actor)).map (·.1)

/-! ## Sources -/

/-- Creates the sources of a plan up to the first one that fails. -/
def createUnits {σ : Type} (filer : Filer σ) : List RenderedUnit → σ → Except OutputError Unit × σ
  | [], s => (.ok (), s)
  | u :: us, s =>
    match filer .source u.path u.contents s with
    | (.ok (), s') => createUnits filer us s'
    | (.error e, s') => (.error e, s')

/-- Renders a plan and writes its sources: the units, or what went wrong. -/
def writePlan {σ : Type} (filer : Filer σ) (renderer : Renderer) (p : Plan) (s : σ) :
    Except Cause (List RenderedUnit) × σ :=
  match renderer p with
  | .error e => (.error (.notRendered e), s)
  | .ok units =>
    match createUnits filer units s with
    | (.error e, s') => (.error (.sourceNotWritten e), s')
    | (.ok (), s') => (.ok units, s')

/-- Writes the sources of plans one after the other: the plans that were written, with their units,
    and a report about every plan. -/
def writePlans {σ : Type} (filer : Filer σ) (renderer : Renderer) (t : Table) :
    List Plan → σ → (List (Plan × List RenderedUnit) × List Diagnostic) × σ
  | [], s => (([], []), s)
  | p :: ps, s =>
    let (outcome, s₁) := writePlan filer renderer p s
    let ((written, reports), s₂) := writePlans filer renderer t ps s₁
    match outcome with
    | .ok units =>
      (((p, units) :: written,
        t.reportAt p.decl (.generated p.factoryQualifiedName units.length) :: reports), s₂)
    | .error cause => ((written, t.reportAt p.decl cause :: reports), s₂)

/-! ## Manifests -/

/-- Writes the manifests of interfaces one after the other. -/
def registerInterfaces {σ : Type} (filer : Filer σ) (t : Table) :
    List Plan → σ → (List String × List Diagnostic) × σ
  | [], s => (([], []), s)
  | p :: ps, s =>
    let (outcome, s₁) := Manifest.registerInterface filer t p s
    let ((paths, reports), s₂) := registerInterfaces filer t ps s₁
    match outcome with
    | .ok path => ((path :: paths, reports), s₂)
    | .error report => ((paths, report :: reports), s₂)

/-- Writes the manifests of those classes whose instances are actors. -/
def registerClasses {σ : Type} (filer : Filer σ) (t : Table) :
    List DeclId → σ → (List String × List Diagnostic) × σ
  | [], s => (([], []), s)
  | id :: ids, s =>
    let (outcome, s₁) := Manifest.registerClass filer t id s
    let ((paths, reports), s₂) := registerClasses filer t ids s₁
    match outcome with
    | none => ((paths, reports), s₂)
    | some (.ok path) => ((path :: paths, reports), s₂)
    | some (.error report) => ((paths, report :: reports), s₂)

/-! ## Stages -/

/-- Runs a stage that writes nothing. -/
def runPure (t : Table) (r : Round) : Stage → Round
  | .walk => { r with candidates := t.candidates }
  | .classify => { r with roles := r.candidates.interfaces.map fun id => (id, t.role id) }
  | .describe =>
    { r with descriptors := (r.roles.filter (·.2 != .neither)).filterMap fun (id, role) =>
        t.describe id (role == .actor) }
  | .validate =>
    { r with
      descriptors := r.descriptors.map (·.keepValid)
      reports := r.reports ++ t.misplacedMarkers r.candidates r.actors ++
        r.descriptors.flatMap (·.violationReports) }
  | .assignIds =>
    let identified := r.descriptors.map (·.assignIds)
    { r with
      descriptors := identified.map (·.dropCollisions)
      reports := r.reports ++ collisionReports t identified }
  | .plan => { r with plans := r.descriptors.map .ofDescriptor }
  | .render | .register => r

/-- Runs a stage. -/
def run {σ : Type} (filer : Filer σ) (renderer : Renderer) (t : Table) (stage : Stage)
    (r : Round) (s : σ) : Round × σ :=
  match stage with
  | .render =>
    let ((written, reports), s') := writePlans filer renderer t r.plans s
    ({ r with written, reports := r.reports ++ reports }, s')
  | .register =>
    let ((paths, reports), s₁) := registerInterfaces filer t (r.written.map (·.1)) s
    let ((morePaths, moreReports), s₂) := registerClasses filer t r.candidates.classes s₁
    ({ r with manifests := paths ++ morePaths, reports := r.reports ++ reports ++ moreReports }, s₂)
  | stage => (runPure t r stage, s)

/-- Runs stages one after the other. -/
def runAll {σ : Type} (filer : Filer σ) (renderer : Renderer) (t : Table) :
    List Stage → Round → σ → Round × σ
  | [], r, s => (r, s)
  | stage :: stages, r, s =>
    let (r', s') := run filer renderer t stage r s
    runAll filer renderer t stages r' s'

end Round

/-- Runs the stages of a round that a last stage requires. -/
def processRound {σ : Type} (filer : Filer σ) (renderer : Renderer) (t : Table) (last : Stage)
    (s : σ) : Round × σ :=
  Round.runAll filer renderer t last.required .start s

end ActorIdl
