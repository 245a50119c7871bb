import ActorIdl.Declaration.Resolution
import ActorIdl.Discovery
import ActorIdl.Round
import ActorIdl.Syntax.Parser
/-! # Builds

    A build reads its inputs and runs rounds.  The first round is about the declarations of the
    inputs; each further round is about the stubs that the round before generated, with everything
    earlier there to be referred to.  It ends with the first round that generates no stub, or when
    generation does not settle. -/

namespace ActorIdl

/-- The most rounds of a build. -/
def maxRounds : Nat := 8

/-- What a build is to produce. -/
inductive EmitTarget where
  /-- Sources and manifests. -/
  | all
  | descriptors
  | plans
  /-- What the build is made from; nothing is compiled. -/
  | buildInfo
deriving Repr, DecidableEq

/-- The last stage of the rounds for a target, if there are any. -/
def EmitTarget.lastStage? : EmitTarget → Option Stage
  | .all => some .register
  | .descriptors => some .assignIds
  | .plans => some .plan
  | .buildInfo => none

/-- What is to be built. -/
structure BuildOptions where
  inputs : List String
  outDir : String
  emit : EmitTarget
deriving Repr, DecidableEq

/-- What a build made, over all its rounds. -/
structure Compilation where
  sources : SourceMap
  /-- The numbers of the input files. -/
  inputs : List FileId
  diagnostics : List Diagnostic
  descriptors : List InterfaceDescriptor
  plans : List Plan
  generated : List String
  manifests : List String
  rounds : Nat

namespace Build

/-! ## Sources -/

/-- The files of the library. -/
def librarySources : SourceMap :=
  Library.sources.map fun (path, text) => { path, text, packageHint := none }

/-- Adds inputs to the files of a build. -/
def loadAll (tree : FileTree) (sources : SourceMap) (inputs : List InputFile) :
    Except InputError SourceMap :=
  inputs.foldlM (fun sources input => sources.load tree input) sources

/-- The files of a build: those of the library and those that are found for the inputs. -/
def loadInputs (tree : FileTree) (inputs : List String) : Except InputError SourceMap := do
  loadAll tree librarySources (← discover tree inputs)

/-- A file with its syntax tree. -/
structure ParsedFile where
  file : FileId
  unit : Syntax.CompilationUnit
  packageHint : Option String

/-- Parses a file. -/
def parseFile (file : FileId) (f : SourceFile) : Option ParsedFile × List Diagnostic :=
  let parsing := Syntax.parse f.text
  (parsing.unit.map fun unit => ⟨file, unit, f.packageHint⟩,
    parsing.faults.map fun fault => ⟨.malformed fault.fault, some ⟨file, fault.span⟩, none⟩)

/-- Parses files whose numbers begin with `first`. -/
def parseFiles (first : FileId) (files : List SourceFile) : List ParsedFile × List Diagnostic :=
  let parsed := files.mapIdx fun i f => parseFile (first + i) f
  (parsed.filterMap (·.1), parsed.flatMap (·.2))

/-! ## Rounds -/

/-- The units of a round, the files from `firstNew` on being its roots. -/
def unitsOf (files : List ParsedFile) (firstNew : FileId) : List SourceUnit :=
  files.map fun f => ⟨f.unit, f.file, f.packageHint, firstNew ≤ f.file⟩

/-- Whether a report is about a file from `firstNew` on, or about none.  The table is made anew in
    every round, and earlier rounds have reported what is wrong with the earlier files. -/
def isNews (firstNew : FileId) (d : Diagnostic) : Bool :=
  match d.location with
  | none => true
  | some location => firstNew ≤ location.file

/-- The file of a stub. -/
def stubFile (outDir : String) (u : RenderedUnit) : SourceFile :=
  ⟨Path.join (Path.join outDir "src") u.path, u.contents, none⟩

/-- Adds what a round made to a compilation. -/
def addRound (c : Compilation) (r : Round) (reports : List Diagnostic) : Compilation :=
  { c with
    diagnostics := c.diagnostics ++ reports ++ r.reports
    descriptors := c.descriptors ++ r.descriptors
    plans := c.plans ++ r.plans
    generated := c.generated ++ r.generated
    manifests := c.manifests ++ r.manifests
    rounds := c.rounds + 1 }

/-- Runs a round and at most `more` further ones. -/
def runRounds {σ : Type} (filer : Filer σ) (renderer : Renderer) (outDir : String) (last : Stage)
    (more : Nat) (files : List ParsedFile) (firstNew : FileId) (c : Compilation) (s : σ) :
    Compilation × σ :=
  let (table, reports) := Table.build (unitsOf files firstNew)
  let (round, s') := processRound filer renderer table last s
  let c' := addRound c round (reports.filter (isNews firstNew))
  if round.stubs.isEmpty then (c', s')
  else match more with
    | 0 => ({ c' with diagnostics := c'.diagnostics ++ [⟨.unsettled maxRounds, none, none⟩] }, s')
    | more + 1 =>
      let stubs := round.stubs.map (stubFile outDir)
      let (parsed, faults) := parseFiles c'.sources.length stubs
      runRounds filer renderer outDir last more (files ++ parsed) c'.sources.length
        { c' with sources := c'.sources ++ stubs, diagnostics := c'.diagnostics ++ faults } s'

/-- A compilation that has read its files and done nothing else. -/
def loaded (sources : SourceMap) : Compilation :=
  { sources
    inputs := (List.range sources.length).drop librarySources.length
    diagnostics := []
    descriptors := []
    plans := []
    generated := []
    manifests := []
    rounds := 0 }

end Build

/-- Compiles the inputs in a tree of files, with a renderer and a filer.  Only inputs that cannot be
    read keep a build from taking place. -/
def compile {σ : Type} (tree : FileTree) (options : BuildOptions) (filer : Filer σ)
    (renderer : Renderer) (s : σ) : Except InputError Compilation × σ :=
  match Build.loadInputs tree options.inputs with
  | .error e => (.error e, s)
  | .ok sources =>
    match options.emit.lastStage? with
    | none => (.ok (Build.loaded sources), s)
    | some last =>
      let (files, faults) := Build.parseFiles 0 sources
      let start := { Build.loaded sources with diagnostics := faults }
      let (c, s') := Build.runRounds filer renderer options.outDir last (maxRounds - 1) files
        Build.librarySources.length start s
      (.ok c, s')

end ActorIdl
