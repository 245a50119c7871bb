import ActorIdl.Output.Error
import ActorIdl.Path
/-! # Outputs

    A filer creates the sources and resources of a build.  It creates no output twice, refuses paths
    that leave its directory, and a refused call changes nothing that was created before.  The filer
    here keeps everything in memory and can be told to refuse certain paths. -/

namespace ActorIdl

/-- The kinds of output. -/
inductive OutputKind where
  | source
  | resource
deriving Repr, DecidableEq

/-- Creates an output with a path and contents, changing a state of its own. -/
abbrev Filer (σ : Type) := OutputKind → String → String → σ → Except OutputError Unit × σ

/-- An output that was created. -/
structure OutputFile where
  kind : OutputKind
  path : String
  contents : String
deriving Repr, DecidableEq

/-- Outputs in memory, in the order of their creation. -/
structure Outputs where
  files : List OutputFile
  /-- The paths that are refused. -/
  failing : List String
deriving Repr, DecidableEq

namespace Outputs

/-- No outputs yet. -/
def empty (failing : List String) : Outputs := ⟨[], failing⟩

/-- The contents of an output. -/
def get? (o : Outputs) (kind : OutputKind) (path : String) : Option String :=
  (o.files.find? fun f => f.kind == kind && f.path == path).map (·.contents)

/-- Why an output cannot be created. -/
def refusal? (o : Outputs) (kind : OutputKind) (path : String) : Option OutputError :=
  if !Path.isPlain path then some (.invalidPath path)
  else if o.failing.contains path then some (.rejected path)
  else if (o.get? kind path).isSome then some (.alreadyCreated path)
  else none

/-- The filer that keeps outputs in memory. -/
def filer : Filer Outputs := fun kind path contents o =>
  match o.refusal? kind path with
  | some e => (.error e, o)
  | none => (.ok (), { o with files := o.files ++ [⟨kind, path, contents⟩] })

/-- The outputs of a kind, sorted by path. -/
def sorted (o : Outputs) (kind : OutputKind) : List (String × String) :=
  ((o.files.filter (·.kind == kind)).map fun f => (f.path, f.contents)).mergeSort
    fun a b => a.1 ≤ b.1

end Outputs

end ActorIdl
