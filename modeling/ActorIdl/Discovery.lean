import ActorIdl.FileTree.Glob
import ActorIdl.Source
/-! # Input discovery

    The inputs of a build are files and directories.  A file is taken as it is; a directory is
    searched for sources at every depth, and the place of a source below it implies the package.
    The sources found are sorted by path, each once. -/

namespace ActorIdl

/-- Why the inputs cannot be read. -/
inductive InputError where
  | io (path : String) (cause : IoError)
  /-- The name of a directory cannot be part of a search pattern. -/
  | pattern (cause : PatternError)
deriving Repr, DecidableEq

/-- The wording of an input error. -/
def InputError.message : InputError → String
  | .io path cause => path ++ ": " ++ cause.message
  | .pattern cause => "invalid input pattern: " ++ cause.message

/-- A source that was found, with the package that its place implies. -/
structure InputFile where
  path : String
  packageHint : Option String
deriving Repr, DecidableEq

/-- The pattern of the sources below a directory. -/
def sourcePattern (dir : String) : String := Path.join (Path.join dir "**") "*.orbit"

/-- The sources of one input. -/
def sourcesOf (tree : FileTree) (input : String) : Except InputError (List InputFile) :=
  if tree.isDir input then
    match tree.glob (sourcePattern input) with
    | .error e => .error (.pattern e)
    | .ok paths => .ok (paths.map fun path => ⟨path, Path.packageOf? input path⟩)
  else if tree.contains input then .ok [⟨input, none⟩]
  else .error (.io input .noInput)

/-- A list of files without those whose path is that of the file before. -/
def dropRepeated : List InputFile → List InputFile
  | a :: b :: rest =>
    if Path.components a.path = Path.components b.path then dropRepeated (a :: rest)
    else a :: dropRepeated (b :: rest)
  | short => short
termination_by files => files.length

/-- The sources of all inputs. -/
def discover (tree : FileTree) (inputs : List String) : Except InputError (List InputFile) := do
  let found ← inputs.mapM (sourcesOf tree)
  return dropRepeated (found.flatten.mergeSort fun a b => Path.le a.path b.path)

/-- Adds a file of a tree to the files of a build. -/
def SourceMap.load (sources : SourceMap) (tree : FileTree) (input : InputFile) :
    Except InputError SourceMap :=
  match tree.readText input.path with
  | .error e => .error (.io input.path e)
  | .ok text => .ok (sources ++ [⟨input.path, text, input.packageHint⟩])

end ActorIdl
