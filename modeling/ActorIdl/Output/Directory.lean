import ActorIdl.FileTree
import ActorIdl.Output
/-! # Outputs in a directory

    The filer that writes into a directory: sources below `src` and resources below `resources`.
    Two paths are the same output if their components are the same.  A file that was there before
    the build is replaced. -/

namespace ActorIdl

/-- An output directory in a tree of files. -/
structure OutputDir where
  tree : FileTree
  dir : String
  /-- The components of the paths of all outputs that were tried. -/
  created : List (List Path.Component)

namespace OutputDir

/-- A directory without outputs of this build. -/
def start (tree : FileTree) (dir : String) : OutputDir := ⟨tree, dir, []⟩

/-- The name of the directory of a kind of output. -/
def kindDir : OutputKind → String
  | .source => "src"
  | .resource => "resources"

/-- The path of an output in the tree. -/
def fullPath (o : OutputDir) (kind : OutputKind) (path : String) : String :=
  Path.join (Path.join o.dir (kindDir kind)) path

/-- The filer that writes into the directory. -/
def filer : Filer OutputDir := fun kind path contents o =>
  if !Path.isPlain path then (.error (.invalidPath path), o)
  else
    let full := o.fullPath kind path
    let key := Path.components full
    if o.created.contains key then (.error (.alreadyCreated path), o)
    else
      let (written, tree) := o.tree.place full contents.toUTF8
      (written.mapError (.io full), { o with tree, created := o.created ++ [key] })

end OutputDir

end ActorIdl
