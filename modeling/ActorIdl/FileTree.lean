import ActorIdl.Output.Error
import ActorIdl.Path
/-! # File trees

    Directories and files as a value, with the operations of a file system on them.  Paths are
    followed part by part from the working directory, so a path that goes through something that is
    missing or is no directory fails as it does on disk. -/

namespace ActorIdl

/-- What stands at a place of a tree. -/
inductive FileNode where
  | dir
  | file (bytes : ByteArray)

/-- A place: the names on the way from the root. -/
abbrev Place := List String

/-- A tree of files.  Everything but the root is listed with its place. -/
structure FileTree where
  nodes : List (Place × FileNode)
  /-- Where relative paths begin. -/
  workingDir : Place

namespace FileTree

/-- The tree of a root directory alone. -/
def empty : FileTree := ⟨[], []⟩

/-- What stands at a place. -/
def node? (t : FileTree) (place : Place) : Option FileNode :=
  if place.isEmpty then some .dir else t.nodes.lookup place

/-- The tree with something else at a place. -/
def set (t : FileTree) (place : Place) (node : FileNode) : FileTree :=
  if (t.nodes.lookup place).isSome then
    { t with nodes := t.nodes.map fun (p, n) => if p = place then (p, node) else (p, n) }
  else { t with nodes := t.nodes ++ [(place, node)] }

/-! ## Following paths -/

/-- The most bytes that a name can have. -/
def maxNameLength : Nat := 255

/-- The most bytes that a path can have. -/
def maxPathLength : Nat := 4095

/-- One part of a path, followed from a place that must be a directory. -/
def step (t : FileTree) (place : Place) (part : String) : Except IoError Place :=
  match t.node? place with
  | none => .error .notFound
  | some (.file _) => .error .notDirectory
  | some .dir =>
    if part = "" ∨ part = "." then .ok place
    else if part = ".." then .ok place.dropLast
    else if part.utf8ByteSize > maxNameLength then .error .nameTooLong
    else .ok (place ++ [part])

/-- Whether the text of a path is one that can be followed at all.  The slashes in it count. -/
def checkText (path : String) : Except IoError Unit :=
  if path.toList.contains (Char.ofNat 0) then .error .nulInPath
  else if path = "" then .error .notFound
  else if path.utf8ByteSize > maxPathLength then .error .nameTooLong
  else .ok ()

/-- The place that the given first parts of a path lead to.  Whether anything stands there is not
    looked at. -/
def follow (t : FileTree) (path : String) (parts : List String) : Except IoError Place := do
  checkText path
  parts.foldlM t.step (if Path.isAbsolute path then [] else t.workingDir)

/-- The place that a path leads to. -/
def locate (t : FileTree) (path : String) : Except IoError Place := t.follow path (Path.parts path)

/-- What stands where a path leads to. -/
def find? (t : FileTree) (path : String) : Option FileNode :=
  match t.locate path with
  | .error _ => none
  | .ok place => t.node? place

/-- Whether a path leads to a directory. -/
def isDir (t : FileTree) (path : String) : Bool :=
  match t.find? path with
  | some .dir => true
  | _ => false

/-- Whether a path leads to anything. -/
def contains (t : FileTree) (path : String) : Bool := (t.find? path).isSome

/-! ## Reading and writing -/

/-- The text of a file. -/
def readText (t : FileTree) (path : String) : Except IoError String := do
  match t.node? (← t.locate path) with
  | none => throw .notFound
  | some .dir => throw .isDirectory
  | some (.file bytes) =>
    match String.fromUTF8? bytes with
    | some text => return text
    | none => throw .notUtf8

/-- The tree with a new directory. -/
def createDir (t : FileTree) (path : String) : Except IoError FileTree := do
  let place ← t.locate path
  match t.node? place with
  | some _ => throw .alreadyExists
  | none => return t.set place .dir

/-- The tree with a directory and the directories on the way to it, given as their paths, last one
    first.  Directories that were created before a failure stay. -/
def createDirs (t : FileTree) : List String → Except IoError Unit × FileTree
  | [] => (.ok (), t)
  | path :: before =>
    match t.createDir path with
    | .ok t' => (.ok (), t')
    | .error .notFound =>
      match t.createDirs before with
      | (.error e, t') => (.error e, t')
      | (.ok (), t') =>
        match t'.createDir path with
        | .ok t'' => (.ok (), t'')
        | .error e => (if t'.isDir path then .ok () else .error e, t')
    | .error e => (if t.isDir path then .ok () else .error e, t)

/-- The tree with a file of the given contents.  A name with a slash after it names no file,
    whatever stands there, so it is not even looked up. -/
def writeFile (t : FileTree) (path : String) (bytes : ByteArray) : Except IoError FileTree := do
  match Path.beforeClosedName? path with
  | some before =>
    let _ ← t.follow path (before ++ [""])
    throw .isDirectory
  | none =>
    let place ← t.locate path
    match t.node? place with
    | some .dir => throw .isDirectory
    | _ => return t.set place (.file bytes)

/-- Creates a directory and the directories on the way to it. -/
def placeDir (t : FileTree) (path : String) : Except IoError Unit × FileTree :=
  t.createDirs (Path.initials path).reverse

/-- Writes a file, creating the directories on the way to it. -/
def place (t : FileTree) (path : String) (bytes : ByteArray) : Except IoError Unit × FileTree :=
  match t.createDirs (Path.initials path).reverse.tail with
  | (.error e, t') => (.error e, t')
  | (.ok (), t') =>
    match t'.writeFile path bytes with
    | .error e => (.error e, t')
    | .ok t'' => (.ok (), t'')

/-! ## Listing -/

/-- The names between two places, if one lies below the other. -/
def below? : Place → Place → Option Place
  | [], place => some place
  | _ :: _, [] => none
  | a :: dir, b :: place => if a = b then below? dir place else none

/-- Everything below a directory, as the names that lead from the directory to it. -/
def belowDir (t : FileTree) (dir : Place) : List (Place × FileNode) :=
  t.nodes.filterMap fun (place, node) =>
    match below? dir place with
    | some (name :: names) => some (name :: names, node)
    | _ => none

/-- The files below the working directory with their texts, sorted by path. -/
def files (t : FileTree) : List (String × ByteArray) :=
  ((t.belowDir t.workingDir).filterMap fun (names, node) =>
    match node with
    | .dir => none
    | .file bytes => some (Text.joinWith "/" names, bytes)).mergeSort fun a b => a.1 ≤ b.1

/-- The files of a tree that are not the same in an earlier tree. -/
def changedSince (t earlier : FileTree) : List (String × ByteArray) :=
  t.files.filter fun (path, bytes) => (earlier.files.lookup path) != some bytes

end FileTree

end ActorIdl
