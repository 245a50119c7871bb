import ActorIdl.FileTree
import ActorIdl.FileTree.Pattern
/-! # Files that match a pattern

    A pattern is followed through a tree part by part.  A part without wildcards is simply appended
    to the path, a part with wildcards is compared with every name in the directory, hidden ones
    included, and a part of two stars leads to everything below the directory.  Paths of one file
    can come out with and without single dots in them, so their order matters to whoever keeps the
    first one: the directory above comes first, then the directory itself, then the names in it. -/

namespace ActorIdl

/-- A part of a pattern between slashes. -/
inductive PatternPart where
  | literal (name : String)
  | wild (elements : List Wildcard)
  | anyDirs
deriving Repr, DecidableEq

namespace PatternPart

/-- The part that elements stand for. -/
def ofElements (elements : List Wildcard) : PatternPart :=
  if elements = [.anyDirs] then .anyDirs
  else match Pattern.literal? elements with
    | some name => .literal (String.ofList name)
    | none => .wild elements

/-- Whether a name in a directory is one that the part stands for. -/
def matchesName (p : PatternPart) (name : String) : Bool :=
  match p with
  | .literal n => n == name
  | .wild elements => Pattern.accepts elements name.toList
  | .anyDirs => true

/-- The names for a directory itself and the one above it that a part stands for.  They are never
    listed, so only a part that begins with a dot can mean them. -/
def dotNames (p : PatternPart) : List String :=
  match p with
  | .wild (.char '.' :: _) => ["..", "."].filter p.matchesName
  | _ => []

end PatternPart

namespace FileTree

/-- The path of a name in a directory.  The working directory is left out of it. -/
def entryPath (dir name : String) : String :=
  if Path.components dir = [.current] then name else Path.join dir name

/-- Everything below the directory that a path leads to, as the names on the way there.  What stands
    in a directory whose own path is too long to be followed is left out. -/
def belowPath (t : FileTree) (path : String) : List (Place × FileNode) :=
  match t.locate path with
  | .error _ => []
  | .ok dir => (t.belowDir dir).filter fun (names, _) =>
      names.length ≤ 1 || t.isDir (entryPath path (Text.joinWith "/" names.dropLast))

/-- The names in the directory that a path leads to. -/
def namesIn (t : FileTree) (path : String) : List String :=
  (t.belowPath path).filterMap fun (names, _) =>
    match names with
    | [name] => some name
    | _ => none

/-- The paths below a path that match the parts of a pattern. -/
def expand (t : FileTree) : List PatternPart → String → List String
  | [], path => [path]
  | .literal name :: rest, path =>
    let next := entryPath path name
    let found := if name = "." ∨ name = ".." then t.isDir path else t.contains next
    if found then t.expand rest next else []
  | .wild elements :: rest, path =>
    if t.isDir path then
      (PatternPart.wild elements).dotNames.flatMap
        (fun name => t.expand rest (Path.join path name)) ++
      ((t.namesIn path).filter (PatternPart.wild elements).matchesName).flatMap
        fun name => t.expand rest (entryPath path name)
    else []
  | .anyDirs :: .anyDirs :: rest, path => t.expand (.anyDirs :: rest) path
  | [.anyDirs], path =>
    (t.belowPath path).filterMap fun (names, node) =>
      match node with
      | .dir => some (entryPath path (Text.joinWith "/" names))
      | .file _ => none
  | .anyDirs :: part :: rest, path =>
    ((t.belowPath path).filter fun (names, _) => names.getLast?.any part.matchesName).flatMap
      fun (names, _) => t.expand rest (entryPath path (Text.joinWith "/" names))

/-- The parts of a pattern, once the pattern as a whole is known to be one. -/
def readParts (pattern : String) : Except PatternError (List PatternPart) := do
  let _ ← Pattern.read pattern
  let relative := if Path.isAbsolute pattern then String.ofList pattern.toList.tail else pattern
  let elements ← (Path.parts relative).mapM Pattern.read
  return elements.map .ofElements

/-- The paths in a tree that match a pattern. -/
def glob (t : FileTree) (pattern : String) : Except PatternError (List String) := do
  let parts ← readParts pattern
  return t.expand parts (if Path.isAbsolute pattern then "/" else ".")

end FileTree

end ActorIdl
