import ActorIdl.Diagnostic
/-! # Source files

    The files of a build, numbered as they are added, and the positions in them.  A position is a
    line and a column, both counted from one; columns count characters. -/

namespace ActorIdl

/-- A source with the path that messages name. -/
structure SourceFile where
  path : String
  text : String
  /-- The package of a source that names none itself. -/
  packageHint : Option String
deriving Repr, DecidableEq

/-- The files of a build in the order of their numbers. -/
abbrev SourceMap := List SourceFile

/-- The line and column just after some text, from the position where the text begins. -/
def positionAfter (line column : Nat) : List Char → Nat × Nat
  | [] => (line, column)
  | c :: cs =>
    if c = '\n' then positionAfter (line + 1) 1 cs else positionAfter line (column + 1) cs

/-- The line and column of a byte offset.  An offset past the end counts as the end. -/
def lineColumn (text : String) (offset : Nat) : Nat × Nat :=
  positionAfter 1 1 (Text.takeBytes offset text.toList)

namespace SourceMap

/-- The line and column of a byte offset in a file. -/
def lineColumn? (sources : SourceMap) (file : FileId) (offset : Nat) : Option (Nat × Nat) :=
  sources[file]?.map fun f => lineColumn f.text offset

/-- The text of a diagnostic behind its place, if it has one. -/
def render (sources : SourceMap) (d : Diagnostic) : String :=
  match d.location with
  | none => d.text
  | some location =>
    match sources[location.file]? with
    | none => d.text
    | some file =>
      let (line, column) := lineColumn file.text location.span.start
      file.path ++ ":" ++ toString line ++ ":" ++ toString column ++ ": " ++ d.text

end SourceMap

end ActorIdl
