import ActorIdl.Text.Basic
/-! # Paths

    A path is text with slashes between its components.  Repeated and trailing slashes and
    components that are a single dot do not count, except for a dot at the very start; paths are the
    same when their components are.  The text itself is what messages show. -/

namespace ActorIdl.Path

/-- A step of a path. -/
inductive Component where
  /-- The slash that an absolute path begins with. -/
  | root
  | current
  | parent
  | normal (name : String)
deriving Repr, DecidableEq

/-- The text of a component. -/
def Component.text : Component → String
  | .root => "/"
  | .current => "."
  | .parent => ".."
  | .normal name => name

/-- The texts between the slashes of a path, empty ones included. -/
def parts (path : String) : List String := (Text.splitOn '/' path.toList).map String.ofList

/-- Whether a path begins with a slash. -/
def isAbsolute (path : String) : Bool := path.toList.head? == some '/'

/-- A part after the first one as a component: the parts that stand for no step are left out. -/
def inner? (part : String) : Option Component :=
  if part = "" ∨ part = "." then none
  else if part = ".." then some .parent
  else some (.normal part)

/-- The components of a path. -/
def components (path : String) : List Component :=
  if isAbsolute path then .root :: (parts path).filterMap inner?
  else match parts path with
    | "." :: rest => .current :: rest.filterMap inner?
    | all => all.filterMap inner?

/-- The texts that end with a component among the given parts, `before` being the text before
    them. -/
def initialsFrom (before : String) : List String → List String
  | [] => []
  | part :: rest =>
    let text := before ++ "/" ++ part
    if (inner? part).isSome then text :: initialsFrom text rest else initialsFrom text rest

/-- For every component the text of the path up to it.  Repeated slashes inside the text stay. -/
def initials (path : String) : List String :=
  if isAbsolute path then "/" :: initialsFrom "" (parts path).tail
  else match parts path with
    | "" :: _ => []
    | first :: rest => first :: initialsFrom first rest
    | [] => []

/-- The parts before the last name of a path that has a slash after that name. -/
def beforeClosedName? (path : String) : Option (List String) :=
  match (parts path).reverse with
  | "" :: rest =>
    match rest.dropWhile (· = "") with
    | last :: before => if (inner? last).any (· ≠ .parent) then some before.reverse else none
    | [] => none
  | _ => none

/-- Whether a path consists of names alone, at least one. -/
def isPlain (path : String) : Bool :=
  path ≠ "" && (components path).all fun c =>
    match c with
    | .normal _ => true
    | _ => false

/-- A path below another one.  An absolute path stays as it is. -/
def join (dir path : String) : String :=
  if isAbsolute path then path
  else if dir = "" then path
  else if dir.toList.getLast? = some '/' then dir ++ path
  else dir ++ "/" ++ path

/-! ## Order -/

/-- The place of a component among components of other kinds. -/
def Component.rank : Component → Nat
  | .root => 0
  | .current => 1
  | .parent => 2
  | .normal _ => 3

/-- Names are ordered by their characters and stand after the other components. -/
def Component.le (a b : Component) : Bool :=
  match a, b with
  | .normal x, .normal y => x ≤ y
  | _, _ => a.rank ≤ b.rank

/-- Lists of components are ordered component by component. -/
def componentsLe : List Component → List Component → Bool
  | [], _ => true
  | _ :: _, [] => false
  | a :: as, b :: bs => if a = b then componentsLe as bs else a.le b

/-- The order in which files are listed. -/
def le (a b : String) : Bool := componentsLe (components a) (components b)

/-! ## Packages -/

/-- What is left of a list after another one at its start. -/
def afterStart? : List Component → List Component → Option (List Component)
  | [], path => some path
  | _ :: _, [] => none
  | a :: start, b :: path => if a = b then afterStart? start path else none

/-- The package that the place of a file below a directory stands for: the names of the directories
    between them with dots.  A file directly in the directory has none. -/
def packageOf? (root file : String) : Option String :=
  match afterStart? (components root) (components file) with
  | none => none
  | some relative =>
    match relative.dropLast with
    | [] => none
    | dirs => some (Text.joinWith "." (dirs.map (·.text)))

end ActorIdl.Path
