import ActorIdl.Declaration.Reference
import ActorIdl.Declaration.Register
import ActorIdl.Span
import ActorIdl.Syntax
/-! # The declaration table

    The type declarations of a build with every reference resolved.  A declaration is known by its
    number, its place in the table; a declaration comes before those nested in it.  The methods of
    all declarations stand in an arena of their own, and a declaration lists its members by their
    numbers there and here.  The roots are the top-level declarations that a round is about, the
    others are there to be referred to. -/

namespace ActorIdl

/-- The kinds of type declaration. -/
abbrev DeclKind := Syntax.DeclKind

/-- A parameter of a method. -/
structure Param where
  name : String
  type : TypeRef
deriving Repr

/-- A method of a declaration. -/
structure Method where
  name : String
  doc : Option String
  annotations : List AnnotationRef
  returnType : TypeRef
  params : List Param
  /-- The declaration that the method stands in. -/
  enclosing : DeclId
  location : Location
deriving Repr

/-- The number of a method, its place in the arena. -/
abbrev MethodRef := Nat

/-- A member of a declaration by its number: a nested declaration or a method. -/
inductive MemberRef where
  | type (id : DeclId)
  | method (ref : MethodRef)
deriving Repr, DecidableEq

/-- A member of a declaration: a nested declaration or a method. -/
inductive Member where
  | type (id : DeclId)
  | method (m : Method)
deriving Repr

/-- A type declaration without its members. -/
structure DeclInfo where
  kind : DeclKind
  simpleName : String
  /-- The name with its package and enclosing declarations, as in `pkg.Outer.Inner`. -/
  qualifiedName : String
  /-- The name with a dollar between nested declarations, as in `pkg.Outer$Inner`. -/
  binaryName : String
  package : String
  doc : Option String
  isAbstract : Bool
  annotations : List AnnotationRef
  /-- What a class implements and what any other declaration extends. -/
  interfaces : List TypeRef
  /-- What a class extends. -/
  superclass : Option TypeRef
  enclosing : Option DeclId
  location : Location
deriving Repr

/-- A type declaration as it stands in the table. -/
structure StoredDeclaration extends DeclInfo where
  members : List MemberRef
deriving Repr

/-- A type declaration with the methods that its members refer to. -/
structure Declaration extends DeclInfo where
  members : List Member
deriving Repr

/-- The member with a number, its method from the arena. -/
def MemberRef.member? (methods : Array Method) : MemberRef → Option Member
  | .type id => some (.type id)
  | .method ref => methods[ref]?.map .method

/-- A declaration with its methods from the arena. -/
def StoredDeclaration.view (methods : Array Method) (d : StoredDeclaration) : Declaration :=
  { d.toDeclInfo with members := d.members.filterMap (·.member? methods) }

namespace Declaration

/-- The numbers of the nested declarations, in source order. -/
def nested (d : Declaration) : List DeclId :=
  d.members.filterMap fun m =>
    match m with
    | .type id => some id
    | .method _ => none

/-- The methods, in source order. -/
def methods (d : Declaration) : List Method :=
  d.members.filterMap fun m =>
    match m with
    | .type _ => none
    | .method m => some m

/-- Whether a declaration carries an annotation. -/
def isMarked (d : Declaration) (annotationName : String) : Bool :=
  d.annotations.any (·.name == annotationName)

/-- The names of the types directly above: the interfaces, then the superclass of a class. -/
def supertypeNames (d : Declaration) : List String :=
  d.interfaces.map (·.name) ++
    if d.kind = .classType then d.superclass.toList.map (·.name) else []

end Declaration

/-- Whether a method carries an annotation. -/
def Method.isMarked (m : Method) (annotationName : String) : Bool :=
  m.annotations.any (·.name == annotationName)

/-- The declarations of a build. -/
structure Table where
  stored : List StoredDeclaration
  /-- The methods of all declarations. -/
  methods : Array Method
  roots : List DeclId
  byName : NameIndex
  /-- What stands in the index is in the table. -/
  lt_length : ∀ name id, byName.find? name = some id → id < stored.length
deriving Repr

namespace Table

/-- The number of declarations. -/
def size (t : Table) : Nat := t.stored.length

/-- The declarations with their methods. -/
def decls (t : Table) : List Declaration := t.stored.map (·.view t.methods)

/-- The declaration with a number. -/
def get? (t : Table) (id : DeclId) : Option Declaration := t.stored[id]?.map (·.view t.methods)

/-- The number of the declaration with a qualified name. -/
def lookup (t : Table) (qualifiedName : String) : Option DeclId := t.byName.find? qualifiedName

/-- The methods of a declaration. -/
def methodsOf (t : Table) (id : DeclId) : List Method := ((t.get? id).map (·.methods)).getD []

/-- The declarations nested in a declaration. -/
def nestedOf (t : Table) (id : DeclId) : List DeclId := ((t.get? id).map (·.nested)).getD []

/-- Whether a declaration carries an annotation. -/
def isMarked (t : Table) (id : DeclId) (annotationName : String) : Bool :=
  (t.get? id).any (·.isMarked annotationName)

/-- Whether a declaration is of a kind. -/
def isKind (t : Table) (id : DeclId) (kind : DeclKind) : Bool := (t.get? id).any (·.kind == kind)

/-- The qualified name of a declaration, empty if there is none. -/
def nameOf (t : Table) (id : DeclId) : String := ((t.get? id).map (·.qualifiedName)).getD ""

end Table

end ActorIdl
