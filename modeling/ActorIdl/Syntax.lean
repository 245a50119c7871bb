import ActorIdl.Text.Basic
import ActorIdl.Span
/-! # Syntax trees

    What a source declares, as written: one compilation unit a file, holding type declarations whose
    bodies nest methods and further declarations.  Every node has the span from the start of its
    first token to the end of its last. -/

namespace ActorIdl.Syntax

/-- An identifier, or a reserved word that stands after a dot. -/
structure Name where
  text : String
  span : Span
deriving Repr, DecidableEq

/-! ## Names, types and annotations -/

/-- A dotted name, such as `com.example.Hello`. -/
structure QualifiedName where
  head : Name
  tail : List Name
  span : Span
deriving Repr, DecidableEq

namespace QualifiedName

/-- The names between the dots. -/
def segments (q : QualifiedName) : List Name := q.head :: q.tail

/-- The name with its dots and without blanks. -/
def dotted (q : QualifiedName) : String := Text.joinWith "." (q.segments.map (·.text))

/-- The part after the last dot. -/
def last (q : QualifiedName) : String := (q.tail.getLast?.getD q.head).text

end QualifiedName

/-- A type: a name, type arguments and array dimensions. -/
inductive TypeExpr where
  | mk (name : QualifiedName) (args : List TypeExpr) (dims : Nat) (span : Span)
deriving Repr

namespace TypeExpr

/-- The name of the type without arguments and dimensions. -/
def name : TypeExpr → QualifiedName
  | mk name _ _ _ => name

/-- The type arguments. -/
def args : TypeExpr → List TypeExpr
  | mk _ args _ _ => args

/-- The number of array dimensions. -/
def dims : TypeExpr → Nat
  | mk _ _ dims _ => dims

/-- Where the type stands. -/
def span : TypeExpr → Span
  | mk _ _ _ span => span

end TypeExpr

/-- An annotation in front of a declaration or method.  Its arguments are kept as source text. -/
structure AnnotationExpr where
  name : QualifiedName
  args : List String
  span : Span
deriving Repr

/-! ## Members and declarations -/

/-- A parameter of a method. -/
structure Param where
  type : TypeExpr
  name : Name
  span : Span
deriving Repr

/-- A method declaration. -/
structure Method where
  name : Name
  doc : Option String
  annotations : List AnnotationExpr
  returnType : TypeExpr
  params : List Param
  span : Span
deriving Repr

/-- The kinds of type declaration. -/
inductive DeclKind where
  | interfaceType
  | classType
  | annotationType
deriving Repr, DecidableEq

/-- A type declaration without its body.  The span covers the body too. -/
structure DeclHead where
  kind : DeclKind
  name : Name
  doc : Option String
  annotations : List AnnotationExpr
  isAbstract : Bool
  /-- The types of the `extends` clause. -/
  extended : List TypeExpr
  /-- The types of the `implements` clause. -/
  implemented : List TypeExpr
  span : Span
deriving Repr

/-- A member of a type declaration. -/
inductive Member where
  | method (m : Method)
  | nested (head : DeclHead) (members : List Member)
deriving Repr

/-- A type declaration. -/
structure Decl where
  head : DeclHead
  members : List Member
deriving Repr

/-- A declaration as a member of another one. -/
def Decl.toMember (d : Decl) : Member := .nested d.head d.members

/-- The declarations of one source.  A source without tokens has the empty span at its end. -/
structure CompilationUnit where
  package : Option QualifiedName
  imports : List QualifiedName
  decls : List Decl
  span : Span
deriving Repr

end ActorIdl.Syntax
