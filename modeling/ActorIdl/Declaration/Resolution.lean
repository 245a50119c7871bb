import ActorIdl.Declaration.Entry
/-! # Resolving references

    A reference is written with simple or dotted names.  Its first segment denotes, in this order: a
    declaration nested in one of the declarations around the reference, or one of those themselves,
    innermost first; a declaration of the same package; an import; a declaration of a package that
    needs no import.  Each further segment denotes a declaration nested in the one before.  A
    reference that denotes nothing is kept as written, and so is a primitive type. -/

namespace ActorIdl

/-- Where a reference stands. -/
structure Scope where
  /-- Everything that can be referred to. -/
  byName : NameIndex
  /-- The declarations around the reference, innermost first. -/
  outers : List Outer
  package : String
  imports : List Syntax.QualifiedName

namespace Scope

/-- Whether something is declared under a qualified name. -/
def declares (s : Scope) (qualifiedName : String) : Bool := s.byName.contains qualifiedName

/-- What a simple name denotes through the declarations around it. -/
def around? (s : Scope) (simple : String) : Option String :=
  s.outers.findSome? fun outer =>
    let nested := outer.qualifiedName ++ "." ++ simple
    if s.declares nested then some nested
    else if outer.simpleName = simple then some outer.qualifiedName
    else none

/-- What a simple name denotes in the package. -/
def packaged? (s : Scope) (simple : String) : Option String :=
  let name := qualify s.package simple
  if s.declares name then some name else none

/-- What a simple name denotes by an import.  Of imports with one last segment the last one
    counts. -/
def imported? (s : Scope) (simple : String) : Option String :=
  (s.imports.reverse.find? (·.last == simple)).map (·.dotted)

/-- What a simple name denotes in the packages that need no import. -/
def implicit? (s : Scope) (simple : String) : Option String :=
  (Library.implicitPackages.map (· ++ "." ++ simple)).find? s.declares

/-- What the first segment of a reference denotes. -/
def head? (s : Scope) (simple : String) : Option String :=
  s.around? simple <|> s.packaged? simple <|> s.imported? simple <|> s.implicit? simple

/-- What further segments denote below a declaration. -/
def below? (s : Scope) (qualifiedName : String) : List Syntax.Name → Option String
  | [] => some qualifiedName
  | segment :: rest =>
    let nested := qualifiedName ++ "." ++ segment.text
    if s.declares nested then s.below? nested rest else none

/-- The qualified name that a reference denotes. -/
def resolve (s : Scope) (q : Syntax.QualifiedName) : String :=
  if q.tail.isEmpty && Library.isPrimitive q.head.text then q.head.text
  else ((s.head? q.head.text).bind fun found => s.below? found q.tail).getD q.dotted

mutual

/-- A type with its names resolved. -/
def resolveType (s : Scope) : Syntax.TypeExpr → TypeRef
  | .mk name args dims _ => .mk (s.resolve name) (s.resolveTypes args) dims

/-- Types with their names resolved. -/
def resolveTypes (s : Scope) : List Syntax.TypeExpr → List TypeRef
  | [] => []
  | t :: ts => s.resolveType t :: s.resolveTypes ts

end

/-- An annotation with its name resolved. -/
def resolveAnnotation (s : Scope) (a : Syntax.AnnotationExpr) : AnnotationRef :=
  ⟨s.resolve a.name, a.args⟩

/-- A method with its references resolved. -/
def resolveMethod (s : Scope) (enclosing : DeclId) (file : FileId) (m : Syntax.Method) :
    Method where
  name := m.name.text
  doc := m.doc
  annotations := m.annotations.map s.resolveAnnotation
  returnType := s.resolveType m.returnType
  params := m.params.map fun p => ⟨p.name.text, s.resolveType p.type⟩
  enclosing
  location := ⟨file, m.span⟩

/-- The numbers of members.  A method is resolved and gets the next place in the arena. -/
def resolveMembers (s : Scope) (enclosing : DeclId) (file : FileId) (methods : Array Method) :
    List EnteredMember → List MemberRef × Array Method
  | [] => ([], methods)
  | .type id :: ms =>
    let (refs, methods) := s.resolveMembers enclosing file methods ms
    (.type id :: refs, methods)
  | .method m :: ms =>
    let ref := methods.size
    let (refs, methods) :=
      s.resolveMembers enclosing file (methods.push (s.resolveMethod enclosing file m)) ms
    (.method ref :: refs, methods)

end Scope

namespace Entry

/-- The scope of what stands in front of the body: the declaration itself is not around it. -/
def headScope (e : Entry) (byName : NameIndex) : Scope := ⟨byName, e.outers, e.package, e.imports⟩

/-- The scope of what stands in the body. -/
def bodyScope (e : Entry) (byName : NameIndex) : Scope :=
  ⟨byName, e.asOuter :: e.outers, e.package, e.imports⟩

/-- What an entry declares apart from its members, with its references resolved. -/
def info (byName : NameIndex) (e : Entry) : DeclInfo :=
  let scope := e.headScope byName
  let extended := e.head.extended.map scope.resolveType
  let implemented := e.head.implemented.map scope.resolveType
  let (interfaces, superclass) :=
    match e.head.kind with
    | .classType => (implemented, extended.head?)
    | .interfaceType | .annotationType => (extended, none)
  { kind := e.head.kind
    simpleName := e.simpleName
    qualifiedName := e.qualifiedName
    binaryName := e.binaryName
    package := e.package
    doc := e.head.doc
    isAbstract := e.head.isAbstract
    annotations := e.head.annotations.map scope.resolveAnnotation
    interfaces
    superclass
    enclosing := e.outers.head?.map (·.id)
    location := ⟨e.file, e.head.name.span⟩ }

/-- The declaration of an entry, and the arena with its methods behind those before. -/
def resolve (byName : NameIndex) (methods : Array Method) (e : Entry) :
    StoredDeclaration × Array Method :=
  let (members, methods) := (e.bodyScope byName).resolveMembers e.id e.file methods e.members
  ({ e.info byName with members }, methods)

/-- The declarations of entries, one after the other, and the arena of their methods. -/
def resolveAll (byName : NameIndex) (methods : Array Method) :
    List Entry → List StoredDeclaration × Array Method
  | [] => ([], methods)
  | e :: es =>
    let (d, methods) := e.resolve byName methods
    let (ds, methods) := resolveAll byName methods es
    (d :: ds, methods)

theorem length_resolveAll (byName : NameIndex) (methods : Array Method) (es : List Entry) :
    (resolveAll byName methods es).1.length = es.length := by
  induction es generalizing methods with
  | nil => rfl
  | cons e es ih => exact congrArg (· + 1) (ih _)

end Entry

/-- The table of the declarations of all units, and what is wrong with them. -/
def Table.build (units : List SourceUnit) : Table × List Diagnostic :=
  let entered := enterUnits .start units
  let byName := entered.register.byName
  let resolved := Entry.resolveAll byName #[] entered.entries
  let table : Table :=
    { stored := resolved.1
      methods := resolved.2
      roots := entered.members
      byName
      lt_length := by
        intro name id h
        rw [Entry.length_resolveAll, ← Nat.zero_add entered.entries.length]
        exact next_enterUnits .start units ▸ entered.register.lt_next name id h }
  (table, entered.reports)

end ActorIdl
