import ActorIdl.Declaration.Table
import ActorIdl.Diagnostic
/-! # Entering declarations

    The declarations of all units are entered in source order, each before those nested in it, under
    their qualified names.  A declaration whose name is taken is reported and left out with
    everything in it.  What an entered declaration refers to is resolved later, when all names are
    known. -/

namespace ActorIdl

/-- A parsed source that takes part in a build. -/
structure SourceUnit where
  unit : Syntax.CompilationUnit
  file : FileId
  /-- The package of a source that names none itself. -/
  packageHint : Option String
  /-- Whether the round is about the declarations of this source. -/
  isRoot : Bool

/-- The package of a source: the one it names, else the hint, else the unnamed one. -/
def SourceUnit.package (u : SourceUnit) : String :=
  match u.unit.package with
  | some q => q.dotted
  | none => u.packageHint.getD ""

/-- A name in a package; the unnamed package adds nothing. -/
def qualify (package simple : String) : String :=
  if package = "" then simple else package ++ "." ++ simple

/-- A declaration around others. -/
structure Outer where
  id : DeclId
  simpleName : String
  qualifiedName : String
  binaryName : String
deriving Repr, DecidableEq

/-- A member of an entered declaration; a method is still as written. -/
inductive EnteredMember where
  | type (id : DeclId)
  | method (m : Syntax.Method)
deriving Repr

/-- A declaration that has its number and names.  What it refers to is still as written. -/
structure Entry where
  id : DeclId
  head : Syntax.DeclHead
  qualifiedName : String
  binaryName : String
  package : String
  /-- The declarations around this one, innermost first. -/
  outers : List Outer
  members : List EnteredMember
  file : FileId
  imports : List Syntax.QualifiedName
deriving Repr

/-- The simple name of an entry. -/
def Entry.simpleName (e : Entry) : String := e.head.name.text

/-- The entry as what its members are declared in. -/
def Entry.asOuter (e : Entry) : Outer := ⟨e.id, e.simpleName, e.qualifiedName, e.binaryName⟩

/-- A class extends at most one type, and only a class implements types: the first surplus type. -/
def surplusSupertype? (qualifiedName : String) (head : Syntax.DeclHead) :
    Option (Cause × Syntax.TypeExpr) :=
  match head.kind with
  | .classType => head.extended[1]?.map fun t => (.secondSuperclass qualifiedName, t)
  | .interfaceType | .annotationType =>
    head.implemented.head?.map fun t => (.implementsClause qualifiedName, t)

/-- What entering a member or several yields. -/
structure Entered (α : Type) where
  members : α
  entries : List Entry
  reports : List Diagnostic
  /-- The register with the entries in it. -/
  register : Register

/-- The names under which declarations were entered. -/
def entryNames (entries : List Entry) : List String := entries.map (·.qualifiedName)

/-- The qualified name of a declaration in a package or in another declaration. -/
def qualifiedNameIn (package : String) (outers : List Outer) (simple : String) : String :=
  match outers with
  | [] => qualify package simple
  | outer :: _ => outer.qualifiedName ++ "." ++ simple

/-- The binary name of a declaration in a package or in another declaration. -/
def binaryNameIn (package : String) (outers : List Outer) (simple : String) : String :=
  match outers with
  | [] => qualify package simple
  | outer :: _ => outer.binaryName ++ "$" ++ simple

mutual

/-- Enters a member of a declaration or of a unit. -/
def enterMember (u : SourceUnit) (outers : List Outer) (r : Register) :
    Syntax.Member → Entered (Option EnteredMember)
  | .method m => ⟨some (.method m), [], [], r⟩
  | .nested head members =>
    let simple := head.name.text
    let qualifiedName := qualifiedNameIn u.package outers simple
    if r.byName.contains qualifiedName then
      ⟨none, [], [⟨.duplicateDeclaration qualifiedName, some ⟨u.file, head.name.span⟩,
        some qualifiedName⟩], r⟩
    else
      let binaryName := binaryNameIn u.package outers simple
      let id := r.next
      let outer : Outer := ⟨id, simple, qualifiedName, binaryName⟩
      let inner := enterMembers u (outer :: outers) (r.enter qualifiedName) members
      let surplus := (surplusSupertype? qualifiedName head).toList.map fun (cause, type) =>
        ⟨cause, some ⟨u.file, type.span⟩, some qualifiedName⟩
      ⟨some (.type id),
        ⟨id, head, qualifiedName, binaryName, u.package, outers, inner.members, u.file,
          u.unit.imports⟩ :: inner.entries,
        surplus ++ inner.reports, inner.register⟩

/-- Enters members one after the other. -/
def enterMembers (u : SourceUnit) (outers : List Outer) (r : Register) :
    List Syntax.Member → Entered (List EnteredMember)
  | [] => ⟨[], [], [], r⟩
  | m :: ms =>
    let first := enterMember u outers r m
    let rest := enterMembers u outers first.register ms
    ⟨first.members.toList ++ rest.members, first.entries ++ rest.entries,
      first.reports ++ rest.reports, rest.register⟩

end

/-- Enters the declarations of a unit. -/
def enterUnit (r : Register) (u : SourceUnit) : Entered (List EnteredMember) :=
  enterMembers u [] r (u.unit.decls.map (·.toMember))

/-- The numbers among entered members. -/
def enteredIds (members : List EnteredMember) : List DeclId :=
  members.filterMap fun m =>
    match m with
    | .type id => some id
    | .method _ => none

/-- Enters the declarations of units one after the other.  The members are those of the root
    units. -/
def enterUnits (r : Register) : List SourceUnit → Entered (List DeclId)
  | [] => ⟨[], [], [], r⟩
  | u :: us =>
    let first := enterUnit r u
    let rest := enterUnits first.register us
    ⟨(if u.isRoot then enteredIds first.members else []) ++ rest.members,
      first.entries ++ rest.entries, first.reports ++ rest.reports, rest.register⟩

/-! ## The count of the entries -/

section
variable (u : SourceUnit)

mutual

theorem next_enterMember (outers : List Outer) (r : Register) (m : Syntax.Member) :
    (enterMember u outers r m).register.next =
      r.next + (enterMember u outers r m).entries.length :=
  match m with
  | .method _ => rfl
  | .nested head members => by
    rw [enterMember]
    dsimp only
    split
    · rfl
    · rw [next_enterMembers _ _ members, Register.next_enter, List.length_cons, Nat.add_assoc,
        Nat.add_comm 1]

/-- The register counts the entries. -/
theorem next_enterMembers (outers : List Outer) (r : Register) (ms : List Syntax.Member) :
    (enterMembers u outers r ms).register.next =
      r.next + (enterMembers u outers r ms).entries.length :=
  match ms with
  | [] => rfl
  | m :: ms => by
    rw [enterMembers]
    dsimp only
    rw [next_enterMembers outers _ ms, next_enterMember outers r m, List.length_append,
      Nat.add_assoc]

end

end

theorem next_enterUnits (r : Register) (us : List SourceUnit) :
    (enterUnits r us).register.next = r.next + (enterUnits r us).entries.length := by
  induction us generalizing r with
  | nil => rfl
  | cons u us ih =>
    rw [enterUnits]
    dsimp only
    rw [ih, enterUnit, next_enterMembers, List.length_append, Nat.add_assoc]

end ActorIdl
