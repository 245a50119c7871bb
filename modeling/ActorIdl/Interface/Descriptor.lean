import ActorIdl.Declaration.Search
import ActorIdl.Declaration.Table
import ActorIdl.Library
import ActorIdl.Wire
/-! # Interface descriptors

    What an interface offers to remote callers: its names and marks, and its effective methods.
    These are its own methods in declaration order and then the inherited ones, breadth-first over
    the interfaces that it extends.  Of methods with one canonical signature the first counts, and
    the methods of the root type do not. -/

namespace ActorIdl

/-- A parameter with its position. -/
structure ParamDescriptor where
  name : String
  type : TypeRef
  index : Nat
deriving Repr

/-- A method as remote callers see it. -/
structure MethodDescriptor where
  name : String
  returnType : TypeRef
  params : List ParamDescriptor
  doc : Option String
  annotations : List AnnotationRef
  isOneWay : Bool
  /-- The wire identifier, once assigned. -/
  methodId : Option MethodId
  /-- The qualified name of the interface that declares the method. -/
  declaredIn : String
  location : Location
deriving Repr

namespace MethodDescriptor

/-- The canonical signature. -/
def signature (m : MethodDescriptor) : String :=
  ActorIdl.signature m.name (m.params.map (·.type.text))

/-- How diagnostics name the method. -/
def originName (m : MethodDescriptor) : String := m.declaredIn ++ "#" ++ m.name

/-- The descriptor of a method that is declared in an interface of the given name. -/
def ofMethod (declaredIn : String) (m : Method) : MethodDescriptor where
  name := m.name
  returnType := m.returnType
  params := m.params.mapIdx fun index p => ⟨p.name, p.type, index⟩
  doc := m.doc
  annotations := m.annotations.filter (·.name != Library.override)
  isOneWay := m.isMarked Library.oneWay
  methodId := none
  declaredIn
  location := m.location

/-- The method with the identifier of its signature. -/
def assignId (m : MethodDescriptor) : MethodDescriptor :=
  { m with methodId := some (.ofSignature m.signature) }

end MethodDescriptor

/-- An interface as remote callers see it. -/
structure InterfaceDescriptor where
  decl : DeclId
  qualifiedName : String
  binaryName : String
  package : String
  simpleName : String
  doc : Option String
  annotations : List AnnotationRef
  isActor : Bool
  isNoIdentity : Bool
  methods : List MethodDescriptor
deriving Repr

namespace InterfaceDescriptor

/-- The wire identifier. -/
def interfaceId (i : InterfaceDescriptor) : InterfaceId := .ofName i.qualifiedName

/-- The interface with the identifiers of all its methods. -/
def assignIds (i : InterfaceDescriptor) : InterfaceDescriptor :=
  { i with methods := i.methods.map (·.assignId) }

end InterfaceDescriptor

/-- The first method of each signature that is not in `seen`. -/
def firstOfSignature (seen : List String) : List MethodDescriptor → List MethodDescriptor
  | [] => []
  | m :: ms =>
    if seen.contains m.signature then firstOfSignature seen ms
    else m :: firstOfSignature (m.signature :: seen) ms

namespace Table

/-- Whether a declaration is the root type. -/
def isRootType (t : Table) (id : DeclId) : Bool := t.nameOf id == Library.object

/-- The declared interfaces that a declaration extends; the root type counts as extending none. -/
def parents (t : Table) (id : DeclId) : List DeclId :=
  if t.isRootType id then []
  else (((t.get? id).map (·.interfaces)).getD []).filterMap fun type => t.lookup type.name

/-- A declaration and the interfaces that it inherits methods from. -/
def lineage (t : Table) (id : DeclId) : List DeclId :=
  (breadthFirst t.parents (List.range t.size) [id]).filter (!t.isRootType ·)

/-- The methods that a declaration itself declares. -/
def ownMethods (t : Table) (id : DeclId) : List MethodDescriptor :=
  (t.methodsOf id).map (.ofMethod (t.nameOf id))

/-- The effective methods of a declaration. -/
def effectiveMethods (t : Table) (id : DeclId) : List MethodDescriptor :=
  firstOfSignature [] ((t.lineage id).flatMap t.ownMethods)

/-- The descriptor of a declaration. -/
def describe (t : Table) (id : DeclId) (isActor : Bool) : Option InterfaceDescriptor :=
  (t.get? id).map fun d =>
    { decl := id
      qualifiedName := d.qualifiedName
      binaryName := d.binaryName
      package := d.package
      simpleName := d.simpleName
      doc := d.doc
      annotations := d.annotations
      isActor
      isNoIdentity := d.isMarked Library.noIdentity
      methods := t.effectiveMethods id }

end Table

end ActorIdl
