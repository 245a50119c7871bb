import ActorIdl.Interface.Descriptor
import ActorIdl.Interface.MarkerUse
/-! # Identifier collisions

    Different signatures may hash to one identifier.  Methods of an interface that share an
    identifier are reported in neighbouring pairs and all left out, since no dispatcher could tell
    them apart.  Interfaces that share an identifier are reported only. -/

namespace ActorIdl

/-- The pairs of neighbours in a list. -/
def neighbours {α : Type} : List α → List (α × α)
  | a :: b :: rest => (a, b) :: neighbours (b :: rest)
  | _ => []

namespace InterfaceDescriptor

/-- The methods with an identifier, in order. -/
def methodsWithId (i : InterfaceDescriptor) (id : MethodId) : List MethodDescriptor :=
  i.methods.filter (·.methodId == some id)

/-- The identifiers of the methods, each once and in ascending order. -/
def methodIds (i : InterfaceDescriptor) : List MethodId :=
  (i.methods.filterMap (·.methodId)).eraseDups.mergeSort fun a b => a.value ≤ b.value

/-- Whether no other method has the identifier of a method. -/
def hasOwnId (i : InterfaceDescriptor) (m : MethodDescriptor) : Bool :=
  match m.methodId with
  | none => true
  | some id => (i.methodsWithId id).length < 2

/-- The interface without the methods that share an identifier. -/
def dropCollisions (i : InterfaceDescriptor) : InterfaceDescriptor :=
  { i with methods := i.methods.filter i.hasOwnId }

/-- The reports about methods that share an identifier. -/
def collisionReports (t : Table) (i : InterfaceDescriptor) : List Diagnostic :=
  i.methodIds.flatMap fun id =>
    (neighbours (i.methodsWithId id)).map fun (first, second) =>
      t.reportAt i.decl (.methodIdCollision id first.signature second.signature)

end InterfaceDescriptor

/-- The identifiers of interfaces, each once and in ascending order. -/
def interfaceIds (is : List InterfaceDescriptor) : List InterfaceId :=
  (is.map (·.interfaceId)).eraseDups.mergeSort fun a b => a.value ≤ b.value

/-- The reports about interfaces that share an identifier. -/
def interfaceCollisionReports (t : Table) (is : List InterfaceDescriptor) : List Diagnostic :=
  (interfaceIds is).flatMap fun id =>
    (neighbours (is.filter (·.interfaceId == id))).map fun (first, second) =>
      t.reportAt second.decl (.interfaceIdCollision id first.qualifiedName second.qualifiedName)

/-- All reports about collisions in a list of interfaces. -/
def collisionReports (t : Table) (is : List InterfaceDescriptor) : List Diagnostic :=
  is.flatMap (·.collisionReports t) ++ interfaceCollisionReports t is

end ActorIdl
