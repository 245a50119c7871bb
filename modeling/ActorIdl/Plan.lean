import ActorIdl.Declaration.Entry
import ActorIdl.Interface.Descriptor
/-! # Plans

    Everything that is generated for one interface follows from its plan: the names of the generated
    types and the methods with their wire identifiers.  Generated types are named after the
    interface, without the capital I that marks interfaces. -/

namespace ActorIdl

/-- The name of an interface without the `I` that marks it.  Only an `I` before another capital
    letter is such a mark. -/
def baseName (simpleName : String) : String :=
  match simpleName.toList with
  | 'I' :: c :: rest => if c.isUpper then String.ofList (c :: rest) else simpleName
  | _ => simpleName

namespace MethodDescriptor

/-- The identifier that was assigned, or else that of the signature. -/
def effectiveId (m : MethodDescriptor) : MethodId := m.methodId.getD (.ofSignature m.signature)

/-- The method with its effective identifier assigned. -/
def fixId (m : MethodDescriptor) : MethodDescriptor := { m with methodId := some m.effectiveId }

end MethodDescriptor

/-! ## Dispatch tables -/

/-- From method identifiers to positions in a list of methods. -/
structure DispatchTable where
  entries : List (MethodId × Nat)
deriving Repr, DecidableEq

namespace DispatchTable

/-- The position of the method with an identifier. -/
def get? (d : DispatchTable) (id : MethodId) : Option Nat := d.entries.lookup id

/-- The number of identifiers. -/
def size (d : DispatchTable) : Nat := d.entries.length

/-- The table with another identifier, unless it is there. -/
def insertNew (d : DispatchTable) (id : MethodId) (index : Nat) : DispatchTable :=
  if (d.get? id).isSome then d else ⟨d.entries ++ [(id, index)]⟩

/-- The table of a list of methods from a position on; the first method with an identifier
    counts. -/
def insertAll (d : DispatchTable) (index : Nat) : List MethodDescriptor → DispatchTable
  | [] => d
  | m :: ms => (d.insertNew m.effectiveId index).insertAll (index + 1) ms

/-- The table of a list of methods. -/
def ofMethods (methods : List MethodDescriptor) : DispatchTable := insertAll ⟨[]⟩ 0 methods

end DispatchTable

/-! ## Plans -/

/-- What is generated for an interface. -/
structure Plan where
  decl : DeclId
  interfaceId : InterfaceId
  interfaceName : String
  binaryName : String
  package : String
  simpleName : String
  referenceName : String
  invokerName : String
  factoryName : String
  isActor : Bool
  isNoIdentity : Bool
  doc : Option String
  annotations : List AnnotationRef
  methods : List MethodDescriptor
deriving Repr

namespace Plan

/-- The plan of an interface. -/
def ofDescriptor (i : InterfaceDescriptor) : Plan where
  decl := i.decl
  interfaceId := i.interfaceId
  interfaceName := i.qualifiedName
  binaryName := i.binaryName
  package := i.package
  simpleName := i.simpleName
  referenceName := baseName i.simpleName ++ "Reference"
  invokerName := baseName i.simpleName ++ "Invoker"
  factoryName := baseName i.simpleName ++ "Factory"
  isActor := i.isActor
  isNoIdentity := i.isNoIdentity
  doc := i.doc
  annotations := i.annotations
  methods := i.methods.map (·.fixId)

/-- The dispatch table of the methods. -/
def dispatchTable (p : Plan) : DispatchTable := .ofMethods p.methods

/-- A name in the package of the interface. -/
def qualified (p : Plan) (simple : String) : String := qualify p.package simple

/-- The qualified name of the registrar. -/
def factoryQualifiedName (p : Plan) : String := p.qualified p.factoryName

/-- The method with a canonical signature. -/
def methodBySignature? (p : Plan) (signature : String) : Option MethodDescriptor :=
  p.methods.find? (·.signature == signature)

end Plan

end ActorIdl
