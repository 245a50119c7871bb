import ActorIdl.Json
import ActorIdl.Plan
/-! # Descriptors and plans as JSON

    The form in which descriptors and plans are printed.  Types and annotations are written as their
    canonical texts. -/

namespace ActorIdl

/-- A parameter as JSON. -/
def ParamDescriptor.toJson (p : ParamDescriptor) : Json :=
  .obj [("name", .str p.name), ("type", .str p.type.text), ("index", .int p.index)]

/-- Annotations as JSON. -/
def annotationsJson (annotations : List AnnotationRef) : Json :=
  .arr (annotations.map fun a => .str a.text)

/-- A method as JSON. -/
def MethodDescriptor.toJson (m : MethodDescriptor) : Json :=
  .obj
    [("name", .str m.name),
     ("return_type", .str m.returnType.text),
     ("params", .arr (m.params.map (·.toJson))),
     ("doc", .optional m.doc),
     ("annotations", annotationsJson m.annotations),
     ("oneway", .bool m.isOneWay),
     ("method_id", match m.methodId with
      | none => .null
      | some id => .int id.value.toInt),
     ("declared_in", .str m.declaredIn)]

/-- A descriptor as JSON. -/
def InterfaceDescriptor.toJson (i : InterfaceDescriptor) : Json :=
  .obj
    [("qualified_name", .str i.qualifiedName),
     ("binary_name", .str i.binaryName),
     ("package", .str i.package),
     ("simple_name", .str i.simpleName),
     ("doc", .optional i.doc),
     ("annotations", annotationsJson i.annotations),
     ("is_actor", .bool i.isActor),
     ("is_no_identity", .bool i.isNoIdentity),
     ("methods", .arr (i.methods.map (·.toJson)))]

/-- A plan as JSON. -/
def Plan.toJson (p : Plan) : Json :=
  .obj
    [("interface_id", .int p.interfaceId.value.toInt),
     ("interface_name", .str p.interfaceName),
     ("binary_name", .str p.binaryName),
     ("package", .str p.package),
     ("simple_name", .str p.simpleName),
     ("reference_name", .str p.referenceName),
     ("invoker_name", .str p.invokerName),
     ("factory_name", .str p.factoryName),
     ("is_actor", .bool p.isActor),
     ("is_no_identity", .bool p.isNoIdentity),
     ("doc", .optional p.doc),
     ("annotations", annotationsJson p.annotations),
     ("methods", .arr (p.methods.map (·.toJson)))]

end ActorIdl
