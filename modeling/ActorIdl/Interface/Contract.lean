import ActorIdl.Diagnostic
import ActorIdl.Interface.Descriptor
/-! # The contract of remote methods

    A remote method returns a task with at most one result type.  A one-way method has no result,
    and the parameters of a method have different names.  A method that breaks the contract is
    reported once, for the first rule that it breaks, and left out of its interface. -/

namespace ActorIdl

/-- The first name that stands twice in a list, `seen` being the names before the list. -/
def firstRepeated? (seen : List String) : List String → Option String
  | [] => none
  | name :: names =>
    if seen.contains name then some name else firstRepeated? (name :: seen) names

namespace TypeRef

/-- Whether a type is a task with at most one result type. -/
def isTask (t : TypeRef) : Bool := t.name == Library.task && t.dims == 0 && t.args.length ≤ 1

/-- Whether a type is a task without a result. -/
def isVoidTask (t : TypeRef) : Bool :=
  t.isRaw Library.task ||
    t.name == Library.task && t.dims == 0 &&
      match t.args with
      | [result] => result.isRaw Library.void
      | _ => false

end TypeRef

namespace MethodDescriptor

/-- The rule of the contract that a method breaks. -/
def violation? (m : MethodDescriptor) : Option Cause :=
  if m.returnType.isRaw "void" then some .voidResult
  else if !m.returnType.isTask then some (.resultNotTask m.returnType)
  else if m.isOneWay && !m.returnType.isVoidTask then some (.oneWayResult m.returnType)
  else (firstRepeated? [] (m.params.map (·.name))).map .repeatedParameter

/-- The report about a method that breaks the contract. -/
def violationReport? (m : MethodDescriptor) : Option Diagnostic :=
  m.violation?.map fun cause => ⟨cause, some m.location, some m.originName⟩

end MethodDescriptor

namespace InterfaceDescriptor

/-- The interface without the methods that break the contract. -/
def keepValid (i : InterfaceDescriptor) : InterfaceDescriptor :=
  { i with methods := i.methods.filter (·.violation?.isNone) }

/-- The reports about the methods that break the contract, in method order. -/
def violationReports (i : InterfaceDescriptor) : List Diagnostic :=
  i.methods.filterMap (·.violationReport?)

end InterfaceDescriptor

end ActorIdl
