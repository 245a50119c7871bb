import ActorIdl.Plan
/-! # Calls

    What happens between a proxy and a dispatcher that are generated from plans.  The proxy packs
    named arguments in the order of the parameters of a method; the dispatcher finds the method by
    its identifier and gives the arguments their names again.  The values that are passed can be of
    any type. -/

namespace ActorIdl

/-- What a proxy sends. -/
structure Invocation (α : Type) where
  interfaceId : InterfaceId
  methodId : MethodId
  args : List α
deriving Repr, DecidableEq

/-- An invocation to be sent, and whether the caller waits for a reply. -/
structure ProxyCall (α : Type) where
  invocation : Invocation α
  awaitsReply : Bool
deriving Repr, DecidableEq

/-- An invocation that has found its method.  The arguments have the names of the parameters. -/
structure BoundCall (α : Type) where
  method : MethodDescriptor
  arguments : List (String × α)
  replies : Bool

/-- Why a call is refused. -/
inductive InvokeError where
  | interfaceMismatch (expected found : InterfaceId)
  | unknownMethod (id : MethodId)
  | unknownSignature (signature : String)
  | arity (method : String) (expected found : Nat)
  | unknownParameter (method name : String)
deriving Repr, DecidableEq

/-- The wording of an invocation error. -/
def InvokeError.message : InvokeError → String
  | .interfaceMismatch expected found =>
    "invocation for interface " ++ found.text ++ " delivered to interface " ++ expected.text
  | .unknownMethod id => "no method with id " ++ id.text
  | .unknownSignature signature => "no method with signature `" ++ signature ++ "`"
  | .arity method expected found =>
    "`" ++ method ++ "` takes " ++ toString expected ++ " arguments, got " ++ toString found
  | .unknownParameter method name => "`" ++ method ++ "` has no parameter `" ++ name ++ "`"

namespace Plan

variable {α : Type}

/-- Puts named arguments at the positions of their parameters, over what is there already. -/
def pack (signature : String) (params : List ParamDescriptor) :
    List (String × α) → List α → Except InvokeError (List α)
  | [], packed => .ok packed
  | (name, value) :: args, packed =>
    match params.find? (·.name == name) with
    | none => .error (.unknownParameter signature name)
    | some param => pack signature params args (packed.set param.index value)

/-- The call of a method with named arguments.  Positions that no argument names hold `blank`. -/
def proxyCall (p : Plan) (blank : α) (signature : String) (args : List (String × α)) :
    Except InvokeError (ProxyCall α) :=
  match p.methodBySignature? signature with
  | none => .error (.unknownSignature signature)
  | some m =>
    if args.length ≠ m.params.length then
      .error (.arity signature m.params.length args.length)
    else
      (pack signature m.params args (List.replicate m.params.length blank)).map fun packed =>
        ⟨⟨p.interfaceId, m.effectiveId, packed⟩, !m.isOneWay⟩

/-- The method and the named arguments of an invocation. -/
def dispatch (p : Plan) (i : Invocation α) : Except InvokeError (BoundCall α) :=
  if i.interfaceId ≠ p.interfaceId then
    .error (.interfaceMismatch p.interfaceId i.interfaceId)
  else
    match (p.dispatchTable.get? i.methodId).bind (p.methods[·]?) with
    | none => .error (.unknownMethod i.methodId)
    | some m =>
      if i.args.length ≠ m.params.length then
        .error (.arity m.signature m.params.length i.args.length)
      else
        .ok ⟨m, m.params.filterMap fun param => (i.args[param.index]?).map (param.name, ·),
          !m.isOneWay⟩

end Plan

end ActorIdl
