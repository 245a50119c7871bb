import ActorIdl.Proofs.Renderer.Readings
import Std.Data.String.ToInt
/-! # The lines of a module

    Each method has one declaration in the trait and one in the proxy, one line of the proxy in
    which its message is sent, and in the dispatcher one arm with one call.  These are all lines of
    their kinds, in the order of the methods, and the names in them are read as they were
    written. -/

namespace ActorIdl

namespace Generated

/-! ## Numbers -/

variable {m : MethodText}

/-! ## Single lines -/

/-- The line in which the proxy sends the message of a method. -/
def MethodText.invocation (p : Plan) (m : MethodText) : String :=
  let arguments := "(" ++ p.interfaceId.text ++ ", " ++ m.id ++ ", vec![" ++
    Text.joinWith ", " (m.params.map fun (name, _) => runtime ++ "::pack(" ++ name ++ ")") ++ "])"
  if m.descriptor.isOneWay then "        self.target.send_oneway" ++ arguments ++ ";"
  else "        self.target.invoke" ++ arguments

/-- The line in which the dispatcher calls a method. -/
def MethodText.call (m : MethodText) : String :=
  let arguments := m.params.mapIdx fun index _ => "arg" ++ toString index
  let call := "target." ++ m.name ++ "(" ++ Text.joinWith ", " arguments ++ ")"
  if m.descriptor.isOneWay then "                " ++ call ++ ";"
  else "                Ok(Some(Reply::from_task(" ++ call ++ ")))"

/-- The lines in which arguments are unpacked. -/
def MethodText.unpacked (m : MethodText) : List String :=
  m.params.mapIdx fun index (_, type) =>
    "                let arg" ++ toString index ++ ": " ++ type ++ " = " ++ runtime ++
      "::unpack(&args[" ++ toString index ++ "])?;"

end Generated

end ActorIdl
