import ActorIdl.Plan
import ActorIdl.Generated.Identifier
import ActorIdl.Generated.Type
/-! # Generated modules

    The implementation of a plan is a Rust module.  It holds the trait of the interface, the client
    proxy, the dispatcher and the registrar.  It is written line by line; the documentation of the
    interface and its methods goes into lines of its own. -/

namespace ActorIdl

/-- The comment that generated sources begin with. -/
def generatedHeader (p : Plan) : String :=
  "Generated by orbc from " ++ p.interfaceName ++ ". Do not edit."

/-- The directory of a package, with a slash at its end; the unnamed package has none. -/
def packageDir (package : String) : String :=
  if package = "" then ""
  else Text.joinWith "/" ((Text.splitOn '.' package.toList).map String.ofList) ++ "/"

namespace Generated

/-- A method with the names and types that it has in the generated code. -/
structure MethodText where
  descriptor : MethodDescriptor
  name : String
  params : List (String × String)
  result : String

/-! ## Names and types -/

/-- The identifiers of methods in order, `before` being the methods that have theirs.  No two may be
    the same. -/
def methodNames (before : List (MethodDescriptor × String)) :
    List MethodDescriptor → Except RenderError (List String)
  | [] => .ok []
  | m :: ms =>
    let name := overloadIdentifier m.name (before.countP (·.1.name == m.name))
    match before.find? (·.2 == name) with
    | some (first, _) => .error (.nameClash first.signature m.signature name)
    | none => (methodNames (before ++ [(m, name)]) ms).map (name :: ·)

/-- The identifiers and types of the parameters of a method, `before` being those that have
    theirs. -/
def paramTexts (signature : String) (before : List (String × String)) :
    List ParamDescriptor → Except RenderError (List (String × String))
  | [] => .ok before
  | p :: ps =>
    let name := identifier p.name
    if before.any (·.1 == name) then .error (.paramClash signature name)
    else
      match typeText p.type with
      | .error e => .error e
      | .ok type => paramTexts signature (before ++ [(name, type)]) ps

/-- The generated form of a method under a name. -/
def methodText (m : MethodDescriptor) (name : String) : Except RenderError MethodText := do
  let params ← paramTexts m.signature [] m.params
  let result ← typeText m.returnType
  return ⟨m, name, params, result⟩

/-- The generated forms of methods, up to the first one that has none. -/
def methodTextsOf : List (MethodDescriptor × String) → Except RenderError (List MethodText)
  | [] => .ok []
  | (m, name) :: rest => do
    let first ← methodText m name
    let others ← methodTextsOf rest
    return first :: others

/-- The generated forms of the methods of a plan. -/
def methodTexts (p : Plan) : Except RenderError (List MethodText) := do
  let names ← methodNames [] p.methods
  methodTextsOf (p.methods.zip names)

/-- The path of the module: the names of the interface and of the declarations around it, in the
    directory of the package. -/
def modulePath (p : Plan) : String :=
  let start := (p.package ++ ".").toList
  let binary := p.binaryName.toList
  let relative := if start.isPrefixOf binary then binary.drop start.length else binary
  let stem := (Text.splitOn '$' relative).map fun part => snakeCase (baseName (String.ofList part))
  packageDir p.package ++ Text.joinWith "_" stem ++ ".rs"

/-! ## Lines -/

/-- Documentation as comment lines. -/
def docLines (indent : String) (doc : Option String) : List String :=
  match doc with
  | none => []
  | some text => (Text.lines text.toList).map fun line =>
    if line.isEmpty then indent ++ "///" else indent ++ "/// " ++ String.ofList line

/-- The signature of a method. -/
def MethodText.signature (m : MethodText) : String :=
  "fn " ++ m.name ++ "(&self" ++
    String.join (m.params.map fun (name, type) => ", " ++ name ++ ": " ++ type) ++ ") -> " ++
    m.result

/-- The wire identifier of a method. -/
def MethodText.id (m : MethodText) : String := m.descriptor.effectiveId.text

/-- The marker trait of the interface. -/
def markerPath (p : Plan) : String :=
  runtime ++ "::" ++ if p.isActor then "Actor" else "ActorObserver"

/-- The comments and imports at the start. -/
def headLines (p : Plan) : List String :=
  ["// " ++ generatedHeader p,
   "",
   "use " ++ runtime ++ "::\x7bInvokeError, Reply, Value\x7d;",
   ""]

/-- The trait of the interface. -/
def traitLines (p : Plan) (methods : List MethodText) : List String :=
  docLines "" p.doc ++
    ["pub trait " ++ p.simpleName ++ ": " ++ markerPath p ++ " \x7b"] ++
    methods.flatMap (fun m => docLines "    " m.descriptor.doc ++ ["    " ++ m.signature ++ ";"]) ++
    ["\x7d",
     ""]

/-- The proxy's implementation of a method. -/
def proxyMethodLines (p : Plan) (m : MethodText) : List String :=
  let packed := m.params.map fun (name, _) => runtime ++ "::pack(" ++ name ++ ")"
  let arguments := "(" ++ p.interfaceId.text ++ ", " ++ m.id ++ ", vec![" ++
    Text.joinWith ", " packed ++ "])"
  ["    " ++ m.signature ++ " \x7b"] ++
    (if m.descriptor.isOneWay then
      ["        self.target.send_oneway" ++ arguments ++ ";",
       "        " ++ runtime ++ "::Task::completed(())"]
    else ["        self.target.invoke" ++ arguments]) ++
    ["    \x7d"]

/-- The client proxy. -/
def proxyLines (p : Plan) (methods : List MethodText) : List String :=
  ["/// Client proxy for `" ++ p.interfaceName ++ "`.",
   "#[derive(Debug, Clone)]",
   "pub struct " ++ p.referenceName ++ " \x7b",
   "    target: " ++ runtime ++ "::Reference,",
   "\x7d",
   "",
   "impl " ++ p.referenceName ++ " \x7b",
   "    pub fn new(target: " ++ runtime ++ "::Reference) -> Self \x7b",
   "        Self \x7b target \x7d",
   "    \x7d",
   "\x7d",
   "",
   "impl " ++ markerPath p ++ " for " ++ p.referenceName ++ " \x7b\x7d",
   "",
   "impl " ++ p.simpleName ++ " for " ++ p.referenceName ++ " \x7b"] ++
    methods.flatMap (proxyMethodLines p) ++
    ["\x7d",
     ""]

/-- The dispatcher's case of a method.  Arguments have positional names there, so that no parameter
    can hide another name. -/
def dispatchMethodLines (m : MethodText) : List String :=
  let unpacked := m.params.mapIdx fun index (_, type) =>
    "                let arg" ++ toString index ++ ": " ++ type ++ " = " ++ runtime ++
      "::unpack(&args[" ++ toString index ++ "])?;"
  let arguments := m.params.mapIdx fun index _ => "arg" ++ toString index
  let call := "target." ++ m.name ++ "(" ++ Text.joinWith ", " arguments ++ ")"
  ["            " ++ m.id ++ " => \x7b",
   "                " ++ runtime ++ "::check_arity(method_id, &args, " ++
     toString m.params.length ++ ")?;"] ++
    unpacked ++
    (if m.descriptor.isOneWay then
      ["                " ++ call ++ ";",
       "                Ok(None)"]
    else ["                Ok(Some(Reply::from_task(" ++ call ++ ")))"]) ++
    ["            \x7d"]

/-- The dispatcher. -/
def dispatcherLines (p : Plan) (methods : List MethodText) : List String :=
  ["/// Dispatcher for `" ++ p.interfaceName ++ "`.",
   "#[derive(Debug, Default)]",
   "pub struct " ++ p.invokerName ++ ";",
   "",
   "impl " ++ runtime ++ "::Invoker for " ++ p.invokerName ++ " \x7b",
   "    type Target = dyn " ++ p.simpleName ++ ";",
   "",
   "    fn invoke(&self, target: &dyn " ++ p.simpleName ++
     ", method_id: i32, args: Vec<Value>) -> Result<Option<Reply>, InvokeError> \x7b",
   "        match method_id \x7b"] ++
    methods.flatMap dispatchMethodLines ++
    ["            _ => Err(InvokeError::UnknownMethod(method_id)),",
     "        \x7d",
     "    \x7d",
     "\x7d",
     ""]

/-- The literal of a truth value. -/
def boolText (b : Bool) : String := if b then "true" else "false"

/-- The registrar.  An interface without identity has one reference, others have one for each
    identity. -/
def registrarLines (p : Plan) : List String :=
  ["/// Registrar for `" ++ p.interfaceName ++ "`.",
   "pub struct " ++ p.factoryName ++ ";",
   "",
   "impl " ++ p.factoryName ++ " \x7b",
   "    pub const INTERFACE_ID: i32 = " ++ p.interfaceId.text ++ ";",
   "    pub const IS_ACTOR: bool = " ++ boolText p.isActor ++ ";",
   "    pub const IS_NO_IDENTITY: bool = " ++ boolText p.isNoIdentity ++ ";",
   ""] ++
    (if p.isNoIdentity then
      ["    pub fn reference(runtime: &" ++ runtime ++ "::Runtime) -> " ++ p.referenceName ++
         " \x7b",
       "        " ++ p.referenceName ++ "::new(runtime.reference(Self::INTERFACE_ID, None))"]
    else
      ["    pub fn reference(runtime: &" ++ runtime ++ "::Runtime, identity: &str) -> " ++
         p.referenceName ++ " \x7b",
       "        " ++ p.referenceName ++
         "::new(runtime.reference(Self::INTERFACE_ID, Some(identity)))"]) ++
    ["    \x7d",
     "",
     "    pub fn register(table: &mut " ++ runtime ++ "::DispatchRegistry) \x7b",
     "        table.register(Self::INTERFACE_ID, Box::new(" ++ p.invokerName ++ "));",
     "    \x7d",
     "\x7d"]

/-- The text of the module. -/
def moduleText (p : Plan) (methods : List MethodText) : String :=
  String.join ((headLines p ++ traitLines p methods ++ proxyLines p methods ++
    dispatcherLines p methods ++ registrarLines p).map (· ++ "\n"))

/-- The implementation of a plan. -/
def renderModule (p : Plan) : Except RenderError RenderedUnit := do
  let methods ← methodTexts p
  return ⟨.implementation, modulePath p, moduleText p methods⟩

end Generated

end ActorIdl
