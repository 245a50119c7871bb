import ActorIdl.Generated.Module
/-! # Renderers

    A renderer makes rendered units of a plan or says why it cannot.  Besides the implementation
    there is the declaration stub, which names the three generated types so that other declarations
    can refer to them; the stubs are the sources of the next round. -/

namespace ActorIdl

/-- A way to render plans. -/
abbrev Renderer := Plan → Except RenderError (List RenderedUnit)

/-! ## Stubs -/

namespace Stub

/-- The path of the stub, named after the registrar. -/
def path (p : Plan) : String := packageDir p.package ++ p.factoryName ++ ".orbit"

/-- The lines of a generated class. -/
def classLines (declared : String) : List String := ["", "@" ++ Library.generated, declared]

/-- The lines of the stub. -/
def textLines (p : Plan) : List String :=
  ["// " ++ generatedHeader p] ++
    (if p.package = "" then [] else ["package " ++ p.package ++ ";"]) ++
    classLines ("class " ++ p.referenceName ++ " implements " ++ p.interfaceName ++ ";") ++
    classLines ("class " ++ p.invokerName ++ ";") ++
    classLines ("class " ++ p.factoryName ++ ";")

/-- The declaration stub of a plan. -/
def render (p : Plan) : RenderedUnit :=
  ⟨.declarationStub, path p, String.join ((textLines p).map (· ++ "\n"))⟩

end Stub

namespace Renderer

/-- Renders the implementation alone. -/
def implementation : Renderer := fun p => (Generated.renderModule p).map ([·])

/-- Renders the declaration stub alone. -/
def stub : Renderer := fun p => .ok [Stub.render p]

/-- The units of one renderer, then those of another; if either fails, both do. -/
def both (first second : Renderer) : Renderer := fun p => do
  let units ← first p
  let more ← second p
  return units ++ more

/-- Renders the implementation and the stub. -/
def default : Renderer := both implementation stub

end Renderer

end ActorIdl
