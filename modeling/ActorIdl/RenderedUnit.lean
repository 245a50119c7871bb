/-! # Rendered units

    What a renderer makes of a plan: sources with paths of their own, or the reason why the plan
    cannot be expressed. -/

namespace ActorIdl

/-- What a rendered unit holds. -/
inductive UnitKind where
  /-- The code that carries calls. -/
  | implementation
  /-- Declarations that the next round compiles. -/
  | declarationStub
deriving Repr, DecidableEq

/-- A source to be written.  The path is relative to the directory of sources. -/
structure RenderedUnit where
  kind : UnitKind
  path : String
  contents : String
deriving Repr, DecidableEq

/-- Why a plan cannot be expressed. -/
inductive RenderError where
  /-- Two methods, given by their signatures, with one name. -/
  | nameClash (first second name : String)
  /-- Two parameters of a method with one name. -/
  | paramClash (method name : String)
  | unsupportedType (type : String)
deriving Repr, DecidableEq

/-- The wording of a render error. -/
def RenderError.message : RenderError → String
  | .nameClash first second name =>
    "methods `" ++ first ++ "` and `" ++ second ++ "` both render as `" ++ name ++ "`"
  | .paramClash method name => "parameters of `" ++ method ++ "` both render as `" ++ name ++ "`"
  | .unsupportedType type => "type `" ++ type ++ "` has no Rust rendering"

end ActorIdl
