import ActorIdl.Declaration.Reference
import ActorIdl.Library
import ActorIdl.RenderedUnit
/-! # Generated types

    How a type is written in the generated Rust code.  Basic types have counterparts in the
    language, tasks and untyped values in the runtime crate; every other type is a path from the
    crate root. -/

namespace ActorIdl.Generated

/-- The crate that the generated code runs on. -/
def runtime : String := "orbit_runtime"

/-- The counterpart of a basic type. -/
def basicType? (name : String) : Option String :=
  match name with
  | "boolean" | "orbit.lang.Boolean" => some "bool"
  | "byte" | "orbit.lang.Byte" => some "i8"
  | "short" | "orbit.lang.Short" => some "i16"
  | "int" | "orbit.lang.Integer" => some "i32"
  | "long" | "orbit.lang.Long" => some "i64"
  | "float" | "orbit.lang.Float" => some "f32"
  | "double" | "orbit.lang.Double" => some "f64"
  | "char" | "orbit.lang.Character" => some "char"
  | "orbit.lang.String" => some "String"
  | "void" | "orbit.lang.Void" => some "()"
  | _ => none

/-- A qualified name as a path from the crate root. -/
def cratePath (name : String) : String :=
  "crate::" ++ Text.joinWith "::" ((Text.splitOn '.' name.toList).map String.ofList)

/-- Array dimensions around a type. -/
def vecs (base : String) : Nat → String
  | 0 => base
  | n + 1 => "Vec<" ++ vecs base n ++ ">"

mutual

/-- A type as generated.  A task with several results has none. -/
def typeText : TypeRef → Except RenderError String
  | .mk name args dims => do
    let base ←
      match basicType? name with
      | some basic => pure basic
      | none =>
        if name = Library.object then pure (runtime ++ "::Value")
        else if name = Library.task then
          match args with
          | [] => pure (runtime ++ "::Task<()>")
          | [result] => do
            let inner ← typeText result
            pure (runtime ++ "::Task<" ++ inner ++ ">")
          | _ => throw (.unsupportedType (TypeRef.mk name args dims).text)
        else do
          match args with
          | [] => pure (cratePath name)
          | args => do
            let inner ← typeTexts args
            pure (cratePath name ++ "<" ++ Text.joinWith ", " inner ++ ">")
    pure (vecs base dims)

/-- Types as generated, up to the first one that has no rendering. -/
def typeTexts : List TypeRef → Except RenderError (List String)
  | [] => pure []
  | t :: ts => do
    let first ← typeText t
    let rest ← typeTexts ts
    pure (first :: rest)

end

end ActorIdl.Generated
