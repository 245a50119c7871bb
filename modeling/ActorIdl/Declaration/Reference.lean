import ActorIdl.Json
import ActorIdl.Text.Basic
/-! # References

    Types and annotations as declarations refer to them, every name resolved to a qualified one.
    Their texts are canonical: equal references have equal texts, and the texts go into signatures
    and so into the wire identifiers. -/

namespace ActorIdl

/-- A type with its name resolved. -/
inductive TypeRef where
  | mk (name : String) (args : List TypeRef) (dims : Nat)
deriving Repr, BEq

namespace TypeRef

/-- The name of the type without arguments and dimensions. -/
def name : TypeRef → String
  | mk name _ _ => name

/-- The type arguments. -/
def args : TypeRef → List TypeRef
  | mk _ args _ => args

/-- The number of array dimensions. -/
def dims : TypeRef → Nat
  | mk _ _ dims => dims

/-- The bare type of a name. -/
def named (name : String) : TypeRef := mk name [] 0

/-- Whether the type is the bare type of a name. -/
def isRaw (t : TypeRef) (name : String) : Bool := t.name == name && t.args.isEmpty && t.dims == 0

mutual

/-- The canonical text, such as `pkg.Type<pkg.A,pkg.B>[]`. -/
def text : TypeRef → String
  | mk name args dims =>
    let suffix := String.join (List.replicate dims "[]")
    match args with
    | [] => name ++ suffix
    | arg :: rest => name ++ "<" ++ text arg ++ restText rest ++ ">" ++ suffix

/-- The texts of further arguments, a comma in front of each. -/
def restText : List TypeRef → String
  | [] => ""
  | arg :: rest => "," ++ text arg ++ restText rest

end

end TypeRef

/-- An annotation with its name resolved.  Its arguments are as written. -/
structure AnnotationRef where
  name : String
  args : List String
deriving Repr, DecidableEq

/-- The text of an annotation. -/
def AnnotationRef.text (a : AnnotationRef) : String :=
  match a.args with
  | [] => "@" ++ a.name
  | args => "@" ++ a.name ++ "(" ++ Text.joinWith ", " args ++ ")"

end ActorIdl
