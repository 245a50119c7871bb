import ActorIdl.Hash.Sha256
import ActorIdl.Text.Basic
/-! # Wire identifiers

    Interfaces and methods are known on the wire by 32-bit numbers.  A number is a hash of text
    alone, of the qualified name of an interface or of the canonical signature of a method, so that
    a proxy and a dispatcher that are built apart agree on it. -/

namespace ActorIdl

/-- The name and version of the hash behind the identifiers. -/
def idHashAlgorithm : String := "orbit-id-v1"

/-- The first four bytes of the SHA-256 digest of the text, read as a signed big-endian number. -/
def stableHash (text : String) : Int32 := (Sha256.ofText text).a.toInt32

/-- The wire identifier of an interface. -/
structure InterfaceId where
  value : Int32
deriving Repr, DecidableEq, Inhabited

/-- The wire identifier of a method. -/
structure MethodId where
  value : Int32
deriving Repr, DecidableEq, Inhabited

/-- The identifier of the interface with a qualified name. -/
def InterfaceId.ofName (qualifiedName : String) : InterfaceId := ⟨stableHash qualifiedName⟩

/-- The identifier of the methods with a canonical signature. -/
def MethodId.ofSignature (signature : String) : MethodId := ⟨stableHash signature⟩

/-- The number in decimal. -/
def InterfaceId.text (i : InterfaceId) : String := toString i.value.toInt

/-- The number in decimal. -/
def MethodId.text (i : MethodId) : String := toString i.value.toInt

/-- The canonical signature of a method: its name and the types of its parameters. -/
def signature (name : String) (types : List String) : String :=
  name ++ "(" ++ Text.joinWith "," types ++ ")"

end ActorIdl
