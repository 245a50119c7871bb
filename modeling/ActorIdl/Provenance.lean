import ActorIdl.Json
import ActorIdl.Source
import ActorIdl.Wire
/-! # Provenance

    What a build is made from: the version of the compiler, the algorithm behind the identifiers,
    and the hash of every source, sorted by path. -/

namespace ActorIdl

/-- The version of the compiler. -/
def compilerVersion : String := "0.1.0"

/-- A source and the hash of its text. -/
structure SourceHash where
  path : String
  sha256 : String
deriving Repr, DecidableEq

/-- The hashes of files, sorted by path. -/
def sourceHashes (files : List SourceFile) : List SourceHash :=
  (files.map fun f => ⟨f.path, (Sha256.ofText f.text).hex⟩).mergeSort fun a b => a.path ≤ b.path

/-- The provenance of files as JSON. -/
def provenanceJson (files : List SourceFile) : Json :=
  .obj
    [("compiler_version", .str compilerVersion),
     ("id_hash_algorithm", .str idHashAlgorithm),
     ("sources", .arr ((sourceHashes files).map fun h =>
        .obj [("path", .str h.path), ("sha256", .str h.sha256)]))]

end ActorIdl
