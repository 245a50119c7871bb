/-! # Spans and locations

    A span is a range of byte offsets of one source; a location is a span of one of the files of a
    build. -/

namespace ActorIdl

/-- The bytes from `start` to just before `stop`. -/
structure Span where
  start : Nat
  stop : Nat
deriving Repr, DecidableEq, Inhabited

/-- The number of a file, counted in the order in which the files of a build are added. -/
abbrev FileId := Nat

/-- A span of a file. -/
structure Location where
  file : FileId
  span : Span
deriving Repr, DecidableEq, Inhabited

end ActorIdl
