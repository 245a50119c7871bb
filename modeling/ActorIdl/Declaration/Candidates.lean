import ActorIdl.Declaration.Search
import ActorIdl.Declaration.Table
import ActorIdl.Library
/-! # Candidates

    The declarations that a round is about: the roots and everything nested in them, without those
    that the compiler wrote itself and what is nested in those. -/

namespace ActorIdl

/-- The declarations of a round by kind, each kind in breadth-first order. -/
structure Candidates where
  classes : List DeclId
  interfaces : List DeclId
  annotationTypes : List DeclId
deriving Repr, DecidableEq

namespace Candidates

/-- All candidates: classes, then interfaces, then annotation declarations. -/
def all (c : Candidates) : List DeclId := c.classes ++ c.interfaces ++ c.annotationTypes

end Candidates

namespace Table

/-- Whether the compiler wrote a declaration. -/
def isGenerated (t : Table) (id : DeclId) : Bool := t.isMarked id Library.generated

/-- The declarations in which the candidates nested in a declaration stand. -/
def openNested (t : Table) (id : DeclId) : List DeclId :=
  if t.isGenerated id then [] else t.nestedOf id

/-- The candidates of all kinds in breadth-first order. -/
def visited (t : Table) : List DeclId :=
  (breadthFirst t.openNested (List.range t.size) t.roots).filter (!t.isGenerated ·)

/-- The candidates. -/
def candidates (t : Table) : Candidates where
  classes := t.visited.filter (t.isKind · .classType)
  interfaces := t.visited.filter (t.isKind · .interfaceType)
  annotationTypes := t.visited.filter (t.isKind · .annotationType)

end Table

end ActorIdl
