import ActorIdl.Declaration.Search
import ActorIdl.Declaration.Table
import ActorIdl.Library
/-! # Roles

    An interface is an actor interface if the actor marker is among its supertypes, direct or
    indirect, and an observer interface if only the observer marker is.  Supertypes that are
    declared nowhere have none of their own, and hierarchies may be cyclic. -/

namespace ActorIdl

/-- What an interface is to remote callers. -/
inductive Role where
  | actor
  | observer
  | neither
deriving Repr, DecidableEq

namespace Table

/-- The names of the types directly above a declaration. -/
def supertypeNames (t : Table) (id : DeclId) : List String :=
  ((t.get? id).map (·.supertypeNames)).getD []

/-- The declared types directly above a declaration. -/
def supertypes (t : Table) (id : DeclId) : List DeclId := (t.supertypeNames id).filterMap t.lookup

/-- A declaration and all declared types above it. -/
def ancestry (t : Table) (id : DeclId) : List DeclId :=
  breadthFirst t.supertypes (List.range t.size) [id]

/-- Whether a type is above a declaration. -/
def reaches (t : Table) (id : DeclId) (name : String) : Bool :=
  (t.ancestry id).any fun above => (t.supertypeNames above).contains name

/-- The role of a declaration.  The actor marker counts first. -/
def role (t : Table) (id : DeclId) : Role :=
  if t.reaches id Library.actor then .actor
  else if t.reaches id Library.actorObserver then .observer
  else .neither

/-- Whether a declaration is a class whose instances are actors. -/
def isActorClass (t : Table) (id : DeclId) : Bool :=
  (t.get? id).any (fun d => d.kind = .classType && !d.isAbstract) && t.reaches id Library.actor

end Table

end ActorIdl
