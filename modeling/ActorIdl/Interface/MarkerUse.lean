import ActorIdl.Declaration.Candidates
import ActorIdl.Diagnostic
/-! # The use of markers

    The marker annotations belong on actor interfaces.  On any other candidate and on any method of
    a candidate they are reported, once for each marker and place. -/

namespace ActorIdl

namespace Table

/-- A report about a declaration, at its name. -/
def reportAt (t : Table) (id : DeclId) (cause : Cause) : Diagnostic :=
  ⟨cause, (t.get? id).map (·.location), some (t.nameOf id)⟩

/-- The reports about markers on a candidate that is not an actor interface. -/
def markersOn (t : Table) (id : DeclId) : List Diagnostic :=
  [Marker.statelessWorker, Marker.noIdentity].filterMap fun marker =>
    if t.isMarked id marker.name then some (t.reportAt id (.misplacedMarker marker)) else none

/-- The reports about markers on a method of a candidate. -/
def markersOnMethod (t : Table) (id : DeclId) (m : Method) : List Diagnostic :=
  [Marker.statelessWorker, Marker.noIdentity].filterMap fun marker =>
    if m.isMarked marker.name then
      some ⟨.misplacedMarker marker, some m.location, some (t.nameOf id ++ "#" ++ m.name)⟩
    else none

/-- The reports about misplaced markers, candidate by candidate. -/
def misplacedMarkers (t : Table) (candidates : Candidates) (actors : List DeclId) :
    List Diagnostic :=
  candidates.all.flatMap fun id =>
    (if actors.contains id then [] else t.markersOn id) ++
      (t.methodsOf id).flatMap (t.markersOnMethod id)

end Table

end ActorIdl
