import ActorIdl.Declaration.Role
import ActorIdl.Interface.MarkerUse
import ActorIdl.Output
import ActorIdl.Plan
/-! # Manifests

    At run time, generated interfaces and actor classes are found by resources that are named after
    them.  The manifest of an interface holds the name of its registrar, that of a class its own
    name. -/

namespace ActorIdl

namespace Manifest

/-- The path of the manifest of an interface. -/
def interfacePath (binaryName : String) : String :=
  "META-INF/orbit/actors/interfaces/" ++ binaryName

/-- The path of the manifest of a class. -/
def classPath (binaryName : String) : String := "META-INF/orbit/actors/classes/" ++ binaryName

/-- Writes a resource about a declaration: the path if it was created, and the report otherwise. -/
def write {σ : Type} (filer : Filer σ) (t : Table) (id : DeclId) (path contents : String) (s : σ) :
    Except Diagnostic String × σ :=
  match filer .resource path contents s with
  | (.ok (), s') => (.ok path, s')
  | (.error e, s') => (.error (t.reportAt id (.manifestNotWritten e)), s')

/-- Writes the manifest of an interface. -/
def registerInterface {σ : Type} (filer : Filer σ) (t : Table) (p : Plan) (s : σ) :
    Except Diagnostic String × σ :=
  write filer t p.decl (interfacePath p.binaryName) p.factoryQualifiedName s

/-- Writes the manifest of a class, if its instances are actors. -/
def registerClass {σ : Type} (filer : Filer σ) (t : Table) (id : DeclId) (s : σ) :
    Option (Except Diagnostic String) × σ :=
  match t.get? id with
  | none => (none, s)
  | some d =>
    if t.isActorClass id then
      let (written, s') := write filer t id (classPath d.binaryName) d.binaryName s
      (some written, s')
    else (none, s)

end Manifest

end ActorIdl
