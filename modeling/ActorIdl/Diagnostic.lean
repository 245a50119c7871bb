import ActorIdl.Syntax.Fault
import ActorIdl.Declaration.Reference
import ActorIdl.Library
import ActorIdl.Output.Error
import ActorIdl.RenderedUnit
import ActorIdl.Wire
/-! # Diagnostics

    Everything that the compiler has to report, as causes with a place and an origin.  A cause
    determines the stable code, the severity, the wording and the hint.  Reporting never stops a
    build. -/

namespace ActorIdl

/-- How serious a diagnostic is. -/
inductive Severity where
  | error
  | info
deriving Repr, DecidableEq

/-- The word for a severity. -/
def Severity.text : Severity → String
  | .error => "error"
  | .info => "info"

/-- The annotations that belong on actor interfaces alone. -/
inductive Marker where
  | statelessWorker
  | noIdentity
deriving Repr, DecidableEq

/-- The qualified name of a marker. -/
def Marker.name : Marker → String
  | .statelessWorker => Library.statelessWorker
  | .noIdentity => Library.noIdentity

/-- What is reported. -/
inductive Cause where
  /-- A source is not well formed. -/
  | malformed (fault : Syntax.Fault)
  | duplicateDeclaration (name : String)
  /-- A class extends more than one type. -/
  | secondSuperclass (name : String)
  /-- Something other than a class has an `implements` clause. -/
  | implementsClause (name : String)
  | voidResult
  | resultNotTask (result : TypeRef)
  | oneWayResult (result : TypeRef)
  | misplacedMarker (marker : Marker)
  | repeatedParameter (name : String)
  /-- Two methods, given by their signatures, have one identifier. -/
  | methodIdCollision (id : MethodId) (first second : String)
  | interfaceIdCollision (id : InterfaceId) (first second : String)
  | sourceNotWritten (cause : OutputError)
  | manifestNotWritten (cause : OutputError)
  | notRendered (cause : RenderError)
  /-- Generated sources keep leading to further ones. -/
  | unsettled (rounds : Nat)
  /-- The sources of an interface were written. -/
  | generated (factory : String) (files : Nat)
  /-- A message from outside the compiler. -/
  | remark (severity : Severity) (code : Option String) (message : String) (hint : Option String)

namespace Cause

/-- The stable code of a cause. -/
def code? : Cause → Option String
  | malformed _ => some "E0101"
  | duplicateDeclaration _ => some "E0102"
  | secondSuperclass _ | implementsClause _ => some "E0103"
  | voidResult => some "E0201"
  | resultNotTask _ => some "E0202"
  | oneWayResult _ => some "E0203"
  | misplacedMarker .statelessWorker => some "E0204"
  | misplacedMarker .noIdentity => some "E0205"
  | repeatedParameter _ => some "E0206"
  | methodIdCollision .. => some "E0301"
  | interfaceIdCollision .. => some "E0302"
  | sourceNotWritten _ | manifestNotWritten _ => some "E0401"
  | notRendered _ => some "E0402"
  | unsettled _ => some "E0501"
  | generated .. => some "I0001"
  | remark _ code _ _ => code

/-- The severity of a cause. -/
def severity : Cause → Severity
  | generated .. => .info
  | remark severity .. => severity
  | _ => .error

/-- The wording of a cause. -/
def message : Cause → String
  | malformed fault => fault.message
  | duplicateDeclaration name => "duplicate declaration of `" ++ name ++ "`"
  | secondSuperclass name => "class `" ++ name ++ "` can extend only one type"
  | implementsClause name => "`" ++ name ++ "` cannot implement types; use `extends`"
  | voidResult => "remote methods cannot return void"
  | resultNotTask result =>
    "remote methods must return `" ++ Library.task ++ "`, found `" ++ result.text ++ "`"
  | oneWayResult result => "one-way methods cannot return a result, found `" ++ result.text ++ "`"
  | misplacedMarker marker =>
    "the @" ++ marker.name ++ " annotation must be used only with actor interfaces"
  | repeatedParameter name => "parameter `" ++ name ++ "` is declared more than once"
  | methodIdCollision id first second =>
    "method id " ++ id.text ++ " of `" ++ second ++ "` collides with `" ++ first ++ "`"
  | interfaceIdCollision id first second =>
    "interface id " ++ id.text ++ " of `" ++ second ++ "` collides with `" ++ first ++ "`"
  | sourceNotWritten cause => "cannot write generated source: " ++ cause.message
  | manifestNotWritten cause => "cannot write manifest: " ++ cause.message
  | notRendered cause => "cannot render: " ++ cause.message
  | unsettled rounds => "generation did not settle after " ++ toString rounds ++ " rounds"
  | generated factory files => "generated " ++ factory ++ " (" ++ toString files ++ " files)"
  | remark _ _ message _ => message

/-- What to do about a cause. -/
def hint? : Cause → Option String
  | voidResult => some "return `Task<Void>` for methods without a result"
  | oneWayResult _ => some "declare the method as returning `Task<Void>` or `Task`"
  | methodIdCollision .. => some "rename one of the methods"
  | interfaceIdCollision .. => some "rename one of the interfaces"
  | remark _ _ _ hint => hint
  | _ => none

end Cause

/-- A cause, where it is, and the name of the declaration that it is about. -/
structure Diagnostic where
  cause : Cause
  location : Option Location
  origin : Option String

namespace Diagnostic

/-- Whether the diagnostic makes a build fail. -/
def isError (d : Diagnostic) : Bool := d.cause.severity == .error

/-- The text of a diagnostic without its place. -/
def text (d : Diagnostic) : String :=
  d.cause.severity.text ++
    (match d.cause.code? with
      | some code => "[" ++ code ++ "]"
      | none => "") ++ ": " ++
    (match d.origin with
      | some origin => origin ++ ": "
      | none => "") ++
    d.cause.message ++
    (match d.cause.hint? with
      | some hint => "\n  hint: " ++ hint
      | none => "")

end Diagnostic

/-- The number of errors among diagnostics. -/
def errorCount (ds : List Diagnostic) : Nat := (ds.filter (·.isError)).length

/-- Whether there is an error among diagnostics. -/
def hasErrors (ds : List Diagnostic) : Bool := ds.any (·.isError)

end ActorIdl
