/-! # The built-in library

    The declarations that every build can see: marker interfaces, annotations, the task type and the
    boxed values.  They are sources like any other, but their declarations are never compiled
    themselves.  The module also lists the names that have a meaning to the compiler. -/

namespace ActorIdl.Library

/-! ## Names with a meaning -/

/-- What actor interfaces extend. -/
def actor : String := "orbit.actors.Actor"

/-- What observer interfaces extend. -/
def actorObserver : String := "orbit.actors.ActorObserver"

/-- The pending result of a remote call. -/
def task : String := "orbit.concurrent.Task"

/-- The type of no result. -/
def void : String := "orbit.lang.Void"

/-- The root of all types.  Its methods are nobody's remote methods. -/
def object : String := "orbit.lang.Object"

/-- Says that a method is declared above too.  Of no interest to a remote caller. -/
def override : String := "orbit.lang.Override"

/-- Marks methods whose callers do not wait. -/
def oneWay : String := "orbit.actors.annotation.OneWay"

/-- Marks interfaces whose instances have no identity given by the caller. -/
def noIdentity : String := "orbit.actors.annotation.NoIdentity"

/-- Marks interfaces whose calls any activation may take. -/
def statelessWorker : String := "orbit.actors.annotation.StatelessWorker"

/-- Marks declarations that the compiler wrote. -/
def generated : String := "orbit.actors.annotation.Generated"

/-- The packages whose declarations need no import, in the order in which they are searched. -/
def implicitPackages : List String :=
  ["orbit.lang", "orbit.actors", "orbit.actors.annotation", "orbit.concurrent"]

/-- The types that are declared nowhere. -/
def primitives : List String :=
  ["void", "boolean", "byte", "short", "int", "long", "float", "double", "char"]

/-- Whether a name is that of a primitive type. -/
def isPrimitive (name : String) : Bool := primitives.contains name

/-! ## Sources -/

/-- The package of basic types. -/
def langSource : String := "
package orbit.lang;

/** Root of every declared type. */
class Object \x7b
    int hashCode();
    boolean equals(Object other);
    String toString();
\x7d

class Void;
class String;
class Integer;
class Long;
class Boolean;
class Double;
class Float;
class Short;
class Byte;
class Character;

annotation Override;
"

/-- The package of the marker interfaces. -/
def actorsSource : String := "
package orbit.actors;

/** Marker for location-transparent, remotely addressable actors. */
interface Actor;

/** Marker for callback targets reachable from remote actors. */
interface ActorObserver;
"

/-- The package of the annotations. -/
def annotationsSource : String := "
package orbit.actors.annotation;

/** The caller does not wait for a reply. */
annotation OneWay;

/** Instances are not addressed by a caller-supplied identity. */
annotation NoIdentity;

/** Calls may be dispatched to any activation. */
annotation StatelessWorker;

/** Emitted by the compiler; never processed again. */
annotation Generated;
"

/-- The package of the task type. -/
def concurrentSource : String := "
package orbit.concurrent;

/** Pending result of a remote call. */
class Task;
"

/-- The library as named sources. -/
def sources : List (String × String) :=
  [("<prelude>/orbit/lang.orbit", langSource),
   ("<prelude>/orbit/actors.orbit", actorsSource),
   ("<prelude>/orbit/actors/annotation.orbit", annotationsSource),
   ("<prelude>/orbit/concurrent.orbit", concurrentSource)]

end ActorIdl.Library
