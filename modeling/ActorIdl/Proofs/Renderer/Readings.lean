import ActorIdl.Proofs.Renderer.MethodTexts
import ActorIdl.Proofs.Text.Joining
/-! # Reading the names in generated code

    The names of methods and parameters are read off the lines of a module again: the declarations
    of the trait and of the proxy, the calls of the proxy and of the dispatcher, and the arms of the
    dispatcher.  A line is recognised by what it begins with, and a name ends at a character that is
    in no identifier.  The readers do not know how lines are written.  Only the end of a parameter
    has to be told by its type, since a type can be any text. -/

namespace ActorIdl.Generated

/-! ## Readers -/

/-- Whether a line begins with a text. -/
def beginsWith (start line : String) : Bool := start.toList.isPrefixOf line.toList

/-- The lines that declare methods. -/
def declarations (lines : List String) : List String := lines.filter (beginsWith "    fn ")

/-- Whether a line calls a method that returns nothing. -/
def isOneWayCall (line : String) : Bool := beginsWith "                target." line

/-- Whether a line calls a method for its reply. -/
def isReplyCall (line : String) : Bool :=
  beginsWith "                Ok(Some(Reply::from_task(target." line

/-- Whether a line calls a method. -/
def isCall (line : String) : Bool := isOneWayCall line || isReplyCall line

/-- The lines in which the dispatcher calls a method. -/
def calls (lines : List String) : List String := lines.filter isCall

end ActorIdl.Generated
