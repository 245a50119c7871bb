import ActorIdl.Token.Lexer
/-! # Faults of a source

    Why a source is not well formed: a lexical error, a token that nothing in the grammar allows
    where it stands, or a type with too many array dimensions.  What would have been allowed is a
    sorted list, so that a message does not depend on the order in which the parser tried things. -/

namespace ActorIdl.Syntax

/-- What could stand where an unexpected token was found. -/
inductive Expectation where
  | keyword (k : Keyword)
  | symbol (s : Symbol)
  | ident
  /-- One of a class of tokens that has no name of its own. -/
  | other
  | endOfInput
deriving Repr, DecidableEq

/-- How a message names what was expected. -/
def Expectation.text : Expectation → String
  | .keyword k => "'" ++ k.text ++ "'"
  | .symbol s => "'" ++ String.singleton s.char ++ "'"
  | .ident => "'<ident>'"
  | .other => "something else"
  | .endOfInput => "end of input"

/-- Puts an expectation into a list sorted by text, unless it is there. -/
def Expectation.insert (e : Expectation) : List Expectation → List Expectation
  | [] => [e]
  | f :: fs =>
    if e = f then f :: fs
    else if e.text < f.text then e :: f :: fs
    else f :: insert e fs

/-- The most dimensions that an array type can have. -/
def maxArrayDims : Nat := 255

/-- What is wrong with a source at some place. -/
inductive Fault where
  | lexical (e : LexicalError)
  /-- A token, or the end of the input (`none`), where only others are allowed. -/
  | unexpected (found : Option Token) (expected : List Expectation)
  | arrayDims (dims : Nat)
deriving Repr, DecidableEq

namespace Fault

/-- How a message names what was found. -/
def foundText : Option Token → String
  | none => "end of input"
  | some t => "'" ++ t.display ++ "'"

/-- A choice, as in `A, B, or C`. -/
def choiceText : List String → String
  | [] => ""
  | [a] => a
  | [a, b] => a ++ ", or " ++ b
  | a :: rest => a ++ ", " ++ choiceText rest

/-- The wording of a fault. -/
def message : Fault → String
  | lexical e => e.message
  | unexpected found expected =>
    "found " ++ foundText found ++ " expected " ++ choiceText (expected.map (·.text))
  | arrayDims dims =>
    "too many array dimensions (" ++ toString dims ++ ", at most " ++ toString maxArrayDims ++ ")"

/-- Two faults at one place: expectations are united under the first fault's token, and a fault of
    another kind hides them. -/
def merge : Fault → Fault → Fault
  | unexpected found expected, unexpected _ more =>
    unexpected found (more.foldl (fun es e => e.insert es) expected)
  | unexpected _ _, other => other
  | first, _ => first

end Fault

/-- A fault and where it is. -/
structure SourceFault where
  fault : Fault
  span : Span
deriving Repr, DecidableEq

end ActorIdl.Syntax
