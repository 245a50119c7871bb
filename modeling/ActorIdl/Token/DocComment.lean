import ActorIdl.Text.Basic
import ActorIdl.Text.Blank
import ActorIdl.Token
/-! # Doc comments

    The text of a doc comment is its body without the gutter of stars, and a doc comment counts only
    in front of a declaration or method.  Elsewhere it is an ordinary comment. -/

namespace ActorIdl.DocComment

/-- The list without its first element if that is `c`. -/
def dropOne (c : Char) : List Char → List Char
  | [] => []
  | d :: ds => if d = c then ds else d :: ds

/-- One line without its gutter: the indentation, one star, one space and the white space at its end
    go. -/
def cleanLine (line : List Char) : List Char :=
  Text.trimEnd (dropOne ' ' (dropOne '*' (Text.trimStart line)))

/-- The text of a doc comment with the given body. -/
def clean (body : List Char) : List Char :=
  Text.trim (List.intercalate ['\n'] ((Text.lines body).map cleanLine))

/-! ## Attachment -/

/-- Whether a declaration or method can begin after this token (`none`: at the start of the
    source). -/
def endsItem : Option Token → Bool
  | none => true
  | some (.symbol .semi) | some (.symbol .leftBrace) | some (.symbol .rightBrace) => true
  | some _ => false

/-- Whether a declaration or method can begin with this token. -/
def beginsHeader : Option Token → Bool
  | some (.symbol .atSign) | some (.keyword .abstract_) | some (.keyword .interface_)
  | some (.keyword .class_) | some (.keyword .annotation_) | some (.ident _) => true
  | _ => false

/-- Drops the doc comments that are not in front of a declaration or method, `last` being the token
    kept before.  Of several in a row the last one is kept. -/
def attachAfter (last : Option Token) : List Lexeme → List Lexeme
  | [] => []
  | l :: ls =>
    if l.token.isDoc && !(endsItem last && beginsHeader (ls.head?.map (·.token))) then
      attachAfter last ls
    else l :: attachAfter (some l.token) ls

/-- The tokens that the grammar is about. -/
def attach (ls : List Lexeme) : List Lexeme := attachAfter none ls

end ActorIdl.DocComment
