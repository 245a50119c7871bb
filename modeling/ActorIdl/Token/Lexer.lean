import ActorIdl.Text.Quoted
import ActorIdl.Token.DocComment
/-! # Lexical analysis

    A source is cut from left to right into pieces, each the longest one that some pattern matches
    where it begins: white space and comments, which are skipped, tokens, and errors.  `scan` finds
    the piece at the start of a text and `lex` repeats it to the end, so lexing never stops at an
    error. -/

namespace ActorIdl

/-- What can be wrong with a piece of the source. -/
inductive LexicalError where
  /-- A block comment without its end. -/
  | unclosedComment
  /-- Text that begins no token. -/
  | unexpected (text : List Char)
deriving Repr, DecidableEq

/-- The wording of a lexical error. -/
def LexicalError.message : LexicalError → String
  | .unclosedComment => "unterminated block comment"
  | .unexpected text => "unexpected character: " ++ Text.Quoted.encode text

namespace Lexer

/-! ## Classes of characters -/

/-- The white space of the language: space, tab, carriage return, line feed and form feed. -/
def isSpace (c : Char) : Bool :=
  c = ' ' || c = '\t' || c = '\r' || c = '\n' || c = '\x0c'

/-- The characters that an identifier begins with. -/
def isIdentStart (c : Char) : Bool := c.isAlpha || c = '_' || c = '$'

/-- The characters that an identifier goes on with. -/
def isIdentRest (c : Char) : Bool := isIdentStart c || c.isDigit

/-! ## The longest match of each pattern -/

/-- The body of a block comment: everything before the first star and slash. -/
def commentBody : List Char → Option (List Char)
  | [] => none
  | c :: cs =>
    if c = '*' ∧ cs.head? = some '/' then some [] else (commentBody cs).map (c :: ·)

/-- The content of a string as far as it goes: characters other than quotes and backslashes, and
    pairs of a backslash and a character other than a line feed. -/
def stringRun : List Char → List Char
  | [] => []
  | c :: cs =>
    if c = '"' then []
    else if c = '\\' then
      match cs with
      | [] => []
      | d :: ds => if d = '\n' then [] else c :: d :: stringRun ds
    else c :: stringRun cs

/-- A point and the digits after it, if there are any. -/
def fraction : List Char → List Char
  | '.' :: cs =>
    if (cs.takeWhile Char.isDigit).isEmpty then [] else '.' :: cs.takeWhile Char.isDigit
  | _ => []

/-- The digits at the start of a text, with a fraction. -/
def numeral (cs : List Char) : List Char :=
  cs.takeWhile Char.isDigit ++ fraction (cs.dropWhile Char.isDigit)

/-- The reserved word or the identifier with a spelling. -/
def word (text : String) : Token :=
  match Keyword.ofText? text with
  | some k => .keyword k
  | none => .ident text

/-! ## Pieces -/

/-- What a piece of the source is. -/
inductive Piece where
  | skipped
  | token (t : Token)
  | error (e : LexicalError)
deriving Repr, DecidableEq

/-- The piece that begins with `c`, and how many of the characters `cs` after `c` belong to it. -/
def scan (c : Char) (cs : List Char) : Piece × Nat :=
  if isSpace c then (.skipped, (cs.takeWhile isSpace).length)
  else if c = '/' ∧ cs.head? = some '/' then (.skipped, (cs.takeWhile (· ≠ '\n')).length)
  else if c = '/' ∧ cs.head? = some '*' then
    match commentBody (cs.drop 1) with
    | none => (.error .unclosedComment, cs.length)
    | some body =>
      match body with
      | '*' :: doc => (.token (.doc (String.ofList (DocComment.clean doc))), body.length + 3)
      | _ => (.skipped, body.length + 3)
  else if c = '"' then
    let content := stringRun cs
    if (cs.drop content.length).head? = some '"' then
      (.token (.string (String.ofList content)), content.length + 1)
    else (.error (.unexpected (c :: content)), content.length)
  else if c.isDigit then
    (.token (.number (String.ofList (c :: numeral cs))), (numeral cs).length)
  else if c = '-' ∧ (cs.head?.map Char.isDigit) = some true then
    (.token (.number (String.ofList (c :: numeral cs))), (numeral cs).length)
  else if isIdentStart c then
    (.token (word (String.ofList (c :: cs.takeWhile isIdentRest))),
      (cs.takeWhile isIdentRest).length)
  else match Symbol.ofChar? c with
    | some s => (.token (.symbol s), 0)
    | none => (.error (.unexpected [c]), 0)

end Lexer

/-- The tokens of a source and its lexical errors, each in source order. -/
structure Lexing where
  lexemes : List Lexeme
  errors : List (LexicalError × Span)
deriving Repr, DecidableEq

namespace Lexer

/-- Puts the piece at a span in front of what follows it. -/
def Piece.before (span : Span) (rest : Lexing) : Piece → Lexing
  | .skipped => rest
  | .token t => { rest with lexemes := ⟨t, span⟩ :: rest.lexemes }
  | .error e => { rest with errors := (e, span) :: rest.errors }

/-- The lexing of a text that begins at a byte offset. -/
def lexFrom (pos : Nat) : List Char → Lexing
  | [] => ⟨[], []⟩
  | c :: cs =>
    let (piece, n) := scan c cs
    let stop := pos + Text.byteLength (c :: cs.take n)
    piece.before ⟨pos, stop⟩ (lexFrom stop (cs.drop n))
termination_by cs => cs.length
decreasing_by simp only [List.length_drop, List.length_cons]; omega

end Lexer

/-- The lexing of a source. -/
def lex (source : String) : Lexing := Lexer.lexFrom 0 source.toList

end ActorIdl
