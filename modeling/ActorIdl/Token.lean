import ActorIdl.Span
/-! # Tokens

    The words of the declaration language.  An identifier, number or string carries its text, a doc
    comment the text it documents with; a lexeme is a token with the span at which it stands. -/

namespace ActorIdl

/-- The reserved words. -/
inductive Keyword where
  | package_
  | import_
  | interface_
  | class_
  | abstract_
  | annotation_
  | extends_
  | implements_
deriving Repr, DecidableEq

/-- The spelling of a reserved word. -/
def Keyword.text : Keyword → String
  | .package_ => "package"
  | .import_ => "import"
  | .interface_ => "interface"
  | .class_ => "class"
  | .abstract_ => "abstract"
  | .annotation_ => "annotation"
  | .extends_ => "extends"
  | .implements_ => "implements"

/-- Every reserved word. -/
def Keyword.all : List Keyword :=
  [.package_, .import_, .interface_, .class_, .abstract_, .annotation_, .extends_, .implements_]

/-- The reserved word with a spelling. -/
def Keyword.ofText? (text : String) : Option Keyword := Keyword.all.find? (·.text == text)

/-- The punctuation marks. -/
inductive Symbol where
  | atSign
  | dot
  | comma
  | semi
  | leftParen
  | rightParen
  | leftBrace
  | rightBrace
  | less
  | greater
  | leftBracket
  | rightBracket
deriving Repr, DecidableEq

/-- The character of a punctuation mark. -/
def Symbol.char : Symbol → Char
  | .atSign => '@'
  | .dot => '.'
  | .comma => ','
  | .semi => ';'
  | .leftParen => '('
  | .rightParen => ')'
  | .leftBrace => '{'
  | .rightBrace => '}'
  | .less => '<'
  | .greater => '>'
  | .leftBracket => '['
  | .rightBracket => ']'

/-- Every punctuation mark. -/
def Symbol.all : List Symbol :=
  [.atSign, .dot, .comma, .semi, .leftParen, .rightParen, .leftBrace, .rightBrace, .less, .greater,
    .leftBracket, .rightBracket]

/-- The punctuation mark of a character. -/
def Symbol.ofChar? (c : Char) : Option Symbol := Symbol.all.find? (·.char == c)

/-- A token of the declaration language. -/
inductive Token where
  | keyword (k : Keyword)
  | symbol (s : Symbol)
  /-- A number, as written. -/
  | number (text : String)
  /-- A string, as written between its quotes. -/
  | string (value : String)
  /-- A doc comment, without its gutter. -/
  | doc (text : String)
  | ident (name : String)
deriving Repr, DecidableEq

/-- How messages name a token: identifiers and doc comments by their class, others by their text. -/
def Token.display : Token → String
  | .keyword k => k.text
  | .symbol s => String.singleton s.char
  | .number text => text
  | .string value => "\"" ++ value ++ "\""
  | .doc _ => "<doc comment>"
  | .ident _ => "<ident>"

/-- Whether the token is a doc comment. -/
def Token.isDoc : Token → Bool
  | .doc _ => true
  | _ => false

/-- A token and where it stands. -/
structure Lexeme where
  token : Token
  span : Span
deriving Repr, DecidableEq

end ActorIdl
