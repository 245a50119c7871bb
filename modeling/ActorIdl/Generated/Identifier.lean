import ActorIdl.Text.LetterCase
/-! # Generated identifiers

    Methods, parameters and modules have snake-cased names in the generated Rust code.  A name that
    is a word of the language is written as a raw identifier or, where that is not allowed, with an
    underscore after it. -/

namespace ActorIdl.Generated

/-- Whether an upper case letter begins a word, `prev` and `next` being its neighbours: after a
    lower case letter or digit it does, and after another upper case letter if a lower case letter
    follows. -/
def beginsWord (prev next : Option Char) : Bool :=
  match prev with
  | none => false
  | some p =>
    if p = '_' then false
    else if Text.isLower p || p.isDigit then true
    else if Text.isUpper p then next.any Text.isLower
    else false

/-- Snake-cases the rest of a name after the character `prev`. -/
def snakeFrom (prev : Option Char) : List Char → List Char
  | [] => []
  | c :: cs =>
    let here :=
      if Text.isUpper c then
        (if beginsWord prev cs.head? then ['_'] else []) ++ Text.lowerUpper c
      else if c = '$' then ['_']
      else [c]
    here ++ snakeFrom (some c) cs

/-- A name in snake case: `sayHello` becomes `say_hello` and `getHTTPCode` becomes
    `get_http_code`. -/
def snakeCase (name : String) : String := String.ofList (snakeFrom none name.toList)

/-- The words of the language that can be raw identifiers. -/
def keywords : List String :=
  ["as", "async", "await", "break", "const", "continue", "dyn", "else", "enum", "extern", "false",
   "fn", "for", "if", "impl", "in", "let", "loop", "match", "mod", "move", "mut", "pub", "ref",
   "return", "static", "struct", "trait", "true", "type", "unsafe", "use", "where", "while",
   "abstract", "become", "box", "do", "final", "gen", "macro", "override", "priv", "try",
   "typeof", "unsized", "virtual", "yield"]

/-- The words of the language that cannot be raw identifiers. -/
def reservedWords : List String := ["self", "Self", "super", "crate", "_"]

/-- The identifier for a name. -/
def identifier (name : String) : String :=
  let snake := snakeCase name
  if reservedWords.contains snake then snake ++ "_"
  else if keywords.contains snake then "r#" ++ snake
  else snake

/-- A text without the marks of a raw identifier at its start. -/
def withoutRawMark : List Char → List Char
  | 'r' :: '#' :: rest => withoutRawMark rest
  | other => other

/-- The identifier for the `n`-th further overload of a name: the first one has the plain
    identifier. -/
def overloadIdentifier (name : String) (n : Nat) : String :=
  if n = 0 then identifier name
  else String.ofList (withoutRawMark (identifier name).toList) ++ "_" ++ toString n

end ActorIdl.Generated
