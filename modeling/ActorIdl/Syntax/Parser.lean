import ActorIdl.Syntax
import ActorIdl.Syntax.Parser.Basic
/-! # The parser

    The grammar, over the tokens that remain when doc comments out of place are dropped:

    unit      = (package qualified ;)? (import qualified ;)* decl* decl      = header abstract?
    (interface | class | annotation) IDENT (extends types)? (implements types)? ({ member* } | ;)
    member    = decl | header type IDENT ( (type IDENT (, type IDENT)*)? ) ; header    = DOC?
    annotation* annotation = @ qualified ( ( (arg (, arg)*)? ) )? arg       = STRING | NUMBER |
    qualified types     = type (, type)* type      = qualified (< types >)? ([ ])* qualified = IDENT
    (. (IDENT | reserved word))*

    Types and declarations nest.  Their parsers take a bound on the nesting depth, and every level
    of nesting reads a token, so the number of tokens is bound enough. -/

namespace ActorIdl.Syntax.Parser

/-! ## Names -/

/-- An identifier. -/
def ident : Parser Name :=
  satisfy .ident fun l =>
    match l.token with
    | .ident name => some ⟨name, l.span⟩
    | _ => none

/-- A name after a dot, where reserved words are allowed. -/
def segment : Parser Name :=
  satisfy .other fun l =>
    match l.token with
    | .ident name => some ⟨name, l.span⟩
    | .keyword k => some ⟨k.text, l.span⟩
    | _ => none

/-- A dotted name. -/
def qualified : Parser QualifiedName := do
  let ((head, tail), span) ← spanned do
    let head ← ident
    let tail ← many (do symbol .dot; segment)
    return (head, tail)
  return ⟨head, tail, span⟩

/-! ## Types -/

/-- One pair of brackets. -/
def brackets : Parser Unit := do
  symbol .leftBracket
  symbol .rightBracket

/-- A type is limited in its array dimensions. -/
def checkDims (t : TypeExpr) : Except Fault TypeExpr :=
  if t.dims ≤ maxArrayDims then .ok t else .error (.arrayDims t.dims)

/-- A type whose arguments nest less than `n` deep. -/
def typeWithin : Nat → Parser TypeExpr
  | 0 => fun _ p => (none, p)
  | n + 1 =>
    checked (do
      let ((name, args, dims), span) ← spanned do
        let name ← qualified
        let args ← optional (between .less .greater (sepBy1 (typeWithin n) (symbol .comma)))
        let dims ← many brackets
        return (name, args.getD [], dims.length)
      return TypeExpr.mk name args dims span) checkDims TypeExpr.span

/-- A type. -/
def type : Parser TypeExpr := fun i => typeWithin (i.left + 1) i

/-- The types of a clause. -/
def types : Parser (List TypeExpr) := sepBy1 type (symbol .comma)

/-! ## Headers -/

/-- A string or a number. -/
def literal : Parser Unit :=
  satisfy .other fun l =>
    match l.token with
    | .string _ | .number _ => some ()
    | _ => none

/-- An argument of an annotation, as written. -/
def argument : Parser String := do
  let (_, span) ← spanned (literal <|> do let _ ← qualified; return ())
  sourceText span

/-- An annotation. -/
def annotationUse : Parser AnnotationExpr := do
  let ((name, args), span) ← spanned do
    symbol .atSign
    let name ← qualified
    let args ← optional (between .leftParen .rightParen (sepBy argument (symbol .comma)))
    return (name, args.getD [])
  return ⟨name, args, span⟩

/-- A doc comment. -/
def doc : Parser String :=
  satisfy .other fun l =>
    match l.token with
    | .doc text => some text
    | _ => none

/-- What can stand in front of every declaration and method. -/
def header : Parser (Option String × List AnnotationExpr) := do
  let text ← optional doc
  let annotations ← many annotationUse
  return (text, annotations)

/-! ## Methods and declarations -/

/-- A parameter. -/
def param : Parser Param := do
  let ((type, name), span) ← spanned do
    let type ← type
    let name ← ident
    return (type, name)
  return ⟨type, name, span⟩

/-- A method declaration. -/
def method : Parser Method := do
  let ((text, annotations, returnType, name, params), span) ← spanned do
    let (text, annotations) ← header
    let returnType ← type
    let name ← ident
    let params ← between .leftParen .rightParen (sepBy param (symbol .comma))
    symbol .semi
    return (text, annotations, returnType, name, params)
  return ⟨name, text, annotations, returnType, params, span⟩

/-- The word that says what is declared. -/
def kind : Parser DeclKind :=
  satisfy .other fun l =>
    match l.token with
    | .keyword .interface_ => some .interfaceType
    | .keyword .class_ => some .classType
    | .keyword .annotation_ => some .annotationType
    | _ => none

/-- A clause with a list of types, empty if it is absent. -/
def clause (k : Keyword) : Parser (List TypeExpr) := do
  let listed ← optional (do keyword k; types)
  return listed.getD []

/-- The body of a declaration: members in braces, or a semicolon. -/
def body (member : Parser Member) : Parser (List Member) :=
  between .leftBrace .rightBrace (many member) <|> do symbol .semi; return []

/-- A type declaration whose members nest less than `n` deep. -/
def declWithin : Nat → Parser Decl
  | 0 => fun _ p => (none, p)
  | n + 1 => do
    let ((make, members), span) ← spanned do
      let (text, annotations) ← header
      let isAbstract ← optional (keyword .abstract_)
      let kind ← kind
      let name ← ident
      let extended ← clause .extends_
      let implemented ← clause .implements_
      let members ← body ((do let d ← declWithin n; return d.toMember) <|>
        do let m ← method; return .method m)
      return (DeclHead.mk kind name text annotations isAbstract.isSome extended implemented,
        members)
    return ⟨make span, members⟩

/-- A type declaration. -/
def decl : Parser Decl := fun i => declWithin (i.left + 1) i

/-! ## Units -/

/-- A reserved word, a dotted name and a semicolon. -/
def nameLine (k : Keyword) : Parser QualifiedName := do
  keyword k
  let name ← qualified
  symbol .semi
  return name

/-- A whole source. -/
def unit : Parser CompilationUnit := do
  let ((package, imports, decls), span) ← spanned do
    let package ← optional (nameLine .package_)
    let imports ← many (nameLine .import_)
    let decls ← many decl
    endOfInput
    return (package, imports, decls)
  return ⟨package, imports, decls, span⟩

end Parser

/-! ## Parsing a source -/

/-- The tree of a source, if it has one, and what is wrong with the source. -/
structure Parsing where
  unit : Option CompilationUnit
  faults : List SourceFault

/-- The tree of a list of tokens, or the fault that kept it from having one. -/
def parseLexemes (source : List Char) (lexemes : List Lexeme) :
    Option CompilationUnit × Option SourceFault :=
  match Parser.unit (Input.start source (DocComment.attach lexemes)) none with
  | (some (u, _), _) => (some u, none)
  | (none, pending) => (none, pending.map (·.fault))

/-- Parses a source.  Lexical errors come first and do not keep the other tokens from being a
    unit. -/
def parse (source : String) : Parsing :=
  let lexing := lex source
  let (unit, fault) := parseLexemes source.toList lexing.lexemes
  ⟨unit, lexing.errors.map (fun (e, span) => ⟨.lexical e, span⟩) ++ fault.toList⟩

end ActorIdl.Syntax
