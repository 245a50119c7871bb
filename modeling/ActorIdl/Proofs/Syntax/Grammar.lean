import ActorIdl.Syntax
import ActorIdl.Token
/-! # The grammar

    The derivations of the grammar as data, independent of the parser: one type for each
    production, with a part for each part of the production.  A derivation says which lexemes it
    derives and, for a given source, which syntax tree it stands for.  Names and arguments of
    annotations are taken from the source, as the text of their spans.

    Reserved words and punctuation marks are kept as their spans. -/

namespace ActorIdl.Syntax

/-- The text of a source at a span. -/
def textAt (source : List Char) (span : Span) : String :=
  String.ofList (Text.slice source span.start span.stop)

/-- The span from the first of some lexemes to the last. -/
def spanOf : List Lexeme → Span
  | [] => ⟨0, 0⟩
  | l :: ls => ⟨l.span.start, (ls.getLast?.getD l).span.stop⟩

/-- The span of a source with these lexemes: it is empty and at the end if there are none. -/
def wholeSpan (source : List Char) : List Lexeme → Span
  | [] => ⟨Text.byteLength source, Text.byteLength source⟩
  | l :: ls => spanOf (l :: ls)

theorem wholeSpan_of_ne_nil {ls : List Lexeme} (h : ls ≠ []) (source : List Char) :
    wholeSpan source ls = spanOf ls := by
  cases ls with
  | nil => exact absurd rfl h
  | cons l ls => rfl

namespace Grammar

/-- A punctuation mark at a span. -/
def mark (s : Symbol) (span : Span) : Lexeme := ⟨.symbol s, span⟩

/-- A reserved word at a span. -/
def word (k : Keyword) (span : Span) : Lexeme := ⟨.keyword k, span⟩

/-! ## Optional parts and lists -/

/-- The lexemes of a part that can be absent. -/
def optional {α : Type} (lexemes : α → List Lexeme) : Option α → List Lexeme
  | none => []
  | some a => lexemes a

/-- The lexemes of further items, a comma in front of each. -/
def further {α : Type} (lexemes : α → List Lexeme) (items : List (Span × α)) : List Lexeme :=
  items.flatMap fun item => mark .comma item.1 :: lexemes item.2

/-- One or more items with commas between them. -/
structure Listed (α : Type) where
  first : α
  more : List (Span × α)

namespace Listed

variable {α : Type}

/-- The lexemes of the items and commas. -/
def lexemes (item : α → List Lexeme) (l : Listed α) : List Lexeme :=
  item l.first ++ further item l.more

/-- The items. -/
def items (l : Listed α) : List α := l.first :: l.more.map (·.2)

end Listed

/-! ## Names -/

/-- An identifier. -/
structure Ident where
  name : String
  span : Span

namespace Ident

/-- The lexeme of the identifier. -/
def lexeme (x : Ident) : Lexeme := ⟨.ident x.name, x.span⟩

/-- The name that the identifier is. -/
def tree (source : List Char) (x : Ident) : Name := ⟨textAt source x.span, x.span⟩

end Ident

/-- What can stand behind a dot: an identifier or a reserved word. -/
inductive Segment where
  | ident (x : Ident)
  | keyword (k : Keyword) (span : Span)

namespace Segment

/-- The lexeme of the segment. -/
def lexeme : Segment → Lexeme
  | ident x => x.lexeme
  | keyword k span => word k span

/-- The name that the segment is. -/
def tree (source : List Char) (s : Segment) : Name := ⟨textAt source s.lexeme.span, s.lexeme.span⟩

end Segment

/-- A dotted name: `qualified = IDENT ('.' (IDENT | keyword))*`. -/
structure Qualified where
  head : Ident
  tail : List (Span × Segment)

namespace Qualified

/-- The lexemes of the name. -/
def lexemes (q : Qualified) : List Lexeme :=
  q.head.lexeme :: q.tail.flatMap fun s => [mark .dot s.1, s.2.lexeme]

/-- The tree of the name. -/
def tree (source : List Char) (q : Qualified) : QualifiedName :=
  ⟨q.head.tree source, q.tail.map (·.2.tree source), spanOf q.lexemes⟩

end Qualified

/-! ## Types -/

/-- Array dimensions: `('[' ']'){0,255}`. -/
structure Dims where
  brackets : List (Span × Span)
  few : brackets.length ≤ 255

/-- The lexemes of the brackets. -/
def Dims.lexemes (d : Dims) : List Lexeme :=
  d.brackets.flatMap fun b => [mark .leftBracket b.1, mark .rightBracket b.2]

mutual

/-- A type: `type = qualified ('<' type (',' type)* '>')? ('[' ']'){0,255}`. -/
inductive TypeUse where
  | mk (name : Qualified) (args : TypeArgs) (dims : Dims)

/-- Type arguments: `('<' type (',' type)* '>')?`. -/
inductive TypeArgs where
  | absent
  | listed (less : Span) (first : TypeUse) (more : List (Span × TypeUse)) (greater : Span)

end

mutual

/-- The lexemes of a type. -/
def TypeUse.lexemes : TypeUse → List Lexeme
  | .mk name args dims => name.lexemes ++ args.lexemes ++ dims.lexemes

/-- The lexemes of type arguments. -/
def TypeArgs.lexemes : TypeArgs → List Lexeme
  | .absent => []
  | .listed less first more greater =>
    mark .less less :: (first.lexemes ++ TypeUse.furtherLexemes more ++ [mark .greater greater])

/-- The lexemes of further types, a comma in front of each. -/
def TypeUse.furtherLexemes : List (Span × TypeUse) → List Lexeme
  | [] => []
  | (comma, t) :: more => mark .comma comma :: (t.lexemes ++ TypeUse.furtherLexemes more)

end

mutual

/-- The tree of a type. -/
def TypeUse.tree (source : List Char) : TypeUse → TypeExpr
  | .mk name args dims =>
    .mk (name.tree source) (args.trees source) dims.brackets.length
      (spanOf (TypeUse.mk name args dims).lexemes)

/-- The trees of type arguments. -/
def TypeArgs.trees (source : List Char) : TypeArgs → List TypeExpr
  | .absent => []
  | .listed _ first more _ => first.tree source :: TypeUse.furtherTrees source more

/-- The trees of further types. -/
def TypeUse.furtherTrees (source : List Char) : List (Span × TypeUse) → List TypeExpr
  | [] => []
  | (_, t) :: more => t.tree source :: TypeUse.furtherTrees source more

end

/-! ## Annotations and docs -/

/-- An argument of an annotation: `arg = STRING | NUMBER | qualified`. -/
inductive Argument where
  | string (value : String) (span : Span)
  | number (text : String) (span : Span)
  | name (q : Qualified)

namespace Argument

/-- The lexemes of the argument. -/
def lexemes : Argument → List Lexeme
  | string value span => [⟨.string value, span⟩]
  | number text span => [⟨.number text, span⟩]
  | name q => q.lexemes

/-- The argument as it is written. -/
def tree (source : List Char) (a : Argument) : String := textAt source (spanOf a.lexemes)

end Argument

/-- The arguments of an annotation: `'(' (arg (',' arg)*)? ')'`. -/
structure Arguments where
  left : Span
  args : Option (Listed Argument)
  right : Span

/-- The lexemes of the arguments and what is around them. -/
def Arguments.lexemes (a : Arguments) : List Lexeme :=
  mark .leftParen a.left ::
    (optional (Listed.lexemes Argument.lexemes) a.args ++ [mark .rightParen a.right])

/-- The arguments as they are written. -/
def Arguments.trees (source : List Char) (a : Arguments) : List String :=
  (a.args.map fun l => l.items.map (·.tree source)).getD []

/-- An annotation: `annotation = '@' qualified ('(' (arg (',' arg)*)? ')')?`. -/
structure AnnotationUse where
  sign : Span
  name : Qualified
  args : Option Arguments

namespace AnnotationUse

/-- The lexemes of the annotation. -/
def lexemes (a : AnnotationUse) : List Lexeme :=
  mark .atSign a.sign :: (a.name.lexemes ++ optional Arguments.lexemes a.args)

/-- The tree of the annotation. -/
def tree (source : List Char) (a : AnnotationUse) : AnnotationExpr :=
  ⟨a.name.tree source, (a.args.map (·.trees source)).getD [], spanOf a.lexemes⟩

end AnnotationUse

/-- A doc comment. -/
structure Doc where
  text : String
  span : Span

/-- The lexeme of the doc comment. -/
def Doc.lexeme (d : Doc) : Lexeme := ⟨.doc d.text, d.span⟩

/-- What can stand in front of a declaration or method: `doc? annotation*`. -/
structure Header where
  doc : Option Doc
  annotations : List AnnotationUse

namespace Header

/-- The lexemes of the header. -/
def lexemes (h : Header) : List Lexeme :=
  optional (fun d => [d.lexeme]) h.doc ++ h.annotations.flatMap (·.lexemes)

/-- The text of the doc comment, if there is one. -/
def docText (h : Header) : Option String := h.doc.map (·.text)

/-- The trees of the annotations. -/
def trees (source : List Char) (h : Header) : List AnnotationExpr :=
  h.annotations.map (·.tree source)

end Header

/-! ## Methods -/

/-- A parameter: `type IDENT`. -/
structure Param where
  type : TypeUse
  name : Ident

namespace Param

/-- The lexemes of the parameter. -/
def lexemes (p : Param) : List Lexeme := p.type.lexemes ++ [p.name.lexeme]

/-- The tree of the parameter. -/
def tree (source : List Char) (p : Param) : Syntax.Param :=
  ⟨p.type.tree source, p.name.tree source, spanOf p.lexemes⟩

end Param

/-- A method: `doc? annotation* type IDENT '(' (type IDENT (',' type IDENT)*)? ')' ';'`. -/
structure Method where
  header : Header
  returnType : TypeUse
  name : Ident
  left : Span
  params : Option (Listed Param)
  right : Span
  semi : Span

namespace Method

/-- The lexemes of the method. -/
def lexemes (m : Method) : List Lexeme :=
  m.header.lexemes ++ m.returnType.lexemes ++ m.name.lexeme :: mark .leftParen m.left ::
    (optional (Listed.lexemes Param.lexemes) m.params ++
      [mark .rightParen m.right, mark .semi m.semi])

/-- The tree of the method. -/
def tree (source : List Char) (m : Method) : Syntax.Method where
  name := m.name.tree source
  doc := m.header.docText
  annotations := m.header.trees source
  returnType := m.returnType.tree source
  params := (m.params.map fun l => l.items.map (·.tree source)).getD []
  span := spanOf m.lexemes

end Method

/-! ## Declarations -/

/-- The word that says what is declared. -/
def kindWord : DeclKind → Keyword
  | .interfaceType => .interface_
  | .classType => .class_
  | .annotationType => .annotation_

/-- A clause: `keyword type (',' type)*`. -/
structure Clause where
  word : Span
  types : Listed TypeUse

namespace Clause

/-- The lexemes of the clause. -/
def lexemes (k : Keyword) (c : Clause) : List Lexeme :=
  Grammar.word k c.word :: c.types.lexemes TypeUse.lexemes

/-- The trees of the types of a clause; none if the clause is absent. -/
def trees (source : List Char) (c : Option Clause) : List TypeExpr :=
  (c.map fun c => c.types.items.map (·.tree source)).getD []

end Clause

/-- A declaration up to its body: `doc? annotation* 'abstract'? ('interface'|'class'|'annotation')
    IDENT ('extends' type (',' type)*)? ('implements' type (',' type)*)?`. -/
structure Head where
  header : Header
  abstractWord : Option Span
  kind : DeclKind
  kindSpan : Span
  name : Ident
  extended : Option Clause
  implemented : Option Clause

namespace Head

/-- The lexemes of a declaration up to its body. -/
def lexemes (h : Head) : List Lexeme :=
  h.header.lexemes ++ optional (fun span => [word .abstract_ span]) h.abstractWord ++
    word (kindWord h.kind) h.kindSpan :: h.name.lexeme ::
      (optional (Clause.lexemes .extends_) h.extended ++
        optional (Clause.lexemes .implements_) h.implemented)

/-- The tree of a declaration without its body, given the span of the whole declaration. -/
def tree (source : List Char) (h : Head) (span : Span) : DeclHead where
  kind := h.kind
  name := h.name.tree source
  doc := h.header.docText
  annotations := h.header.trees source
  isAbstract := h.abstractWord.isSome
  extended := Clause.trees source h.extended
  implemented := Clause.trees source h.implemented
  span

end Head

mutual

/-- The body of a declaration: `'{' member* '}' | ';'`. -/
inductive Body where
  | semicolon (semi : Span)
  | braces (left : Span) (members : List Member) (right : Span)

/-- A member: `member = decl | method`. -/
inductive Member where
  | decl (head : Head) (body : Body)
  | method (m : Method)

end

mutual

/-- The lexemes of the body of a declaration. -/
def Body.lexemes : Body → List Lexeme
  | .semicolon semi => [mark .semi semi]
  | .braces left members right =>
    mark .leftBrace left :: (Member.allLexemes members ++ [mark .rightBrace right])

/-- The lexemes of a member. -/
def Member.lexemes : Member → List Lexeme
  | .decl head body => head.lexemes ++ body.lexemes
  | .method m => m.lexemes

/-- The lexemes of members. -/
def Member.allLexemes : List Member → List Lexeme
  | [] => []
  | m :: ms => m.lexemes ++ Member.allLexemes ms

end

mutual

/-- The trees of the members in a body. -/
def Body.trees (source : List Char) : Body → List Syntax.Member
  | .semicolon _ => []
  | .braces _ members _ => Member.trees source members

/-- The tree of a member. -/
def Member.tree (source : List Char) : Member → Syntax.Member
  | .decl head body =>
    .nested (head.tree source (spanOf (head.lexemes ++ body.lexemes))) (body.trees source)
  | .method m => .method (m.tree source)

/-- The trees of members. -/
def Member.trees (source : List Char) : List Member → List Syntax.Member
  | [] => []
  | m :: ms => m.tree source :: Member.trees source ms

end

/-- A declaration: what is up to its body, and the body. -/
structure Decl where
  head : Head
  body : Body

namespace Decl

/-- The lexemes of the declaration. -/
def lexemes (d : Decl) : List Lexeme := d.head.lexemes ++ d.body.lexemes

/-- The tree of the declaration. -/
def tree (source : List Char) (d : Decl) : Syntax.Decl :=
  ⟨d.head.tree source (spanOf d.lexemes), d.body.trees source⟩

end Decl

/-! ## Units -/

/-- A line with a name: `keyword qualified ';'`. -/
structure NameLine where
  word : Span
  name : Qualified
  semi : Span

/-- The lexemes of the line. -/
def NameLine.lexemes (k : Keyword) (l : NameLine) : List Lexeme :=
  Grammar.word k l.word :: (l.name.lexemes ++ [mark .semi l.semi])

/-- A unit: `unit = ('package' qualified ';')? ('import' qualified ';')* decl*`. -/
structure Source where
  package : Option NameLine
  imports : List NameLine
  decls : List Decl

namespace Source

/-- The lexemes of the unit. -/
def lexemes (u : Source) : List Lexeme :=
  optional (NameLine.lexemes .package_) u.package ++
    u.imports.flatMap (NameLine.lexemes .import_) ++ u.decls.flatMap (·.lexemes)

/-- The tree of the unit. -/
def tree (source : List Char) (u : Source) : CompilationUnit where
  package := u.package.map (·.name.tree source)
  imports := u.imports.map (·.name.tree source)
  decls := u.decls.map (·.tree source)
  span := wholeSpan source u.lexemes

end Source

end Grammar

end ActorIdl.Syntax
