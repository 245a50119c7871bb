import ActorIdl.Proofs.Syntax.Grammar
import ActorIdl.Proofs.Token.DocText
/-! # Printing a syntax tree

    The canonical text of a unit: its tokens in the order of the grammar with single spaces between
    them, names with their dots and without blanks, arguments of annotations as they are stored,
    and doc comments on lines of their own in front of what they document.  A declaration without
    members is printed with an empty block. -/

namespace ActorIdl

/-- A punctuation mark as a text. -/
def Symbol.text (s : Symbol) : String := String.singleton s.char

namespace Syntax

/-! ## Items and their layout -/

/-- What is printed: a word stands for one token, a dotted name or an argument of an annotation. -/
inductive Item where
  | word (text : String)
  | doc (text : String)

namespace Item

/-- How the item is written. -/
def chars : Item → List Char
  | word text => text.toList
  | doc text => DocComment.written text.toList

/-- What stands between two items. -/
def gap : Item → Item → Char
  | word _, word _ => ' '
  | _, _ => '\n'

end Item

/-- The items with what stands between them. -/
def layout : List Item → List Char
  | [] => []
  | [item] => item.chars
  | item :: next :: items => item.chars ++ item.gap next :: layout (next :: items)

/-- The words of a list with commas between its elements. -/
def listed {α : Type} (words : α → List String) : List α → List String
  | [] => []
  | a :: as => words a ++ as.flatMap fun b => Symbol.comma.text :: words b

/-! ## Types and annotations -/

mutual

/-- The words of a type. -/
def TypeExpr.words : TypeExpr → List String
  | .mk name args dims _ =>
    name.dotted :: (TypeExpr.argWords args ++
      (List.replicate dims [Symbol.leftBracket.text, Symbol.rightBracket.text]).flatten)

/-- The words of type arguments. -/
def TypeExpr.argWords : List TypeExpr → List String
  | [] => []
  | t :: ts => Symbol.less.text :: (t.words ++ TypeExpr.furtherWords ts ++ [Symbol.greater.text])

/-- The words of further types, a comma in front of each. -/
def TypeExpr.furtherWords : List TypeExpr → List String
  | [] => []
  | t :: ts => Symbol.comma.text :: (t.words ++ TypeExpr.furtherWords ts)

end

/-- The words of the arguments of an annotation; none if there are no arguments. -/
def argumentWords (args : List String) : List String :=
  if args.isEmpty then []
  else Symbol.leftParen.text :: (listed (fun arg => [arg]) args ++ [Symbol.rightParen.text])

/-- The words of an annotation. -/
def AnnotationExpr.words (a : AnnotationExpr) : List String :=
  Symbol.atSign.text :: a.name.dotted :: argumentWords a.args

/-- A doc comment, if there is one, and annotations. -/
def headerItems (doc : Option String) (annotations : List AnnotationExpr) : List Item :=
  doc.toList.map .doc ++ (annotations.flatMap AnnotationExpr.words).map .word

/-! ## Methods and declarations -/

/-- The words of a parameter. -/
def Param.words (p : Param) : List String := p.type.words ++ [p.name.text]

/-- The items of a method. -/
def Method.items (m : Method) : List Item :=
  headerItems m.doc m.annotations ++
    (m.returnType.words ++ m.name.text :: Symbol.leftParen.text ::
      (listed Param.words m.params ++ [Symbol.rightParen.text, Symbol.semi.text])).map .word

/-- The words of a clause; none if it has no types. -/
def clauseWords (k : Keyword) (types : List TypeExpr) : List String :=
  if types.isEmpty then [] else k.text :: listed TypeExpr.words types

/-- The items of a declaration up to its body. -/
def DeclHead.items (h : DeclHead) : List Item :=
  headerItems h.doc h.annotations ++
    ((if h.isAbstract then [Keyword.abstract_.text] else []) ++
      (Grammar.kindWord h.kind).text :: h.name.text ::
        (clauseWords .extends_ h.extended ++ clauseWords .implements_ h.implemented)).map .word

mutual

/-- The items of a member. -/
def Member.items : Member → List Item
  | .method m => m.items
  | .nested head members =>
    head.items ++ .word Symbol.leftBrace.text ::
      (Member.allItems members ++ [.word Symbol.rightBrace.text])

/-- The items of members. -/
def Member.allItems : List Member → List Item
  | [] => []
  | m :: ms => m.items ++ Member.allItems ms

end

/-- The items of a declaration. -/
def Decl.items (d : Decl) : List Item :=
  d.head.items ++ .word Symbol.leftBrace.text ::
    (Member.allItems d.members ++ [.word Symbol.rightBrace.text])

/-! ## Units -/

/-- The words of a line with a name. -/
def nameLineWords (k : Keyword) (name : QualifiedName) : List String :=
  [k.text, name.dotted, Symbol.semi.text]

/-- The items of a unit. -/
def CompilationUnit.items (u : CompilationUnit) : List Item :=
  (u.package.toList.flatMap (nameLineWords .package_) ++
    u.imports.flatMap (nameLineWords .import_)).map .word ++ u.decls.flatMap Decl.items

/-- The canonical text of a unit. -/
def CompilationUnit.print (u : CompilationUnit) : String := String.ofList (layout u.items)

/-! ## Trees without their spans -/

def Name.unspanned (n : Name) : Name := ⟨n.text, ⟨0, 0⟩⟩

def QualifiedName.unspanned (q : QualifiedName) : QualifiedName :=
  ⟨q.head.unspanned, q.tail.map Name.unspanned, ⟨0, 0⟩⟩

mutual

def TypeExpr.unspanned : TypeExpr → TypeExpr
  | .mk name args dims _ => .mk name.unspanned (TypeExpr.unspannedAll args) dims ⟨0, 0⟩

def TypeExpr.unspannedAll : List TypeExpr → List TypeExpr
  | [] => []
  | t :: ts => t.unspanned :: TypeExpr.unspannedAll ts

end

def AnnotationExpr.unspanned (a : AnnotationExpr) : AnnotationExpr :=
  ⟨a.name.unspanned, a.args, ⟨0, 0⟩⟩

def Param.unspanned (p : Param) : Param := ⟨p.type.unspanned, p.name.unspanned, ⟨0, 0⟩⟩

def Method.unspanned (m : Method) : Method where
  name := m.name.unspanned
  doc := m.doc
  annotations := m.annotations.map AnnotationExpr.unspanned
  returnType := m.returnType.unspanned
  params := m.params.map Param.unspanned
  span := ⟨0, 0⟩

def DeclHead.unspanned (h : DeclHead) : DeclHead where
  kind := h.kind
  name := h.name.unspanned
  doc := h.doc
  annotations := h.annotations.map AnnotationExpr.unspanned
  isAbstract := h.isAbstract
  extended := h.extended.map TypeExpr.unspanned
  implemented := h.implemented.map TypeExpr.unspanned
  span := ⟨0, 0⟩

mutual

def Member.unspanned : Member → Member
  | .method m => .method m.unspanned
  | .nested head members => .nested head.unspanned (Member.unspannedAll members)

def Member.unspannedAll : List Member → List Member
  | [] => []
  | m :: ms => m.unspanned :: Member.unspannedAll ms

end

def Decl.unspanned (d : Decl) : Decl := ⟨d.head.unspanned, Member.unspannedAll d.members⟩

/-- The unit with all spans forgotten. -/
def CompilationUnit.unspanned (u : CompilationUnit) : CompilationUnit where
  package := u.package.map QualifiedName.unspanned
  imports := u.imports.map QualifiedName.unspanned
  decls := u.decls.map Decl.unspanned
  span := ⟨0, 0⟩

end Syntax

end ActorIdl
