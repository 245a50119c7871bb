import ActorIdl.Syntax
import Mathlib.Data.List.Forall2
/-! # Syntax trees that are alike

    Two syntax trees of the same shape that have the same names, kinds and dimensions.  A leeway
    says in what their spans, the arguments of their annotations and their doc comments can
    differ. -/

namespace ActorIdl.Syntax

/-- How far two trees can be apart: `span` relates the spans of corresponding names, types,
    annotations and parameters, `args` the arguments of annotations with a span in the first tree,
    `item` the docs and spans of corresponding declarations and methods, and `whole` the spans of
    the units. -/
structure Leeway where
  span : Span → Span → Prop
  args : Span → List String → List String → Prop
  item : Option String × Span → Option String × Span → Prop
  whole : Span → Span → Prop

/-- The same identifier. -/
structure Name.Like (L : Leeway) (n n' : Name) : Prop where
  text : n.text = n'.text
  span : L.span n.span n'.span

/-- The same name. -/
structure QualifiedName.Like (L : Leeway) (q q' : QualifiedName) : Prop where
  head : q.head.Like L q'.head
  tail : List.Forall₂ (Name.Like L) q.tail q'.tail
  span : L.span q.span q'.span

/-- The same type. -/
inductive TypeExpr.Like (L : Leeway) : TypeExpr → TypeExpr → Prop where
  | mk {name name' : QualifiedName} {args args' : List TypeExpr} {dims : Nat} {span span' : Span}
      (hname : name.Like L name') (hargs : List.Forall₂ (TypeExpr.Like L) args args')
      (hspan : L.span span span') :
      TypeExpr.Like L (.mk name args dims span) (.mk name' args' dims span')

/-- The same annotation, with arguments as the leeway allows. -/
structure AnnotationExpr.Like (L : Leeway) (a a' : AnnotationExpr) : Prop where
  name : a.name.Like L a'.name
  args : L.args a.span a.args a'.args
  span : L.span a.span a'.span

/-- The same parameter. -/
structure Param.Like (L : Leeway) (p p' : Param) : Prop where
  type : p.type.Like L p'.type
  name : p.name.Like L p'.name
  span : L.span p.span p'.span

/-- The same method, with a doc and a span as the leeway allows. -/
structure Method.Like (L : Leeway) (m m' : Method) : Prop where
  name : m.name.Like L m'.name
  annotations : List.Forall₂ (AnnotationExpr.Like L) m.annotations m'.annotations
  returnType : m.returnType.Like L m'.returnType
  params : List.Forall₂ (Param.Like L) m.params m'.params
  item : L.item (m.doc, m.span) (m'.doc, m'.span)

/-- The same declaration but for its body, with a doc and a span as the leeway allows. -/
structure DeclHead.Like (L : Leeway) (h h' : DeclHead) : Prop where
  kind : h.kind = h'.kind
  name : h.name.Like L h'.name
  annotations : List.Forall₂ (AnnotationExpr.Like L) h.annotations h'.annotations
  isAbstract : h.isAbstract = h'.isAbstract
  extended : List.Forall₂ (TypeExpr.Like L) h.extended h'.extended
  implemented : List.Forall₂ (TypeExpr.Like L) h.implemented h'.implemented
  item : L.item (h.doc, h.span) (h'.doc, h'.span)

/-- The same member. -/
inductive Member.Like (L : Leeway) : Member → Member → Prop where
  | method {m m' : Method} (h : m.Like L m') : Member.Like L (.method m) (.method m')
  | nested {head head' : DeclHead} {members members' : List Member} (hhead : head.Like L head')
      (hmembers : List.Forall₂ (Member.Like L) members members') :
      Member.Like L (.nested head members) (.nested head' members')

/-- The same declaration. -/
structure Decl.Like (L : Leeway) (d d' : Decl) : Prop where
  head : d.head.Like L d'.head
  members : List.Forall₂ (Member.Like L) d.members d'.members

/-- The same unit. -/
structure CompilationUnit.Like (L : Leeway) (u u' : CompilationUnit) : Prop where
  package : Option.Rel (QualifiedName.Like L) u.package u'.package
  imports : List.Forall₂ (QualifiedName.Like L) u.imports u'.imports
  decls : List.Forall₂ (Decl.Like L) u.decls u'.decls
  span : L.whole u.span u'.span

end ActorIdl.Syntax
