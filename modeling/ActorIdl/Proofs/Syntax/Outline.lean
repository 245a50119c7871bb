import ActorIdl.Proofs.Syntax.Sentences
import ActorIdl.Proofs.Token.Tiling
/-! # Where the nodes of a tree stand

    The outline of a syntax tree keeps of each node where it stands, what it is called and which
    nodes are below it, in the order of the source.  An outline is sound if every node goes from
    the start of a token to the end of one, a name is the text at its place, and the children of a
    node lie inside it, one behind the other.

    The span of a node is that of the lexemes that it is derived from, and the lexemes of a node are
    those of its children with others between them.  So soundness goes up the derivation, from the
    order of the lexemes: `Strewn ls os` says that the outlines `os` lie among the lexemes `ls`, and
    there is one such statement for every production. -/

namespace ActorIdl.Syntax

open Lexer (IsBoundary)

/-! ## Outlines -/

/-- What a node is called if it is a name, where it stands, and the nodes below it. -/
inductive Outline where
  | node (label : Option String) (span : Span) (children : List Outline)

namespace Outline

/-- Where the node stands. -/
def span : Outline → Span
  | node _ span _ => span

/-- A node that ends before another one begins. -/
def IsBefore (a b : Outline) : Prop := a.span.stop ≤ b.span.start

/-- The span is that of a node of the outline. -/
inductive Has : Outline → Span → Prop where
  | root {label : Option String} {span : Span} {children : List Outline} :
      Has (node label span children) span
  | inner {label : Option String} {span below : Span} {children : List Outline} {child : Outline}
      (hchild : child ∈ children) (h : child.Has below) : Has (node label span children) below

end Outline

/-! ## The outlines of trees -/

/-- The outline of a name. -/
def Name.outline (n : Name) : Outline := .node (some n.text) n.span []

/-- The outline of a dotted name: its segments are below it. -/
def QualifiedName.outline (q : QualifiedName) : Outline :=
  .node none q.span (q.segments.map (·.outline))

mutual

/-- The outline of a type: its name and its arguments are below it. -/
def TypeExpr.outline : TypeExpr → Outline
  | .mk name args _ span => .node none span (name.outline :: TypeExpr.outlines args)

/-- The outlines of types. -/
def TypeExpr.outlines : List TypeExpr → List Outline
  | [] => []
  | t :: ts => t.outline :: TypeExpr.outlines ts

end

/-- The outline of an annotation. -/
def AnnotationExpr.outline (a : AnnotationExpr) : Outline := .node none a.span [a.name.outline]

/-- The outline of a parameter. -/
def Param.outline (p : Param) : Outline := .node none p.span [p.type.outline, p.name.outline]

/-- The outline of a method. -/
def Method.outline (m : Method) : Outline :=
  .node none m.span (m.annotations.map (·.outline) ++
    m.returnType.outline :: m.name.outline :: m.params.map (·.outline))

/-- The outlines of what stands in front of the body of a declaration. -/
def DeclHead.outlines (h : DeclHead) : List Outline :=
  h.annotations.map (·.outline) ++
    h.name.outline :: (TypeExpr.outlines h.extended ++ TypeExpr.outlines h.implemented)

mutual

/-- The outline of a member. -/
def Member.outline : Member → Outline
  | .method m => m.outline
  | .nested head members => .node none head.span (head.outlines ++ Member.outlines members)

/-- The outlines of members. -/
def Member.outlines : List Member → List Outline
  | [] => []
  | m :: ms => m.outline :: Member.outlines ms

end

/-- The outlines of what a unit consists of. -/
def CompilationUnit.outlines (u : CompilationUnit) : List Outline :=
  u.package.toList.map (·.outline) ++ u.imports.map (·.outline) ++
    u.decls.map fun d => d.toMember.outline

/-- The outline of a unit. -/
def CompilationUnit.outline (u : CompilationUnit) : Outline := .node none u.span u.outlines

/-! ## Soundness -/

section
variable (source : List Char) (tokens : List Lexeme)

/-- The span goes from the start of a token to the end of one, is not empty, and cuts the source
    between two characters at both ends. -/
structure IsTokenwise (span : Span) : Prop where
  start_lt_stop : span.start < span.stop
  starts : ∃ l ∈ tokens, l.span.start = span.start
  stops : ∃ l ∈ tokens, l.span.stop = span.stop
  start_isBoundary : IsBoundary source span.start
  stop_isBoundary : IsBoundary source span.stop

/-- Every node of the outline stands where tokens do, names are the text at their place, and the
    children of every node lie inside it and are disjoint and in order. -/
inductive Outline.IsSound : Outline → Prop where
  | node {label : Option String} {span : Span} {children : List Outline}
      (htokenwise : IsTokenwise source tokens span)
      (hlabel : ∀ text ∈ label, text = textAt source span)
      (hinside : ∀ o ∈ children, span.start ≤ o.span.start ∧ o.span.stop ≤ span.stop)
      (hordered : children.Pairwise Outline.IsBefore)
      (hbelow : ∀ o ∈ children, o.IsSound) : IsSound (.node label span children)

/-! ## Lexemes in a row -/

/-- Lexemes that stand one behind the other. -/
structure IsRow (ls : List Lexeme) : Prop where
  ordered : ls.Pairwise fun a b => a.span.stop ≤ b.span.start
  tokenwise : ∀ l ∈ ls, IsTokenwise source tokens l.span

end

section
variable {source : List Char} {tokens us vs ls : List Lexeme}

theorem Outline.IsSound.isTokenwise_of_has {o : Outline} (h : o.IsSound source tokens) {span : Span}
    (hhas : o.Has span) : IsTokenwise source tokens span := by
  induction hhas with
  | root =>
    cases h with
    | node htokenwise => exact htokenwise
  | inner hchild _ ih =>
    cases h with
    | node _ _ _ _ hbelow => exact ih (hbelow _ hchild)

theorem isRow_append : IsRow source tokens (us ++ vs) ↔
    IsRow source tokens us ∧ IsRow source tokens vs ∧
      ∀ a ∈ us, ∀ b ∈ vs, a.span.stop ≤ b.span.start := by
  constructor
  · rintro ⟨hordered, htokenwise⟩
    obtain ⟨hus, hvs, hbetween⟩ := List.pairwise_append.mp hordered
    obtain ⟨hus', hvs'⟩ := List.forall_mem_append.mp htokenwise
    exact ⟨⟨hus, hus'⟩, ⟨hvs, hvs'⟩, hbetween⟩
  · rintro ⟨⟨hus, hus'⟩, ⟨hvs, hvs'⟩, hbetween⟩
    exact ⟨List.pairwise_append.mpr ⟨hus, hvs, hbetween⟩,
      List.forall_mem_append.mpr ⟨hus', hvs'⟩⟩

/-- The first and the last of some lexemes give their span. -/
theorem spanOf_cases (hne : ls ≠ []) : ∃ first ∈ ls, ∃ last ∈ ls,
    spanOf ls = ⟨first.span.start, last.span.stop⟩ ∧ ls.head? = some first ∧
      ls.getLast? = some last := by
  obtain ⟨l, ls, rfl⟩ := List.exists_cons_of_ne_nil hne
  have hlast : (l :: ls).getLast? = some (ls.getLast?.getD l) := List.getLast?_cons
  exact ⟨l, List.mem_cons_self, _, List.mem_of_getLast? hlast, rfl, rfl, hlast⟩

/-- The span of lexemes in a row holds each of them. -/
theorem IsRow.inside_spanOf (h : IsRow source tokens ls) {l : Lexeme} (hl : l ∈ ls) :
    (spanOf ls).start ≤ l.span.start ∧ l.span.stop ≤ (spanOf ls).stop := by
  obtain ⟨first, -, last, -, hspan, hfirst, hlast⟩ := spanOf_cases (List.ne_nil_of_mem hl)
  rw [hspan]
  constructor
  · obtain ⟨rest, rfl⟩ := List.head?_eq_some_iff.mp hfirst
    rcases List.mem_cons.mp hl with rfl | hl
    · exact Nat.le_refl _
    · exact Nat.le_trans (Nat.le_of_lt (h.tokenwise _ List.mem_cons_self).start_lt_stop)
        ((List.pairwise_cons.mp h.ordered).1 l hl)
  · obtain ⟨before, rfl⟩ := List.getLast?_eq_some_iff.mp hlast
    rcases List.mem_append.mp hl with hl' | hl'
    · have hle := (List.pairwise_append.mp h.ordered).2.2 l hl' last (List.mem_singleton.mpr rfl)
      have hlt := (h.tokenwise last (List.mem_append_right _ (List.mem_singleton.mpr rfl))).start_lt_stop
      exact Nat.le_trans hle (Nat.le_of_lt hlt)
    · rw [List.mem_singleton.mp hl']

theorem IsRow.isTokenwise_spanOf (h : IsRow source tokens ls) (hne : ls ≠ []) :
    IsTokenwise source tokens (spanOf ls) := by
  obtain ⟨first, hfirst, last, hlast, hspan, -⟩ := spanOf_cases hne
  have hstart := h.tokenwise first hfirst
  have hstop := h.tokenwise last hlast
  have hinside := h.inside_spanOf hfirst
  rw [hspan] at hinside ⊢
  exact ⟨Nat.lt_of_lt_of_le hstart.start_lt_stop hinside.2, hstart.starts, hstop.stops,
    hstart.start_isBoundary, hstop.stop_isBoundary⟩

end

/-! ## Outlines among lexemes -/

section
variable (source : List Char) (tokens : List Lexeme)

/-- A sound outline that begins with one of the lexemes and ends with one. -/
structure Outline.LiesIn (ls : List Lexeme) (o : Outline) : Prop where
  starts : ∃ l ∈ ls, l.span.start = o.span.start
  stops : ∃ l ∈ ls, l.span.stop = o.span.stop
  isSound : o.IsSound source tokens

/-- Outlines that lie among lexemes, one behind the other, if the lexemes are in a row. -/
def Strewn (ls : List Lexeme) (os : List Outline) : Prop :=
  IsRow source tokens ls → (∀ o ∈ os, o.LiesIn source tokens ls) ∧ os.Pairwise Outline.IsBefore

end

section
variable {source : List Char} {tokens us vs ls : List Lexeme} {os ps : List Outline}

theorem Outline.LiesIn.mono {o : Outline} (h : o.LiesIn source tokens us) (hsub : us ⊆ vs) :
    o.LiesIn source tokens vs := by
  obtain ⟨⟨l, hl, hstart⟩, ⟨m, hm, hstop⟩, hsound⟩ := h
  exact ⟨⟨l, hsub hl, hstart⟩, ⟨m, hsub hm, hstop⟩, hsound⟩

namespace Strewn

theorem nil (ls : List Lexeme) : Strewn source tokens ls [] :=
  fun _ => ⟨fun _ ho => absurd ho List.not_mem_nil, .nil⟩

theorem append (hus : Strewn source tokens us os) (hvs : Strewn source tokens vs ps) :
    Strewn source tokens (us ++ vs) (os ++ ps) := by
  intro hrow
  obtain ⟨hrow, hrow', hbetween⟩ := isRow_append.mp hrow
  obtain ⟨hos, hordered⟩ := hus hrow
  obtain ⟨hps, hordered'⟩ := hvs hrow'
  refine ⟨List.forall_mem_append.mpr ⟨fun o ho => (hos o ho).mono (List.subset_append_left us vs),
    fun p hp => (hps p hp).mono (List.subset_append_right us vs)⟩,
    List.pairwise_append.mpr ⟨hordered, hordered', fun o ho p hp => ?_⟩⟩
  -- the last lexeme of the one stands before the first of the other
  obtain ⟨l, hl, hstop⟩ := (hos o ho).stops
  obtain ⟨m, hm, hstart⟩ := (hps p hp).starts
  unfold Outline.IsBefore
  rw [← hstop, ← hstart]
  exact hbetween l hl m hm

/-- Lexemes in front that belong to no outline. -/
theorem skip (us : List Lexeme) (h : Strewn source tokens vs ps) :
    Strewn source tokens (us ++ vs) ps := (nil us).append h

theorem cons (l : Lexeme) (h : Strewn source tokens vs ps) : Strewn source tokens (l :: vs) ps :=
  h.skip [l]

/-- Lexemes behind that belong to no outline. -/
theorem followed (h : Strewn source tokens us os) (vs : List Lexeme) :
    Strewn source tokens (us ++ vs) os := by
  have happend := h.append (nil vs)
  rwa [List.append_nil] at happend

theorem flatMap {α : Type} {lexemes : α → List Lexeme} {outlines : α → List Outline}
    (h : ∀ a, Strewn source tokens (lexemes a) (outlines a)) (as : List α) :
    Strewn source tokens (as.flatMap lexemes) (as.flatMap outlines) := by
  induction as with
  | nil => exact nil _
  | cons a as ih => exact (h a).append ih

theorem map {α : Type} {lexemes : α → List Lexeme} {outline : α → Outline}
    (h : ∀ a, Strewn source tokens (lexemes a) [outline a]) (as : List α) :
    Strewn source tokens (as.flatMap lexemes) (as.map outline) := by
  rw [List.map_eq_flatMap]
  exact flatMap h as

/-- A node over what lies among its lexemes. -/
theorem node {label : Option String} (hne : ls ≠ [])
    (hlabel : ∀ text ∈ label, text = textAt source (spanOf ls)) (h : Strewn source tokens ls os) :
    Strewn source tokens ls [.node label (spanOf ls) os] := by
  intro hrow
  obtain ⟨hos, hordered⟩ := h hrow
  refine ⟨fun o ho => ?_, List.pairwise_singleton _ _⟩
  obtain rfl := List.mem_singleton.mp ho
  obtain ⟨first, hfirst, last, hlast, hspan, -⟩ := spanOf_cases hne
  refine ⟨⟨first, hfirst, (congrArg Span.start hspan).symm⟩,
    ⟨last, hlast, (congrArg Span.stop hspan).symm⟩,
    .node (hrow.isTokenwise_spanOf hne) hlabel (fun o ho => ?_) hordered
      fun o ho => (hos o ho).isSound⟩
  obtain ⟨l, hl, hstart⟩ := (hos o ho).starts
  obtain ⟨m, hm, hstop⟩ := (hos o ho).stops
  rw [← hstart, ← hstop]
  exact ⟨(hrow.inside_spanOf hl).1, (hrow.inside_spanOf hm).2⟩

/-- A node that is no name. -/
theorem unnamed (hne : ls ≠ []) (h : Strewn source tokens ls os) :
    Strewn source tokens ls [.node none (spanOf ls) os] :=
  h.node hne fun _ htext => absurd htext (Option.not_mem_none _)

/-- A node that is the name that one lexeme spells. -/
theorem name (l : Lexeme) :
    Strewn source tokens [l] [(Name.mk (textAt source l.span) l.span).outline] :=
  (nil [l]).node (List.cons_ne_nil _ _) fun _ htext => (Option.mem_some.mp htext).symm

end Strewn

end

namespace Grammar

variable {source : List Char} {tokens : List Lexeme}

/-! ## Lists -/

section
variable {α : Type} {lexemes : α → List Lexeme} {outline : α → Outline}

theorem strewn_listed (h : ∀ a, Strewn source tokens (lexemes a) [outline a]) (l : Listed α) :
    Strewn source tokens (l.lexemes lexemes) (l.items.map outline) := by
  have hfurther : Strewn source tokens (further lexemes l.more)
      (l.more.map fun item => outline item.2) :=
    Strewn.map (fun item : Span × α => (h item.2).cons (mark .comma item.1)) l.more
  have hlisted := (h l.first).append hfurther
  rw [Listed.items, List.map_cons, List.map_map]
  exact hlisted

theorem strewn_optional {outlines : α → List Outline}
    (h : ∀ a, Strewn source tokens (lexemes a) (outlines a)) (o : Option α) :
    Strewn source tokens (optional lexemes o) ((o.map outlines).getD []) := by
  cases o with
  | none => exact .nil _
  | some a => exact h a

end

/-! ## Names, types and annotations -/

theorem strewn_ident (x : Ident) : Strewn source tokens [x.lexeme] [(x.tree source).outline] :=
  .name x.lexeme

theorem strewn_segment (s : Segment) : Strewn source tokens [s.lexeme] [(s.tree source).outline] :=
  .name s.lexeme

theorem strewn_qualified (q : Qualified) :
    Strewn source tokens q.lexemes [(q.tree source).outline] := by
  have htail := Strewn.map (fun s : Span × Segment =>
    (@strewn_segment source tokens s.2).cons (mark .dot s.1)) q.tail
  have hsegments := (strewn_ident q.head).append htail
  rw [QualifiedName.outline, Qualified.tree, QualifiedName.segments, List.map_cons, List.map_map]
  exact hsegments.unnamed (List.cons_ne_nil _ _)

theorem outlines_eq (ts : List TypeExpr) : TypeExpr.outlines ts = ts.map (·.outline) := by
  induction ts with
  | nil => rfl
  | cons t ts ih =>
    rw [TypeExpr.outlines, ih]
    rfl

mutual

theorem strewn_typeUse : ∀ t : TypeUse, Strewn source tokens t.lexemes [(t.tree source).outline]
  | .mk name args dims => by
    have hparts := (strewn_qualified name).append (strewn_typeArgs args)
    rw [TypeUse.tree, TypeExpr.outline]
    refine Strewn.unnamed (begins_typeUse _).ne_nil ?_
    rw [TypeUse.lexemes]
    exact hparts.followed dims.lexemes

theorem strewn_typeArgs : ∀ a : TypeArgs,
    Strewn source tokens a.lexemes (TypeExpr.outlines (a.trees source))
  | .absent => by
    rw [TypeArgs.lexemes]
    exact .nil _
  | .listed less first more greater => by
    have hlisted := (strewn_typeUse first).append (strewn_furtherTypes more)
    rw [TypeArgs.lexemes, TypeArgs.trees, TypeExpr.outlines]
    exact (hlisted.followed [mark .greater greater]).cons _

theorem strewn_furtherTypes : ∀ more : List (Span × TypeUse),
    Strewn source tokens (TypeUse.furtherLexemes more)
      (TypeExpr.outlines (TypeUse.furtherTrees source more))
  | [] => by
    rw [TypeUse.furtherLexemes]
    exact .nil _
  | (comma, t) :: more => by
    have hlisted := (strewn_typeUse t).append (strewn_furtherTypes more)
    rw [TypeUse.furtherLexemes, TypeUse.furtherTrees, TypeExpr.outlines]
    exact hlisted.cons _

end

theorem strewn_annotation (a : AnnotationUse) :
    Strewn source tokens a.lexemes [(a.tree source).outline] :=
  (((strewn_qualified a.name).followed (optional Arguments.lexemes a.args)).cons
    (mark .atSign a.sign)).unnamed (begins_annotationUse a).ne_nil

theorem strewn_header (h : Header) :
    Strewn source tokens h.lexemes ((h.trees source).map (·.outline)) := by
  rw [Header.trees, List.map_map]
  exact (Strewn.map strewn_annotation h.annotations).skip _

/-! ## Methods -/

theorem strewn_param (p : Param) : Strewn source tokens p.lexemes [(p.tree source).outline] :=
  ((strewn_typeUse p.type).append (strewn_ident p.name)).unnamed (begins_param p).ne_nil

theorem strewn_params (o : Option (Listed Param)) :
    Strewn source tokens (optional (Listed.lexemes Param.lexemes) o)
      (((o.map fun l => l.items.map (·.tree source)).getD []).map (·.outline)) := by
  have hparams := strewn_optional (strewn_listed (@strewn_param source tokens)) o
  cases o with
  | none => exact hparams
  | some l =>
    change Strewn _ _ _ ((l.items.map (·.tree source)).map (·.outline))
    rw [List.map_map]
    exact hparams

theorem strewn_method (m : Method) : Strewn source tokens m.lexemes [(m.tree source).outline] := by
  have hparams :=
    (@strewn_params source tokens m.params).followed [mark .rightParen m.right, mark .semi m.semi]
  have hname := (strewn_ident m.name).append (hparams.cons (mark .leftParen m.left))
  have hparts := (strewn_header m.header).append ((strewn_typeUse m.returnType).append hname)
  rw [← List.append_assoc] at hparts
  exact hparts.unnamed (begins_method m).ne_nil

/-! ## Declarations -/

theorem strewn_clause (k : Keyword) (c : Option Clause) :
    Strewn source tokens (optional (Clause.lexemes k) c)
      (TypeExpr.outlines (Clause.trees source c)) := by
  have hparts : ∀ c : Clause, Strewn source tokens (c.lexemes k)
      (c.types.items.map fun t => (t.tree source).outline) :=
    fun c => (strewn_listed strewn_typeUse c.types).cons (Grammar.word k c.word)
  have hclause := strewn_optional hparts c
  rw [outlines_eq]
  cases c with
  | none => exact hclause
  | some c =>
    change Strewn _ _ _ ((c.types.items.map (·.tree source)).map (·.outline))
    rw [List.map_map]
    exact hclause

theorem strewn_head (h : Head) (span : Span) :
    Strewn source tokens h.lexemes (h.tree source span).outlines := by
  have hclauses := (strewn_clause .extends_ h.extended).append
    (@strewn_clause source tokens .implements_ h.implemented)
  have hname := ((strewn_ident h.name).append hclauses).cons (word (kindWord h.kind) h.kindSpan)
  exact ((strewn_header h.header).followed _).append hname

mutual

theorem strewn_body : ∀ b : Body,
    Strewn source tokens b.lexemes (Member.outlines (b.trees source))
  | .semicolon semi => by
    rw [Body.trees]
    exact .nil _
  | .braces left members right => by
    rw [Body.lexemes, Body.trees]
    exact ((strewn_members members).followed [mark .rightBrace right]).cons _

theorem strewn_member : ∀ m : Member,
    Strewn source tokens m.lexemes [(m.tree source).outline]
  | .decl head body => by
    have hparts := (strewn_head head (spanOf (head.lexemes ++ body.lexemes))).append
      (strewn_body body)
    rw [Member.lexemes, Member.tree, Member.outline]
    exact hparts.unnamed (begins_decl ⟨head, body⟩).ne_nil
  | .method m => by
    rw [Member.lexemes, Member.tree, Member.outline]
    exact strewn_method m

theorem strewn_members : ∀ ms : List Member,
    Strewn source tokens (Member.allLexemes ms) (Member.outlines (Member.trees source ms))
  | [] => by
    rw [Member.allLexemes]
    exact .nil _
  | m :: ms => by
    rw [Member.allLexemes, Member.trees, Member.outlines]
    exact (strewn_member m).append (strewn_members ms)

end

theorem strewn_decl (d : Decl) :
    Strewn source tokens d.lexemes [(d.tree source).toMember.outline] := by
  have hmember := @strewn_member source tokens (.decl d.head d.body)
  rw [Member.lexemes, Member.tree] at hmember
  exact hmember

/-! ## Units -/

theorem strewn_nameLine (k : Keyword) (l : NameLine) :
    Strewn source tokens (l.lexemes k) [(l.name.tree source).outline] :=
  ((strewn_qualified l.name).followed [mark .semi l.semi]).cons (Grammar.word k l.word)

theorem strewn_source (u : Source) : Strewn source tokens u.lexemes (u.tree source).outlines := by
  have hpackage : Strewn source tokens (optional (NameLine.lexemes .package_) u.package)
      ((u.package.map (·.name.tree source)).toList.map (·.outline)) := by
    cases u.package with
    | none => exact .nil _
    | some l => exact strewn_nameLine .package_ l
  have himports := Strewn.map (@strewn_nameLine source tokens .import_) u.imports
  have hdecls := Strewn.map (@strewn_decl source tokens) u.decls
  rw [CompilationUnit.outlines, Source.tree, List.map_map, List.map_map]
  exact (hpackage.append himports).append hdecls

end Grammar

/-! ## Trees of sources -/

theorem isBoundary_of_mem_lexemes {source : String} {l : Lexeme} (hl : l ∈ (lex source).lexemes) :
    IsBoundary source.toList l.span.start ∧ IsBoundary source.toList l.span.stop := by
  obtain ⟨tiles, htiles, hlex⟩ := Lexer.exists_tiles 0 source.toList
  rw [lex, hlex] at hl
  obtain ⟨⟨piece, text, span⟩, ht, hl⟩ := List.mem_filterMap.mp hl
  cases piece <;> cases hl
  exact htiles.isBoundary ht

theorem isRow_attach (source : String) :
    IsRow source.toList (DocComment.attach (lex source).lexemes)
      (DocComment.attach (lex source).lexemes) := by
  have hsublist := DocComment.attachAfter_sublist none (lex source).lexemes
  obtain ⟨hordered, hlt⟩ := Lexer.pairwise_lexemes source
  refine ⟨hordered.sublist hsublist, fun l hl => ?_⟩
  obtain ⟨hstart, hstop⟩ := isBoundary_of_mem_lexemes (hsublist.subset hl)
  exact ⟨hlt l (hsublist.subset hl), ⟨l, hl, rfl⟩, ⟨l, hl, rfl⟩, hstart, hstop⟩

section
variable {source : String} {u : CompilationUnit} (h : (parse source).unit = some u)
include h

/-- The outlines of what a unit consists of are sound. -/
theorem isSound_of_mem_outlines {o : Outline} (ho : o ∈ u.outlines) :
    o.IsSound source.toList (DocComment.attach (lex source).lexemes) := by
  obtain ⟨d, hd, rfl⟩ := unit_of_parse h
  have hrow := isRow_attach source
  rw [← hd] at hrow ⊢
  exact ((Grammar.strewn_source d hrow).1 o ho).isSound

/-- The outline of a unit with tokens is sound. -/
theorem isSound_of_parse (hne : DocComment.attach (lex source).lexemes ≠ []) :
    u.outline.IsSound source.toList (DocComment.attach (lex source).lexemes) := by
  obtain ⟨d, hd, rfl⟩ := unit_of_parse h
  have hrow := isRow_attach source
  rw [← hd] at hrow hne ⊢
  have hspan : (d.tree source.toList).span = spanOf d.lexemes := wholeSpan_of_ne_nil hne _
  rw [CompilationUnit.outline, hspan]
  exact (((Grammar.strewn_source d).unnamed hne hrow).1 _ (List.mem_singleton_self _)).isSound

/-- A unit without tokens has nothing below it and the empty span at the end of the source. -/
theorem eq_of_parse_of_no_tokens (hnil : DocComment.attach (lex source).lexemes = []) :
    u = ⟨none, [], [], ⟨Text.byteLength source.toList, Text.byteLength source.toList⟩⟩ := by
  have hempty : (parse source).unit = some ((Grammar.Source.mk none [] []).tree source.toList) :=
    unit_of_lexemes hnil.symm
  exact Option.some.inj (h.symm.trans hempty)

end

end ActorIdl.Syntax
