import ActorIdl.Proofs.Syntax.Unambiguous
import ActorIdl.Proofs.Token.Pieces
import ActorIdl.Proofs.Syntax.Yields
/-! # What the parser reads is derived by the grammar

    `x.Derives source lexemes tree` says that whenever `x` succeeds, what it has read are the
    lexemes of a derivation and what it has made of them is the tree of that derivation.  There is
    one statement for each production, in the order of the grammar.

    A derivation takes names from the source and the parser takes them from the tokens; the two
    agree where every identifier and reserved word is spelled in the source as in the token. -/

namespace ActorIdl.Syntax

/-- An identifier or a reserved word is written in the source where it stands. -/
def Spelled (source : List Char) (l : Lexeme) : Prop := l.token.IsWritten (textAt source l.span)

namespace Parser

open Grammar (mark word furtherLexemes_eq Listed)

/-- Reads the lexemes of derivations and makes their trees. -/
abbrev Derives {α δ : Type} (x : Parser α) (source : List Char) (lexemes : δ → List Lexeme)
    (tree : δ → α) : Prop :=
  x.Yields source (Spelled source) fun ts a => ∃ d, ts = lexemes d ∧ a = tree d

variable {α δ : Type} {source : List Char} {x : Parser α} {lexemes : δ → List Lexeme}
  {tree : δ → α}

namespace Derives

/-! ## Repetition and lists -/

theorem optional (hx : x.Derives source lexemes tree) :
    (optional x).Derives source (Grammar.optional lexemes) (Option.map tree) := by
  refine Yields.optional (hx.mono ?_) ⟨none, rfl, rfl⟩
  rintro _ _ ⟨d, rfl, rfl⟩
  exact ⟨some d, rfl, rfl⟩

theorem many (hx : x.Derives source lexemes tree) :
    (many x).Derives source (List.flatMap lexemes) (List.map tree) := by
  refine Yields.many hx ⟨[], rfl, rfl⟩ ?_
  rintro _ _ _ _ ⟨d, rfl, rfl⟩ ⟨ds, rfl, rfl⟩
  exact ⟨d :: ds, rfl, rfl⟩

theorem sepBy1 (hx : x.Derives source lexemes tree) :
    (sepBy1 x (symbol .comma)).Derives source (Listed.lexemes lexemes)
      (fun l => l.items.map tree) := by
  have hmore : (do symbol .comma; x).Derives source
      (fun item : Span × δ => mark .comma item.1 :: lexemes item.2) (fun item => tree item.2) := by
    refine (Yields.symbol .comma).bind ?_
    rintro _ _ ⟨comma, rfl⟩
    refine hx.mono ?_
    rintro _ _ ⟨d, rfl, rfl⟩
    exact ⟨(comma, d), rfl, rfl⟩
  refine hx.bind ?_
  rintro _ _ ⟨first, rfl, rfl⟩
  refine hmore.many.bind ?_
  rintro _ _ ⟨more, rfl, rfl⟩
  refine Yields.pure ⟨⟨first, more⟩, ?_, ?_⟩
  · rw [List.append_nil]
    rfl
  · show _ = (first :: more.map (·.2)).map tree
    rw [List.map_cons, List.map_map]
    rfl

theorem sepBy (hx : x.Derives source lexemes tree) :
    (sepBy x (symbol .comma)).Derives source (Grammar.optional (Listed.lexemes lexemes))
      (fun l => (l.map fun l => l.items.map tree).getD []) := by
  refine Yields.orElse (hx.sepBy1.mono ?_) (Yields.pure ⟨none, rfl, rfl⟩)
  rintro _ _ ⟨l, rfl, rfl⟩
  exact ⟨some l, rfl, rfl⟩

end Derives

/-! ## Names -/

theorem derives_ident : ident.Derives source (fun n => [n.lexeme]) (Grammar.Ident.tree source) := by
  refine Yields.satisfy fun l a hl ha => ?_
  obtain ⟨token, span⟩ := l
  cases token with
  | ident name =>
    cases ha
    refine ⟨⟨name, span⟩, rfl, ?_⟩
    rw [Grammar.Ident.tree]
    exact congrArg (Name.mk · span) hl
  | _ => cases ha

theorem derives_segment :
    segment.Derives source (fun s => [s.lexeme]) (Grammar.Segment.tree source) := by
  refine Yields.satisfy fun l a hl ha => ?_
  obtain ⟨token, span⟩ := l
  cases token with
  | ident name =>
    cases ha
    exact ⟨.ident ⟨name, span⟩, rfl, congrArg (Name.mk · span) hl⟩
  | keyword k =>
    cases ha
    exact ⟨.keyword k span, rfl, congrArg (Name.mk · span) hl⟩
  | _ => cases ha

theorem derives_qualified :
    qualified.Derives source Grammar.Qualified.lexemes (Grammar.Qualified.tree source) := by
  have hmore : (do symbol .dot; segment).Derives source
      (fun s : Span × Grammar.Segment => [mark .dot s.1, s.2.lexeme])
      (fun s => s.2.tree source) := by
    refine (Yields.symbol .dot).bind ?_
    rintro _ _ ⟨dot, rfl⟩
    refine derives_segment.mono ?_
    rintro _ _ ⟨s, rfl, rfl⟩
    exact ⟨(dot, s), rfl, rfl⟩
  have hnames : (do
      let head ← ident
      let tail ← many (do symbol .dot; segment)
      return (head, tail)).Derives source Grammar.Qualified.lexemes
        fun q : Grammar.Qualified =>
          (q.head.tree source, q.tail.map fun s : Span × Grammar.Segment => s.2.tree source) := by
    refine derives_ident.bind ?_
    rintro _ _ ⟨head, rfl, rfl⟩
    refine hmore.many.bind ?_
    rintro _ _ ⟨tail, rfl, rfl⟩
    refine Yields.pure ⟨⟨head, tail⟩, ?_, rfl⟩
    rw [List.append_nil]
    rfl
  -- a name has lexemes, so the span that is taken is theirs
  refine hnames.spanned.bind ?_
  rintro _ ⟨_, span⟩ ⟨⟨q, rfl, rfl⟩, hspan⟩
  refine Yields.pure ⟨q, List.append_nil _, ?_⟩
  rw [Grammar.Qualified.tree, ← hspan (List.cons_ne_nil _ _)]

/-! ## Types -/

theorem furtherTrees_eq (more : List (Span × Grammar.TypeUse)) :
    Grammar.TypeUse.furtherTrees source more = more.map (·.2.tree source) := by
  induction more with
  | nil => rfl
  | cons item more ih =>
    rw [Grammar.TypeUse.furtherTrees, ih]
    rfl

theorem derives_brackets : brackets.Derives source
    (fun b : Span × Span => [mark .leftBracket b.1, mark .rightBracket b.2]) fun _ => () := by
  refine (Yields.symbol .leftBracket).bind ?_
  rintro _ _ ⟨left, rfl⟩
  refine (Yields.symbol .rightBracket).mono ?_
  rintro _ _ ⟨right, rfl⟩
  exact ⟨(left, right), rfl, rfl⟩

/-- Type arguments, given how a type is read. -/
theorem yields_typeArgs {x : Parser TypeExpr}
    (h : x.Derives source Grammar.TypeUse.lexemes (Grammar.TypeUse.tree source)) :
    (optional (between .less .greater (sepBy1 x (symbol .comma)))).Yields source (Spelled source)
      fun ts a => ∃ args : Grammar.TypeArgs, ts = args.lexemes ∧ a.getD [] = args.trees source := by
  refine Yields.optional ((Yields.between .less .greater h.sepBy1).mono ?_) ⟨.absent, ?_, ?_⟩
  · rintro _ _ ⟨less, _, greater, rfl, l, rfl, rfl⟩
    refine ⟨.listed less l.first l.more greater, ?_, ?_⟩
    · rw [Grammar.TypeArgs.lexemes, furtherLexemes_eq]
      rfl
    · rw [Grammar.TypeArgs.trees, furtherTrees_eq]
      show (l.first :: l.more.map (·.2)).map _ = _
      rw [List.map_cons, List.map_map]
      rfl
  · rw [Grammar.TypeArgs.lexemes]
  · rw [Grammar.TypeArgs.trees]
    rfl

/-- What a type is made of, before its dimensions are checked. -/
def typeParts (n : Nat) : Parser (QualifiedName × List TypeExpr × Nat) := do
  let name ← qualified
  let args ← optional (between .less .greater (sepBy1 (typeWithin n) (symbol .comma)))
  let dims ← many brackets
  return (name, args.getD [], dims.length)

/-- A type with any number of dimensions, given how a type within it is read. -/
theorem yields_typeParts {n : Nat}
    (h : (typeWithin n).Derives source Grammar.TypeUse.lexemes (Grammar.TypeUse.tree source)) :
    (typeParts n).Yields source (Spelled source) fun ts r =>
      ∃ (name : Grammar.Qualified) (args : Grammar.TypeArgs) (pairs : List (Span × Span)),
        ts = name.lexemes ++ args.lexemes ++
          pairs.flatMap (fun b : Span × Span => [mark .leftBracket b.1, mark .rightBracket b.2]) ∧
        r = (name.tree source, args.trees source, pairs.length) := by
  refine derives_qualified.bind ?_
  rintro _ _ ⟨name, rfl, rfl⟩
  refine (yields_typeArgs h).bind ?_
  rintro _ a ⟨args, rfl, ha⟩
  refine derives_brackets.many.bind ?_
  rintro _ _ ⟨pairs, rfl, rfl⟩
  refine Yields.pure ⟨name, args, pairs, ?_, ?_⟩
  · rw [List.append_nil, List.append_assoc]
  · rw [ha, List.length_map]

theorem derives_typeWithin (n : Nat) :
    (typeWithin n).Derives source Grammar.TypeUse.lexemes (Grammar.TypeUse.tree source) := by
  -- on how deep the arguments of a type may be nested
  induction n with
  | zero =>
    rintro i p a j q _ _ ⟨⟩
  | succ n ih =>
    refine Yields.checked ((yields_typeParts ih).spanned.bind ?_)
    rintro _ ⟨_, span⟩ ⟨⟨name, args, pairs, rfl, rfl⟩, hspan⟩
    refine Yields.pure fun t ht => ?_
    unfold checkDims at ht
    split at ht
    · rename_i hdims
      cases ht
      have hlexemes : name.lexemes ++ args.lexemes ++ pairs.flatMap (fun b : Span × Span =>
          [mark .leftBracket b.1, mark .rightBracket b.2]) =
            (Grammar.TypeUse.mk name args ⟨pairs, hdims⟩).lexemes := by
        rw [Grammar.TypeUse.lexemes]
        rfl
      rw [hlexemes] at hspan ⊢
      refine ⟨.mk name args ⟨pairs, hdims⟩, List.append_nil _, ?_⟩
      rw [Grammar.TypeUse.tree]
      exact congrArg (TypeExpr.mk _ _ _) (hspan (Grammar.begins_typeUse _).ne_nil)
    · cases ht

theorem derives_type : type.Derives source Grammar.TypeUse.lexemes (Grammar.TypeUse.tree source) :=
  fun i => derives_typeWithin (i.left + 1) i

theorem derives_types : types.Derives source (Listed.lexemes Grammar.TypeUse.lexemes)
    (fun l => l.items.map (·.tree source)) := derives_type.sepBy1

/-! ## Annotations and headers -/

theorem derives_argument :
    argument.Derives source Grammar.Argument.lexemes (Grammar.Argument.tree source) := by
  have hread : (literal <|> do let _ ← qualified; return ()).Derives source
      Grammar.Argument.lexemes fun _ => () := by
    refine Yields.orElse (Yields.satisfy fun l _ _ hl => ?_) (derives_qualified.bind ?_)
    · obtain ⟨token, span⟩ := l
      cases token with
      | string value => exact ⟨.string value span, rfl, rfl⟩
      | number text => exact ⟨.number text span, rfl, rfl⟩
      | _ => cases hl
    · rintro _ _ ⟨q, rfl, rfl⟩
      exact Yields.pure ⟨.name q, List.append_nil _, rfl⟩
  refine hread.spanned.bind ?_
  rintro _ ⟨_, span⟩ ⟨⟨a, rfl, rfl⟩, hspan⟩
  refine (Yields.sourceText span).mono ?_
  rintro _ _ ⟨rfl, rfl⟩
  refine ⟨a, List.append_nil _, ?_⟩
  rw [Grammar.Argument.tree, ← hspan (Grammar.begins_argument a).ne_nil]

theorem derives_annotationUse :
    annotationUse.Derives source Grammar.AnnotationUse.lexemes (Grammar.AnnotationUse.tree source) := by
  have hargs : (between .leftParen .rightParen (sepBy argument (symbol .comma))).Derives source
      Grammar.Arguments.lexemes (Grammar.Arguments.trees source) := by
    refine (Yields.between .leftParen .rightParen derives_argument.sepBy).mono ?_
    rintro _ _ ⟨left, _, right, rfl, args, rfl, rfl⟩
    exact ⟨⟨left, args, right⟩, rfl, rfl⟩
  have hparts : (do
      symbol .atSign
      let name ← qualified
      let args ← optional (between .leftParen .rightParen (sepBy argument (symbol .comma)))
      return (name, args.getD [])).Derives source Grammar.AnnotationUse.lexemes
        fun a : Grammar.AnnotationUse =>
          (a.name.tree source, (a.args.map (Grammar.Arguments.trees source)).getD []) := by
    refine (Yields.symbol .atSign).bind ?_
    rintro _ _ ⟨sign, rfl⟩
    refine derives_qualified.bind ?_
    rintro _ _ ⟨name, rfl, rfl⟩
    refine hargs.optional.bind ?_
    rintro _ _ ⟨args, rfl, rfl⟩
    refine Yields.pure ⟨⟨sign, name, args⟩, ?_, rfl⟩
    rw [List.append_nil]
    rfl
  -- the sign is there, so the span that is taken is that of the lexemes
  refine hparts.spanned.bind ?_
  rintro _ ⟨_, span⟩ ⟨⟨a, rfl, rfl⟩, hspan⟩
  refine Yields.pure ⟨a, List.append_nil _, ?_⟩
  exact congrArg (AnnotationExpr.mk _ _) (hspan (Grammar.begins_annotationUse a).ne_nil)

theorem derives_header : header.Derives source Grammar.Header.lexemes
    fun h => (h.docText, h.trees source) := by
  have hdoc : doc.Derives source (fun d : Grammar.Doc => [d.lexeme]) fun d => d.text := by
    refine Yields.satisfy fun l _ _ hl => ?_
    obtain ⟨token, span⟩ := l
    cases token with
    | doc body =>
      cases hl
      exact ⟨⟨_, span⟩, rfl, rfl⟩
    | _ => cases hl
  refine hdoc.optional.bind ?_
  rintro _ _ ⟨doc, rfl, rfl⟩
  refine derives_annotationUse.many.bind ?_
  rintro _ _ ⟨annotations, rfl, rfl⟩
  refine Yields.pure ⟨⟨doc, annotations⟩, ?_, rfl⟩
  rw [List.append_nil]
  rfl

/-! ## Methods and declarations -/

theorem derives_param : param.Derives source Grammar.Param.lexemes (Grammar.Param.tree source) := by
  have hparts : (do
      let type ← type
      let name ← ident
      return (type, name)).Derives source Grammar.Param.lexemes
        fun p : Grammar.Param => (p.type.tree source, p.name.tree source) := by
    refine derives_type.bind ?_
    rintro _ _ ⟨type, rfl, rfl⟩
    refine derives_ident.bind ?_
    rintro _ _ ⟨name, rfl, rfl⟩
    refine Yields.pure ⟨⟨type, name⟩, ?_, rfl⟩
    rw [List.append_nil]
    rfl
  refine hparts.spanned.bind ?_
  rintro _ ⟨_, span⟩ ⟨⟨p, rfl, rfl⟩, hspan⟩
  refine Yields.pure ⟨p, List.append_nil _, ?_⟩
  exact congrArg (Param.mk _ _) (hspan (Grammar.begins_param p).ne_nil)

theorem derives_method :
    method.Derives source Grammar.Method.lexemes (Grammar.Method.tree source) := by
  have hparts : (do
      let above ← header
      let returnType ← type
      let name ← ident
      let params ← between .leftParen .rightParen (sepBy param (symbol .comma))
      symbol .semi
      return (above.1, above.2, returnType, name, params)).Derives source Grammar.Method.lexemes
        fun m : Grammar.Method => (m.header.docText, m.header.trees source,
          m.returnType.tree source, m.name.tree source,
          (m.params.map fun l : Listed Grammar.Param =>
            l.items.map (Grammar.Param.tree source)).getD []) := by
    refine derives_header.bind ?_
    rintro _ _ ⟨header, rfl, rfl⟩
    refine derives_type.bind ?_
    rintro _ _ ⟨type, rfl, rfl⟩
    refine derives_ident.bind ?_
    rintro _ _ ⟨name, rfl, rfl⟩
    refine (Yields.between .leftParen .rightParen derives_param.sepBy).bind ?_
    rintro _ _ ⟨left, _, right, rfl, params, rfl, rfl⟩
    refine (Yields.symbol .semi).bind ?_
    rintro _ _ ⟨semi, rfl⟩
    refine Yields.pure ⟨⟨header, type, name, left, params, right, semi⟩, ?_, rfl⟩
    simp [Grammar.Method.lexemes]
  -- the lexemes of a method are never none, and their span is the one taken
  refine hparts.spanned.bind ?_
  rintro _ ⟨_, span⟩ ⟨⟨m, rfl, rfl⟩, hspan⟩
  refine Yields.pure ⟨m, List.append_nil _, ?_⟩
  exact congrArg (Method.mk _ _ _ _ _) (hspan (Grammar.begins_method m).ne_nil)

theorem derives_clause (k : Keyword) : (clause k).Derives source
    (Grammar.optional (Grammar.Clause.lexemes k)) (Grammar.Clause.trees source) := by
  have hlisted : (do keyword k; types).Derives source (Grammar.Clause.lexemes k)
      fun c => c.types.items.map (Grammar.TypeUse.tree source) := by
    refine (Yields.keyword k).bind ?_
    rintro _ _ ⟨word, rfl⟩
    refine derives_types.mono ?_
    rintro _ _ ⟨types, rfl, rfl⟩
    exact ⟨⟨word, types⟩, rfl, rfl⟩
  refine hlisted.optional.bind ?_
  rintro _ _ ⟨c, rfl, rfl⟩
  exact Yields.pure ⟨c, List.append_nil _, rfl⟩

theorem derives_kind : kind.Derives source
    (fun k : DeclKind × Span => [word (Grammar.kindWord k.1) k.2]) fun k => k.1 := by
  refine Yields.satisfy fun l a _ ha => ⟨(a, l.span), ?_⟩
  obtain ⟨token, span⟩ := l
  cases token with
  | keyword k =>
    cases k with
    | interface_ | class_ | annotation_ =>
      cases ha
      exact ⟨rfl, rfl⟩
    | _ => cases ha
  | _ => cases ha

theorem trees_eq (ms : List Grammar.Member) :
    Grammar.Member.trees source ms = ms.map (·.tree source) := by
  induction ms with
  | nil => rfl
  | cons m ms ih =>
    rw [Grammar.Member.trees, ih]
    rfl

theorem derives_body {member : Parser Member}
    (h : member.Derives source Grammar.Member.lexemes (Grammar.Member.tree source)) :
    (body member).Derives source Grammar.Body.lexemes (Grammar.Body.trees source) := by
  refine Yields.orElse ((Yields.between .leftBrace .rightBrace h.many).mono ?_)
    ((Yields.symbol .semi).bind ?_)
  · rintro _ _ ⟨left, _, right, rfl, members, rfl, rfl⟩
    refine ⟨.braces left members right, ?_, ?_⟩
    · rw [Grammar.Body.lexemes, Grammar.allLexemes_eq]
    · rw [Grammar.Body.trees, trees_eq]
  · rintro _ _ ⟨semi, rfl⟩
    refine Yields.pure ⟨.semicolon semi, ?_, ?_⟩
    · rw [Grammar.Body.lexemes]
      rfl
    · rw [Grammar.Body.trees]

/-- A member, given how a declaration is read. -/
theorem derives_member {x : Parser Decl}
    (h : x.Derives source Grammar.Decl.lexemes (Grammar.Decl.tree source)) :
    ((do let d ← x; return d.toMember) <|>
      (do let m ← method; return .method m) : Parser Member).Derives source
        Grammar.Member.lexemes (Grammar.Member.tree source) := by
  refine Yields.orElse (h.bind ?_) (derives_method.bind ?_)
  · rintro _ _ ⟨d, rfl, rfl⟩
    refine Yields.pure ⟨.decl d.head d.body, ?_, ?_⟩
    · rw [List.append_nil, Grammar.Member.lexemes]
      rfl
    · rw [Grammar.Member.tree]
      rfl
  · rintro _ _ ⟨m, rfl, rfl⟩
    refine Yields.pure ⟨.method m, ?_, ?_⟩
    · rw [List.append_nil, Grammar.Member.lexemes]
    · rw [Grammar.Member.tree]

theorem derives_abstract : (keyword .abstract_).Derives source
    (fun span : Span => [word .abstract_ span]) fun _ => () := by
  refine (Yields.keyword .abstract_).mono ?_
  rintro _ _ ⟨span, rfl⟩
  exact ⟨span, rfl, rfl⟩

theorem derives_declWithin (n : Nat) :
    (declWithin n).Derives source Grammar.Decl.lexemes (Grammar.Decl.tree source) := by
  -- on how deep declarations may be nested in the declaration
  induction n with
  | zero =>
    rintro i p a j q _ _ ⟨⟩
  | succ n ih =>
    let D : List Lexeme → (Span → DeclHead) × List Member → Prop := fun ts r =>
      ∃ d : Grammar.Decl, ts = d.lexemes ∧ r = (d.head.tree source, d.body.trees source)
    refine Yields.bind (Yields.spanned (?_ : Yields source _ _ D)) ?_
    · refine derives_header.bind ?_
      rintro _ _ ⟨header, rfl, rfl⟩
      refine derives_abstract.optional.bind ?_
      rintro _ _ ⟨abstractWord, rfl, rfl⟩
      refine derives_kind.bind ?_
      rintro _ declared ⟨⟨_, kindSpan⟩, rfl, rfl⟩
      refine derives_ident.bind ?_
      rintro _ _ ⟨name, rfl, rfl⟩
      refine (derives_clause .extends_).bind ?_
      rintro _ _ ⟨extended, rfl, rfl⟩
      refine (derives_clause .implements_).bind ?_
      rintro _ _ ⟨implemented, rfl, rfl⟩
      refine (derives_body (derives_member ih)).bind ?_
      rintro _ _ ⟨body, rfl, rfl⟩
      refine Yields.pure ⟨⟨⟨header, abstractWord, declared, kindSpan, name, extended, implemented⟩,
        body⟩, ?_, ?_⟩
      · simp [Grammar.Decl.lexemes, Grammar.Head.lexemes]
      · rw [Option.isSome_map]
        rfl
    · rintro _ ⟨_, span⟩ ⟨⟨d, rfl, rfl⟩, hspan⟩
      refine Yields.pure ⟨d, List.append_nil _, ?_⟩
      have hspan : span = spanOf d.lexemes := hspan (Grammar.begins_decl d).ne_nil
      rw [hspan]
      rfl

theorem derives_decl : decl.Derives source Grammar.Decl.lexemes (Grammar.Decl.tree source) :=
  fun i => derives_declWithin (i.left + 1) i

/-! ## Units -/

theorem derives_nameLine (k : Keyword) :
    (nameLine k).Derives source (Grammar.NameLine.lexemes k) fun l => l.name.tree source := by
  refine (Yields.keyword k).bind ?_
  rintro _ _ ⟨word, rfl⟩
  refine derives_qualified.bind ?_
  rintro _ _ ⟨name, rfl, rfl⟩
  refine (Yields.symbol .semi).bind ?_
  rintro _ _ ⟨semi, rfl⟩
  refine Yields.pure ⟨⟨word, name, semi⟩, ?_, rfl⟩
  simp [Grammar.NameLine.lexemes]

/-- The tree of a unit is that of a derivation, its span apart: where a unit without tokens stands
    is not known from its tokens. -/
theorem derives_unit : unit.Yields source (Spelled source) fun ts u =>
    ∃ d : Grammar.Source, ts = d.lexemes ∧ u = { d.tree source with span := u.span } ∧
      (ts ≠ [] → u.span = spanOf ts) := by
  let D : List Lexeme → Option QualifiedName × List QualifiedName × List Decl → Prop := fun ts r =>
    ∃ d : Grammar.Source, ts = d.lexemes ∧
      r = ((d.tree source).package, (d.tree source).imports, (d.tree source).decls)
  refine Yields.bind (Yields.spanned (?_ : Yields source _ _ D)) ?_
  · refine (derives_nameLine .package_).optional.bind ?_
    rintro _ _ ⟨package, rfl, rfl⟩
    refine (derives_nameLine .import_).many.bind ?_
    rintro _ _ ⟨imports, rfl, rfl⟩
    refine derives_decl.many.bind ?_
    rintro _ _ ⟨decls, rfl, rfl⟩
    refine Yields.endOfInput.bind ?_
    rintro _ _ rfl
    refine Yields.pure ⟨⟨package, imports, decls⟩, ?_, rfl⟩
    simp [Grammar.Source.lexemes]
  · rintro _ ⟨_, span⟩ ⟨⟨d, rfl, rfl⟩, hspan⟩
    refine Yields.pure ⟨d, List.append_nil _, rfl, ?_⟩
    rw [List.append_nil]
    exact hspan

end Parser

end ActorIdl.Syntax
