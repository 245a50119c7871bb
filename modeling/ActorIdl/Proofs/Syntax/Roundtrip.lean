import ActorIdl.Proofs.Syntax.Respelling
/-! # Parsing undoes printing

    The tree of a source without faults is printed to a text that is parsed without faults into the
    same tree, up to spans.

    A derivation for the printed text is put together from derivations for its parts, along the
    derivation of the source: `Prints source items lexemes tree forget x` says so of a part `x`.
    What a tree does not say is printed in one way: an annotation without arguments has no
    parentheses, and a declaration without members has an empty block. -/

namespace ActorIdl.Syntax

open Grammar (mark word Listed)

variable {source : String}

/-! ## Repetition and lists -/

section
variable {δ σ τ : Type} {items : δ → List Item} {lexemes : δ → List Lexeme}
  {tree : List Char → δ → σ} {forget : σ → τ} (words : σ → List String)

theorem prints_flatMap {xs : List δ}
    (h : ∀ x ∈ xs, Prints source (items x) lexemes tree forget x) :
    Prints source (xs.flatMap items) (List.flatMap lexemes) (fun s => List.map (tree s))
      (List.map forget) xs := by
  induction xs with
  | nil => exact Spells.nil fun _ => ⟨[], rfl, rfl⟩
  | cons x xs ih =>
    obtain ⟨hx, hxs⟩ := List.forall_mem_cons.mp h
    refine (hx.append (ih hxs)).mono ?_
    rintro s _ ⟨_, _, rfl, ⟨x', rfl, hx'⟩, xs', rfl, hxs'⟩
    exact ⟨x' :: xs', rfl, congrArg₂ List.cons hx' hxs'⟩

theorem prints_optional {o : Option δ}
    (h : ∀ x ∈ o, Prints source (items x) lexemes tree forget x) :
    Prints source (o.toList.flatMap items) (Grammar.optional lexemes)
      (fun s => Option.map (tree s)) (Option.map forget) o := by
  cases o with
  | none => exact Spells.nil fun _ => ⟨none, rfl, rfl⟩
  | some x =>
    rw [Option.toList_some, List.flatMap_singleton]
    refine (h x rfl).mono ?_
    rintro s _ ⟨x', rfl, hx'⟩
    exact ⟨some x', rfl, congrArg some hx'⟩

theorem prints_listed {l : Listed δ} (h : ∀ x ∈ l.items,
      Prints source ((words (tree source.toList x)).map .word) lexemes tree forget x) :
    Prints source ((listed words (l.items.map (tree source.toList))).map .word)
      (Listed.lexemes lexemes) (fun s l => l.items.map (tree s)) (List.map forget) l := by
  obtain ⟨hfirst, hmore⟩ := List.forall_mem_cons.mp h
  have hitem : ∀ item ∈ l.more, Prints source
      ([.word Symbol.comma.text] ++ (words (tree source.toList item.2)).map .word)
      (fun item : Span × δ => mark .comma item.1 :: lexemes item.2) (fun s item => tree s item.2)
      forget item := by
    intro item hitem
    refine ((spells_symbol .comma).append
      (hmore item.2 (List.mem_map.mpr ⟨item, hitem, rfl⟩))).mono ?_
    rintro s _ ⟨_, _, rfl, ⟨comma, rfl⟩, x', rfl, hx'⟩
    exact ⟨(comma, x'), rfl, hx'⟩
  -- the words of the list, item by item, each further one with its comma
  have hwords : (listed words (l.items.map (tree source.toList))).map Item.word =
      (words (tree source.toList l.first)).map .word ++ l.more.flatMap fun item =>
        [.word Symbol.comma.text] ++ (words (tree source.toList item.2)).map .word := by
    simp [Listed.items, listed, List.map_flatMap, List.flatMap_map]
  rw [hwords]
  -- whatever list is read back has as many commas as there were
  refine (hfirst.append (prints_flatMap hitem)).mono ?_
  rintro s _ ⟨_, _, rfl, ⟨first', rfl, hfirst'⟩, more', rfl, hmore'⟩
  refine ⟨⟨first', more'⟩, rfl, ?_⟩
  simp only [Listed.items, List.map_cons, List.map_map] at hmore' ⊢
  exact congrArg₂ List.cons hfirst' hmore'

/-- A list that can be absent, printed without anything around it. -/
theorem prints_optional_listed {o : Option (Listed δ)} (h : ∀ l ∈ o, ∀ x ∈ l.items,
      Prints source ((words (tree source.toList x)).map .word) lexemes tree forget x) :
    Prints source
      ((listed words ((o.map fun l => l.items.map (tree source.toList)).getD [])).map .word)
      (Grammar.optional (Listed.lexemes lexemes))
      (fun s o => (o.map fun l => l.items.map (tree s)).getD []) (List.map forget) o := by
  cases o with
  | none => exact Spells.nil fun _ => ⟨none, rfl, rfl⟩
  | some l =>
    refine (prints_listed words (h l rfl)).mono ?_
    rintro s _ ⟨l', rfl, hl'⟩
    exact ⟨some l', rfl, hl'⟩

end

/-! ## Types -/

theorem prints_dims (source : String) (d : Grammar.Dims) :
    Prints source ((List.replicate d.brackets.length
      [Symbol.leftBracket.text, Symbol.rightBracket.text]).flatten.map .word) Grammar.Dims.lexemes
        (fun _ d => d.brackets) List.length d := by
  have hpair : ∀ b ∈ d.brackets, Prints source
      ([.word Symbol.leftBracket.text] ++ [.word Symbol.rightBracket.text])
      (fun b : Span × Span => [mark .leftBracket b.1, mark .rightBracket b.2]) (fun _ _ => ()) id
      b := by
    intro _ _
    refine ((spells_symbol .leftBracket).append (spells_symbol .rightBracket)).mono ?_
    rintro s _ ⟨_, _, rfl, ⟨left, rfl⟩, right, rfl⟩
    exact ⟨(left, right), rfl, rfl⟩
  have hwords : (List.replicate d.brackets.length
      [Symbol.leftBracket.text, Symbol.rightBracket.text]).flatten.map Item.word =
        d.brackets.flatMap fun _ =>
          [.word Symbol.leftBracket.text] ++ [.word Symbol.rightBracket.text] := by
    rw [List.map_flatten, List.map_replicate, List.flatMap_def, List.map_const']
    rfl
  rw [hwords]
  refine (prints_flatMap hpair).mono ?_
  rintro s _ ⟨brackets, rfl, hcount⟩
  -- as many pairs are read back, and so no more than are allowed
  have hlength : brackets.length = d.brackets.length := by
    simpa using congrArg List.length hcount
  exact ⟨⟨brackets, hlength ▸ d.few⟩, rfl, hlength⟩

mutual

theorem prints_typeUse (t : Grammar.TypeUse) (h : Read source t.lexemes) :
    Prints source ((t.tree source.toList).words.map .word) Grammar.TypeUse.lexemes
      Grammar.TypeUse.tree TypeExpr.unspanned t :=
  match t, h with
  | .mk name args dims, h => by
    rw [Grammar.TypeUse.lexemes] at h
    rw [Grammar.TypeUse.tree, TypeExpr.words, List.map_cons, List.map_append]
    refine ((prints_qualified h.left.left).append
      ((prints_typeArgs args h.left.right).append (prints_dims source dims))).mono ?_
    rintro s _ ⟨_, _, rfl, ⟨name', rfl, hname⟩, _, _, rfl, ⟨args', rfl, hargs⟩, dims', rfl, hdims⟩
    have hdims : dims'.brackets.length = dims.brackets.length := hdims
    refine ⟨.mk name' args' dims', ?_, ?_⟩
    · rw [Grammar.TypeUse.lexemes, List.append_assoc]
    · rw [Grammar.TypeUse.tree, Grammar.TypeUse.tree, TypeExpr.unspanned, TypeExpr.unspanned, hname,
        hargs, hdims]

theorem prints_typeArgs (a : Grammar.TypeArgs) (h : Read source a.lexemes) :
    Prints source ((TypeExpr.argWords (a.trees source.toList)).map .word) Grammar.TypeArgs.lexemes
      Grammar.TypeArgs.trees TypeExpr.unspannedAll a :=
  match a, h with
  | .absent, _ => by
    rw [Grammar.TypeArgs.trees, TypeExpr.argWords]
    refine Spells.nil fun s => ⟨.absent, ?_, ?_⟩
    · rw [Grammar.TypeArgs.lexemes]
    · rw [Grammar.TypeArgs.trees, Grammar.TypeArgs.trees]
  | .listed less first more greater, h => by
    rw [Grammar.TypeArgs.lexemes] at h
    rw [Grammar.TypeArgs.trees, TypeExpr.argWords, List.map_cons, List.map_append, List.map_append]
    refine ((spells_symbol .less).append (((prints_typeUse first h.tail.left.left).append
      (prints_furtherTypes more h.tail.left.right)).append (spells_symbol .greater))).mono ?_
    rintro s _ ⟨_, _, rfl, ⟨less', rfl⟩, _, _, rfl, ⟨_, _, rfl, ⟨first', rfl, hfirst⟩, more', rfl,
      hmore⟩, greater', rfl⟩
    refine ⟨.listed less' first' more' greater', ?_, ?_⟩
    · rw [Grammar.TypeArgs.lexemes]
      rfl
    · rw [Grammar.TypeArgs.trees, Grammar.TypeArgs.trees, TypeExpr.unspannedAll,
        TypeExpr.unspannedAll, hfirst, hmore]

theorem prints_furtherTypes (more : List (Span × Grammar.TypeUse))
    (h : Read source (Grammar.TypeUse.furtherLexemes more)) :
    Prints source
      ((TypeExpr.furtherWords (Grammar.TypeUse.furtherTrees source.toList more)).map .word)
      Grammar.TypeUse.furtherLexemes Grammar.TypeUse.furtherTrees TypeExpr.unspannedAll more :=
  match more, h with
  | [], _ => by
    rw [Grammar.TypeUse.furtherTrees, TypeExpr.furtherWords]
    refine Spells.nil fun s => ⟨[], ?_, ?_⟩
    · rw [Grammar.TypeUse.furtherLexemes]
    · rw [Grammar.TypeUse.furtherTrees, Grammar.TypeUse.furtherTrees]
  | (comma, t) :: more, h => by
    rw [Grammar.TypeUse.furtherLexemes] at h
    rw [Grammar.TypeUse.furtherTrees, TypeExpr.furtherWords, List.map_cons, List.map_append]
    refine ((spells_symbol .comma).append ((prints_typeUse t h.tail.left).append
      (prints_furtherTypes more h.tail.right))).mono ?_
    rintro s _ ⟨_, _, rfl, ⟨comma', rfl⟩, _, _, rfl, ⟨t', rfl, ht⟩, more', rfl, hmore⟩
    refine ⟨(comma', t') :: more', ?_, ?_⟩
    · rw [Grammar.TypeUse.furtherLexemes]
      rfl
    · rw [Grammar.TypeUse.furtherTrees, Grammar.TypeUse.furtherTrees, TypeExpr.unspannedAll,
        TypeExpr.unspannedAll, ht, hmore]

end

/-! ## Annotations and headers -/

/-- Parentheses without anything in them are not printed. -/
theorem prints_arguments (herrors : (lex source).errors = []) {o : Option Grammar.Arguments}
    (h : Read source (Grammar.optional Grammar.Arguments.lexemes o)) :
    Prints source ((argumentWords ((o.map (·.trees source.toList)).getD [])).map .word)
      (Grammar.optional Grammar.Arguments.lexemes) (fun s o => (o.map (·.trees s)).getD []) id
      o := by
  -- absent, empty or with arguments: only the last is printed
  rcases o with _ | ⟨left, _ | args, right⟩
  · exact Spells.nil fun _ => ⟨none, rfl, rfl⟩
  · exact Spells.nil fun _ => ⟨none, rfl, rfl⟩
  · have hargs : Read source (args.lexemes Grammar.Argument.lexemes) := h.tail.left
    have hlisted : Prints source
        ((listed (fun arg => [arg]) (args.items.map (Grammar.Argument.tree source.toList))).map .word)
        (Listed.lexemes Grammar.Argument.lexemes)
        (fun s l => l.items.map (Grammar.Argument.tree s)) (List.map id) args :=
      prints_listed _ fun x hx => prints_argument herrors (hargs.of_mem_listed hx)
    have hwords : (argumentWords (((some (⟨left, some args, right⟩ : Grammar.Arguments)).map
        (·.trees source.toList)).getD [])).map Item.word =
        [.word Symbol.leftParen.text] ++ ((listed (fun arg => [arg])
          (args.items.map (Grammar.Argument.tree source.toList))).map .word ++
            [.word Symbol.rightParen.text]) := by
      simp [argumentWords, Grammar.Arguments.trees, Listed.items]
    rw [hwords]
    refine ((spells_symbol .leftParen).append
      (hlisted.append (spells_symbol .rightParen))).mono ?_
    rintro s _ ⟨_, _, rfl, ⟨left', rfl⟩, _, _, rfl, ⟨args', rfl, hargs'⟩, right', rfl⟩
    rw [List.map_id, List.map_id] at hargs'
    exact ⟨some ⟨left', some args', right'⟩, rfl, hargs'⟩

theorem prints_annotationUse (herrors : (lex source).errors = []) {a : Grammar.AnnotationUse}
    (h : Read source a.lexemes) :
    Prints source ((a.tree source.toList).words.map .word) Grammar.AnnotationUse.lexemes
      Grammar.AnnotationUse.tree AnnotationExpr.unspanned a := by
  refine ((spells_symbol .atSign).append ((prints_qualified h.tail.left).append
    (prints_arguments herrors h.tail.right))).mono ?_
  rintro s _ ⟨_, _, rfl, ⟨sign', rfl⟩, _, _, rfl, ⟨name', rfl, hname⟩, args', rfl, hargs⟩
  exact ⟨⟨sign', name', args'⟩, rfl,
    congrArg₂ (fun name args => AnnotationExpr.mk name args ⟨0, 0⟩) hname hargs⟩

theorem spells_header (herrors : (lex source).errors = []) {x : Grammar.Header}
    (h : Read source x.lexemes) :
    Spells (headerItems x.docText (x.trees source.toList)) fun s ls => ∃ x' : Grammar.Header,
      ls = x'.lexemes ∧ x'.docText = x.docText ∧ (x'.trees s).map AnnotationExpr.unspanned =
        (x.trees source.toList).map AnnotationExpr.unspanned := by
  -- the text of a doc comment has been cleaned, so it is spelled as it is
  have hdoc : Spells (x.docText.toList.map .doc) fun _ ls => ∃ doc' : Option Grammar.Doc,
      ls = Grammar.optional (fun d => [d.lexeme]) doc' ∧ doc'.map (·.text) = x.docText := by
    obtain ⟨_ | d, annotations⟩ := x
    · exact Spells.nil fun _ => ⟨none, rfl, rfl⟩
    · have htext : DocComment.IsDocText d.text.toList :=
        Lexer.isDocText_of_mem (h.mem_lex List.mem_cons_self)
      refine (spells_doc htext).mono ?_
      rintro _ _ ⟨span, rfl⟩
      exact ⟨some ⟨d.text, span⟩, rfl, rfl⟩
  have hannotations := prints_flatMap fun a ha =>
    prints_annotationUse herrors (h.right.of_mem_flatMap ha)
  have hitems : headerItems x.docText (x.trees source.toList) = x.docText.toList.map .doc ++
      x.annotations.flatMap fun a => (a.tree source.toList).words.map .word := by
    rw [headerItems, Grammar.Header.trees, List.map_flatMap, List.flatMap_map]
  rw [hitems]
  refine (hdoc.append hannotations).mono ?_
  rintro s _ ⟨_, _, rfl, ⟨doc', rfl, hdoc'⟩, annotations', rfl, hannotations'⟩
  exact ⟨⟨doc', annotations'⟩, rfl, hdoc', hannotations'⟩

/-! ## Methods -/

theorem prints_param {p : Grammar.Param} (h : Read source p.lexemes) :
    Prints source ((p.tree source.toList).words.map .word) Grammar.Param.lexemes Grammar.Param.tree
      Param.unspanned p := by
  rw [Param.words, List.map_append]
  refine ((prints_typeUse p.type h.left).append
    (prints_ident h.right List.mem_cons_self)).mono ?_
  rintro s _ ⟨_, _, rfl, ⟨type', rfl, htype⟩, name', rfl, hname⟩
  exact ⟨⟨type', name'⟩, rfl,
    congrArg₂ (fun type name => Param.mk type name ⟨0, 0⟩) htype hname⟩

theorem prints_method (herrors : (lex source).errors = []) {m : Grammar.Method}
    (h : Read source m.lexemes) :
    Prints source (m.tree source.toList).items Grammar.Method.lexemes Grammar.Method.tree
      Method.unspanned m := by
  have hrest := h.right
  have hparams : Read source (Grammar.optional (Listed.lexemes Grammar.Param.lexemes) m.params) :=
    hrest.tail.tail.left
  have hlisted := prints_optional_listed Param.words (o := m.params) fun l hl x hx => by
    rw [hl] at hparams
    exact prints_param (hparams.of_mem_listed hx)
  -- the items, part by part along the production
  have hitems : (m.tree source.toList).items =
      headerItems m.header.docText (m.header.trees source.toList) ++
        ((m.returnType.tree source.toList).words.map .word ++ ([.word (m.name.tree source.toList).text]
          ++ ([.word Symbol.leftParen.text] ++ ((listed Param.words ((m.params.map fun l =>
            l.items.map (Grammar.Param.tree source.toList)).getD [])).map .word ++
              ([.word Symbol.rightParen.text] ++ [.word Symbol.semi.text]))))) := by
    simp [Method.items, Grammar.Method.tree]
  rw [hitems]
  refine ((spells_header herrors h.left.left).append ((prints_typeUse _ h.left.right).append
    ((prints_ident hrest List.mem_cons_self).append ((spells_symbol .leftParen).append
      (hlisted.append ((spells_symbol .rightParen).append (spells_symbol .semi))))))).mono ?_
  rintro s _ ⟨_, _, rfl, ⟨header', rfl, hdoc, hannotations⟩, _, _, rfl, ⟨type', rfl, htype⟩, _, _,
    rfl, ⟨name', rfl, hname⟩, _, _, rfl, ⟨left', rfl⟩, _, _, rfl, ⟨params', rfl, hparams'⟩, _, _, rfl,
    ⟨right', rfl⟩, semi', rfl⟩
  refine ⟨⟨header', type', name', left', params', right', semi'⟩, ?_, ?_⟩
  · simp [Grammar.Method.lexemes]
  · simp only [Method.unspanned, Grammar.Method.tree, Method.mk.injEq, and_true]
    exact ⟨hname, hdoc, hannotations, htype, hparams'⟩

/-! ## Declarations -/

/-- A clause that is absent is not printed. -/
theorem prints_clause (k : Keyword) {c : Option Grammar.Clause}
    (h : Read source (Grammar.optional (Grammar.Clause.lexemes k) c)) :
    Prints source ((clauseWords k (Grammar.Clause.trees source.toList c)).map .word)
      (Grammar.optional (Grammar.Clause.lexemes k)) Grammar.Clause.trees
      (List.map TypeExpr.unspanned) c := by
  cases c with
  | none => exact Spells.nil fun _ => ⟨none, rfl, rfl⟩
  | some c =>
    have htypes : Read source (c.types.lexemes Grammar.TypeUse.lexemes) := h.tail
    have hlisted := prints_listed TypeExpr.words (l := c.types) fun t ht =>
      prints_typeUse t (htypes.of_mem_listed ht)
    refine ((spells_keyword k).append hlisted).mono ?_
    rintro s _ ⟨_, _, rfl, ⟨word', rfl⟩, types', rfl, htypes'⟩
    exact ⟨some ⟨word', types'⟩, rfl, htypes'⟩

theorem prints_head (herrors : (lex source).errors = []) {x : Grammar.Head}
    (h : Read source x.lexemes) (span : Span) :
    Prints source (x.tree source.toList span).items Grammar.Head.lexemes (fun s x => x.tree s span)
      DeclHead.unspanned x := by
  have hrest := h.right
  have habstract : Spells ((if x.abstractWord.isSome then [Keyword.abstract_.text] else []).map .word)
      fun _ ls => ∃ o : Option Span, ls = Grammar.optional (fun span => [word .abstract_ span]) o ∧
        o.isSome = x.abstractWord.isSome := by
    cases x.abstractWord with
    | none => exact Spells.nil fun _ => ⟨none, rfl, rfl⟩
    | some span =>
      refine (spells_keyword .abstract_).mono ?_
      rintro _ _ ⟨span', rfl⟩
      exact ⟨some span', rfl, rfl⟩
  -- the items, part by part along the production
  have hitems : (x.tree source.toList span).items =
      headerItems x.header.docText (x.header.trees source.toList) ++
        ((if x.abstractWord.isSome then [Keyword.abstract_.text] else []).map .word ++
          ([.word (Grammar.kindWord x.kind).text] ++ ([.word (x.name.tree source.toList).text] ++
            ((clauseWords .extends_ (Grammar.Clause.trees source.toList x.extended)).map .word ++
              (clauseWords .implements_ (Grammar.Clause.trees source.toList x.implemented)).map
                .word)))) := by
    simp only [DeclHead.items, Grammar.Head.tree, List.map_append, List.map_cons]
    rfl
  rw [hitems]
  refine ((spells_header herrors h.left.left).append (habstract.append
    ((spells_keyword _).append ((prints_ident hrest.tail List.mem_cons_self).append
      ((prints_clause _ hrest.tail.tail.left).append
        (prints_clause _ hrest.tail.tail.right)))))).mono ?_
  rintro s _ ⟨_, _, rfl, ⟨header', rfl, hdoc, hannotations⟩, _, _, rfl, ⟨abstract', rfl, habstract'⟩,
    _, _, rfl, ⟨kind', rfl⟩, _, _, rfl, ⟨name', rfl, hname⟩, _, _, rfl, ⟨extended', rfl, hextended⟩,
    implemented', rfl, himplemented⟩
  refine ⟨⟨header', abstract', x.kind, kind', name', extended', implemented'⟩, ?_, ?_⟩
  · simp [Grammar.Head.lexemes]
  · simp only [DeclHead.unspanned, Grammar.Head.tree, DeclHead.mk.injEq, and_true, true_and]
    exact ⟨hname, hdoc, hannotations, habstract', hextended, himplemented⟩

mutual

/-- A body is printed as a block. -/
theorem prints_body (herrors : (lex source).errors = []) (b : Grammar.Body)
    (h : Read source b.lexemes) :
    Prints source ([.word Symbol.leftBrace.text] ++
      (Member.allItems (b.trees source.toList) ++ [.word Symbol.rightBrace.text]))
      Grammar.Body.lexemes Grammar.Body.trees Member.unspannedAll b :=
  match b, h with
  | .semicolon semi, _ => by
    rw [Grammar.Body.trees, Member.allItems]
    refine ((spells_symbol .leftBrace).append (spells_symbol .rightBrace)).mono ?_
    rintro s _ ⟨_, _, rfl, ⟨left', rfl⟩, right', rfl⟩
    -- a semicolon comes back as an empty block, which has the same tree
    refine ⟨.braces left' [] right', ?_, ?_⟩
    · rw [Grammar.Body.lexemes, Grammar.Member.allLexemes]
      rfl
    · rw [Grammar.Body.trees, Grammar.Body.trees, Grammar.Member.trees]
  | .braces left members right, h => by
    rw [Grammar.Body.lexemes] at h
    rw [Grammar.Body.trees]
    refine ((spells_symbol .leftBrace).append ((prints_members herrors members h.tail.left).append
      (spells_symbol .rightBrace))).mono ?_
    rintro s _ ⟨_, _, rfl, ⟨left', rfl⟩, _, _, rfl, ⟨members', rfl, hmembers⟩, right', rfl⟩
    refine ⟨.braces left' members' right', ?_, ?_⟩
    · rw [Grammar.Body.lexemes]
      rfl
    · rw [Grammar.Body.trees, Grammar.Body.trees, hmembers]

theorem prints_member (herrors : (lex source).errors = []) (m : Grammar.Member)
    (h : Read source m.lexemes) :
    Prints source (m.tree source.toList).items Grammar.Member.lexemes Grammar.Member.tree
      Member.unspanned m :=
  match m, h with
  | .decl head body, h => by
    rw [Grammar.Member.lexemes] at h
    rw [Grammar.Member.tree, Member.items]
    refine ((prints_head herrors h.left _).append (prints_body herrors body h.right)).mono ?_
    rintro s _ ⟨_, _, rfl, ⟨head', rfl, hhead⟩, body', rfl, hbody⟩
    refine ⟨.decl head' body', ?_, ?_⟩
    · rw [Grammar.Member.lexemes]
    · rw [Grammar.Member.tree, Grammar.Member.tree, Member.unspanned, Member.unspanned, hbody]
      exact congrArg (fun head => Member.nested head _) hhead
  | .method m, h => by
    rw [Grammar.Member.lexemes] at h
    rw [Grammar.Member.tree, Member.items]
    refine (prints_method herrors h).mono ?_
    rintro s _ ⟨m', rfl, hm⟩
    refine ⟨.method m', ?_, ?_⟩
    · rw [Grammar.Member.lexemes]
    · rw [Grammar.Member.tree, Grammar.Member.tree, Member.unspanned, Member.unspanned, hm]

theorem prints_members (herrors : (lex source).errors = []) (ms : List Grammar.Member)
    (h : Read source (Grammar.Member.allLexemes ms)) :
    Prints source (Member.allItems (Grammar.Member.trees source.toList ms))
      Grammar.Member.allLexemes Grammar.Member.trees Member.unspannedAll ms :=
  match ms, h with
  | [], _ => by
    rw [Grammar.Member.trees, Member.allItems]
    refine Spells.nil fun s => ⟨[], ?_, ?_⟩
    · rw [Grammar.Member.allLexemes]
    · rw [Grammar.Member.trees, Grammar.Member.trees]
  | m :: ms, h => by
    rw [Grammar.Member.allLexemes] at h
    rw [Grammar.Member.trees, Member.allItems]
    refine ((prints_member herrors m h.left).append (prints_members herrors ms h.right)).mono ?_
    rintro s _ ⟨_, _, rfl, ⟨m', rfl, hm⟩, ms', rfl, hms⟩
    refine ⟨m' :: ms', ?_, ?_⟩
    · rw [Grammar.Member.allLexemes]
    · rw [Grammar.Member.trees, Grammar.Member.trees, Member.unspannedAll, Member.unspannedAll, hm,
        hms]

end

theorem prints_decl (herrors : (lex source).errors = []) {d : Grammar.Decl}
    (h : Read source d.lexemes) :
    Prints source (d.tree source.toList).items Grammar.Decl.lexemes Grammar.Decl.tree Decl.unspanned
      d := by
  refine ((prints_head herrors h.left _).append (prints_body herrors d.body h.right)).mono ?_
  rintro s _ ⟨_, _, rfl, ⟨head', rfl, hhead⟩, body', rfl, hbody⟩
  exact ⟨⟨head', body'⟩, rfl, congrArg₂ Decl.mk hhead hbody⟩

/-! ## Units -/

theorem prints_nameLine (k : Keyword) {l : Grammar.NameLine} (h : Read source (l.lexemes k)) :
    Prints source ((nameLineWords k (l.name.tree source.toList)).map .word)
      (Grammar.NameLine.lexemes k) (fun s l => l.name.tree s) QualifiedName.unspanned l := by
  refine ((spells_keyword k).append ((prints_qualified h.tail.left).append
    (spells_symbol .semi))).mono ?_
  rintro s _ ⟨_, _, rfl, ⟨word', rfl⟩, _, _, rfl, ⟨name', rfl, hname⟩, semi', rfl⟩
  exact ⟨⟨word', name', semi'⟩, rfl, hname⟩

theorem prints_unit (herrors : (lex source).errors = []) {d : Grammar.Source}
    (h : Read source d.lexemes) :
    Prints source (d.tree source.toList).items Grammar.Source.lexemes Grammar.Source.tree
      CompilationUnit.unspanned d := by
  have hpackage := h.left.left
  have hlines := prints_optional (o := d.package) fun l hl => prints_nameLine .package_ (l := l) <| by
    rw [hl] at hpackage
    exact hpackage
  have himports := prints_flatMap fun l hl =>
    prints_nameLine .import_ (h.left.right.of_mem_flatMap hl)
  have hdecls := prints_flatMap fun x hx => prints_decl herrors (h.right.of_mem_flatMap hx)
  -- a tree without a package line has no words for one
  have hitems : (d.tree source.toList).items =
      (d.package.toList.flatMap fun l => (nameLineWords .package_ (l.name.tree source.toList)).map .word)
        ++ (d.imports.flatMap fun l =>
          (nameLineWords .import_ (l.name.tree source.toList)).map .word) ++
        d.decls.flatMap fun x => (x.tree source.toList).items := by
    cases hd : d.package <;>
      simp [CompilationUnit.items, Grammar.Source.tree, List.map_flatMap, List.flatMap_map, hd]
  rw [hitems]
  refine ((hlines.append himports).append hdecls).mono ?_
  rintro s _ ⟨_, _, rfl, ⟨_, _, rfl, ⟨package', rfl, hpackage'⟩, imports', rfl, himports'⟩, decls', rfl,
    hdecls'⟩
  refine ⟨⟨package', imports', decls'⟩, rfl, ?_⟩
  simp only [CompilationUnit.unspanned, Grammar.Source.tree, CompilationUnit.mk.injEq]
  exact ⟨hpackage', himports', hdecls', trivial⟩

/-- What is wrong with a source that has a tree is what is wrong with its tokens. -/
theorem faults_eq_nil_iff {u : CompilationUnit} (h : (parse source).unit = some u) :
    (parse source).faults = [] ↔ (lex source).errors = [] := by
  obtain ⟨j, q, hrun⟩ := exists_run_of_unit h
  rw [parse_of_run hrun, List.map_eq_nil_iff]

/-- The printed text of a source without faults has no faults, and its tree is the tree of the
    source, up to spans. -/
theorem parse_print {u : CompilationUnit} (hunit : (parse source).unit = some u)
    (hfaults : (parse source).faults = []) :
    ∃ u', (parse u.print).unit = some u' ∧ (parse u.print).faults = [] ∧
      u'.unspanned = u.unspanned := by
  have herrors : (lex source).errors = [] := (faults_eq_nil_iff hunit).mp hfaults
  obtain ⟨d, hd, rfl⟩ := unit_of_parse hunit
  have hread : Read source d.lexemes := by
    unfold Read
    exact hd ▸ List.infix_refl _
  obtain ⟨pairs, hitems, hlexes, hprints⟩ := prints_unit herrors hread
  have hprint : (d.tree source.toList).print = String.ofList (layout (pairs.map Prod.fst)) := by
    rw [CompilationUnit.print, hitems]
  obtain ⟨groups, hgroups, herrors', hattach⟩ := lex_layout hlexes hprint
  obtain ⟨d', hd', htree⟩ := hprints _ groups hgroups
  -- what is left of the lexemes is a derivation, so nothing else is dropped
  rw [hd', Grammar.attach_lexemes] at hattach
  have hunit' := unit_of_lexemes hattach.symm
  exact ⟨_, hunit', (faults_eq_nil_iff hunit').mpr herrors', htree⟩

/-- A documented interface with a method whose documentation is empty. -/
theorem parse_print_documented :
    let source := "/** Greets.\n  *\n  * Twice. */ @A(\"\\n\", a . class) interface I extends B<C[]>\n" ++
      "{ /***/ void m(E[] p); class K; }"
    ∃ u u', (parse source).unit = some u ∧ (parse source).faults = [] ∧
      u.print = "/**\n * Greets.\n * \n * Twice.\n */\n@ A ( \"\\n\" , a . class ) interface I " ++
        "extends B < C [ ] > \x7b\n/**\n */\nvoid m ( E [ ] p ) ; class K \x7b \x7d \x7d" ∧
      (parse u.print).unit = some u' ∧ (parse u.print).faults = [] ∧ u'.unspanned = u.unspanned := by
  intro source
  have hsource : (parse source).unit.map (·.print) = some
      ("/**\n * Greets.\n * \n * Twice.\n */\n@ A ( \"\\n\" , a . class ) interface I " ++
        "extends B < C [ ] > \x7b\n/**\n */\nvoid m ( E [ ] p ) ; class K \x7b \x7d \x7d") ∧
      (parse source).faults = [] := by decide +kernel
  obtain ⟨hprint, hfaults⟩ := hsource
  obtain ⟨u, hunit, hprint⟩ := Option.map_eq_some_iff.mp hprint
  obtain ⟨u', hparse⟩ := parse_print hunit hfaults
  exact ⟨u, u', hunit, hfaults, hprint, hparse⟩

end ActorIdl.Syntax
