import ActorIdl.Proofs.Syntax.Correspondence
import ActorIdl.Proofs.Token.Silencing
/-! # Doc comments do not change what is parsed

    The doc comment of a declaration or method is the one right in front of its first other token,
    if there is one there.  So the attachment of doc comments is a rewriting of the tokens of a
    source that looks at them only to find docs, and a source in which some doc comments are plain
    comments has the derivation of the source with other docs. -/

namespace ActorIdl.Syntax

open DocComment (attach attachAfter endsItem beginsHeader)
open Grammar (Doc Relocation Opening docLexemes)

/-! ## The doc comment in front of a token -/

/-- The doc comment that a lexeme is. -/
def docOf (l : Lexeme) : Option Doc :=
  match l.token with
  | .doc text => some ⟨text, l.span⟩
  | _ => none

/-- The doc comment right in front of a lexeme. -/
def docBefore (raw : List Lexeme) (l : Lexeme) : Option Doc :=
  (raw.takeWhile (· ≠ l)).getLast?.bind docOf

/-- Every declaration and method has the doc comment right in front of it. -/
def documented (raw : List Lexeme) : Relocation := ⟨id, docBefore raw⟩

variable {raw raw' before behind ls : List Lexeme} {l : Lexeme}

theorem docOf_of_not_doc (h : l.token.isDoc = false) : docOf l = none := by
  unfold docOf
  split
  · rename_i text ht
    rw [ht] at h
    cases h
  · rfl

theorem lexeme_of_docOf {d : Doc} (h : docOf l = some d) : d.lexeme = l := by
  unfold docOf at h
  split at h
  · rename_i text ht
    cases h
    exact congrArg (Lexeme.mk · l.span) ht.symm
  · cases h

theorem exists_docOf (h : l.token.isDoc = true) : ∃ d, docOf l = some d := by
  unfold docOf
  split
  · exact ⟨_, rfl⟩
  · rename_i hne
    cases ht : l.token with
    | doc text => exact absurd ht (hne text)
    | _ =>
      rw [ht] at h
      cases h

theorem docBefore_eq (h : l ∉ before) :
    docBefore (before ++ l :: behind) l = before.getLast?.bind docOf := by
  have hall : ∀ m ∈ before, decide (m ≠ l) = true := by
    intro m hm
    refine decide_eq_true ?_
    rintro rfl
    exact h hm
  rw [docBefore, List.takeWhile_append_of_pos hall, List.takeWhile_cons_of_neg (by simp),
    List.append_nil]

/-- The attachment keeps all tokens that are not doc comments. -/
theorem filter_attachAfter (last : Option Token) (ls : List Lexeme) :
    (attachAfter last ls).filter (fun l => !l.token.isDoc) = ls.filter fun l => !l.token.isDoc := by
  fun_induction attachAfter last ls with
  | case1 => rfl
  | case2 last l ls hdrop ih =>
    rw [ih, List.filter_cons_of_neg (by simp [(Bool.and_eq_true_iff.mp hdrop).1])]
  | case3 last l ls _ ih => rw [List.filter_cons, List.filter_cons, ih]

theorem not_mem_of_nodup (h : (before ++ l :: behind).Nodup) : l ∉ before := fun hl =>
  (List.nodup_append.mp h).2.2 l hl l List.mem_cons_self rfl

theorem isDoc_of_beginsHeader {t : Token} (h : beginsHeader (some t) = true) : t.isDoc = false := by
  cases t with
  | doc text => cases h
  | _ => rfl

/-- In front of a lexeme there is what the lexeme before it is. -/
theorem doc_documented (h : (before ++ l :: behind).Nodup) :
    (documented (before ++ l :: behind)).doc l = before.getLast?.bind docOf :=
  docBefore_eq (not_mem_of_nodup h)

theorem not_endsItem_of_isDoc (h : l.token.isDoc = true) : endsItem (some l.token) = false := by
  cases hends : endsItem (some l.token) with
  | false => rfl
  | true =>
    rw [DocComment.not_isDoc_of_endsItem hends] at h
    cases h

/-- The attachment of doc comments puts in front of each declaration and method the doc comment that
    is there. -/
theorem attachAfter_eq_rewrite (before : List Lexeme) {last : Option Token}
    (hnodup : (before ++ ls).Nodup)
    (hplaced : ∀ l ∈ ls.head?, endsItem last = true → beginsHeader (some l.token) = true →
      before.getLast?.bind docOf = none) :
    attachAfter last ls = (documented (before ++ ls)).rewrite last ls := by
  -- on the lexemes; the condition says that no doc comment has been kept in front of the first one
  induction ls generalizing before last with
  | nil => rfl
  | cons l ls ih =>
    have hrest : ∀ {last'}, (∀ t ∈ ls.head?, endsItem last' = true →
        beginsHeader (some t.token) = true → docOf l = none) →
        attachAfter last' ls = (documented (before ++ l :: ls)).rewrite last' ls := by
      intro last' hnone
      rw [List.append_cons] at hnodup ⊢
      refine ih _ hnodup fun t ht hlast hbegins => ?_
      rw [List.getLast?_concat]
      exact hnone t ht hlast hbegins
    cases hdoc : l.token.isDoc with
    | false =>
      rw [DocComment.attachAfter_of_not_doc hdoc, hrest fun _ _ _ _ => docOf_of_not_doc hdoc]
      cases hfirst : endsItem last && beginsHeader (some l.token) with
      | false => rw [Relocation.rewrite_of_plain hdoc hfirst]; rfl
      | true =>
        obtain ⟨hlast, hbegins⟩ := Bool.and_eq_true_iff.mp hfirst
        rw [Relocation.rewrite_of_first hdoc hlast hbegins, doc_documented hnodup,
          hplaced l rfl hlast hbegins]
        rfl
    | true =>
      rw [Relocation.rewrite_of_doc hdoc]
      cases hkept : endsItem last && beginsHeader (ls.head?.map (·.token)) with
      | false =>
        rw [attachAfter, if_pos (by simp [hdoc, hkept])]
        refine hrest fun t ht hlast hbegins => ?_
        rw [ht, hlast] at hkept
        exact absurd hkept (by simp [hbegins])
      | true =>
        obtain ⟨hlast, hbegins⟩ := Bool.and_eq_true_iff.mp hkept
        have hplain := not_endsItem_of_isDoc hdoc
        rw [DocComment.attachAfter_of_placed hlast hbegins, hrest (by simp [hplain])]
        -- what follows a kept doc comment gets no second one, and the rewriting puts this one there
        cases ls with
        | nil => cases hbegins
        | cons t us =>
          have ht := isDoc_of_beginsHeader hbegins
          obtain ⟨d, hd⟩ := exists_docOf hdoc
          have hsome : (documented (before ++ l :: t :: us)).doc t = some d := by
            rw [List.append_cons] at hnodup ⊢
            rw [doc_documented hnodup, List.getLast?_concat]
            exact hd
          rw [Relocation.rewrite_of_first ht hlast hbegins, hsome,
            Relocation.rewrite_of_plain ht (by rw [hplain]; rfl), ← lexeme_of_docOf hd]
          rfl

theorem attach_eq_rewrite (h : raw.Nodup) : attach raw = (documented raw).rewrite none raw :=
  attachAfter_eq_rewrite [] h fun _ _ _ _ => rfl

/-! ## Derivations with the docs of a source -/

/-- Other doc comments among the same tokens leave the derivation as it is but for its docs. -/
theorem lexemes_documented {d : Grammar.Source} (hd : d.lexemes = attach raw) (h : raw'.Nodup)
    (hsame : (raw'.filter fun l => !l.token.isDoc) = raw.filter fun l => !l.token.isDoc) :
    (d.relocate (documented raw')).lexemes = attach raw' := by
  rw [Grammar.lexemes_relocate, hd, attach_eq_rewrite h, ← Relocation.rewrite_filter,
    ← Relocation.rewrite_filter none raw', hsame]
  exact congrArg _ (filter_attachAfter none raw)

/-- In a derivation of a source every doc comment is the one right in front of the first token. -/
theorem doc_of_mem_openings {d : Grammar.Source} (hd : d.lexemes = attach raw) (h : raw.Nodup)
    {o : Opening} (ho : o ∈ d.openings) : o.doc = docBefore raw o.first := by
  have hkept : (documented raw).rewrite none d.lexemes = d.lexemes := by
    rw [← Grammar.lexemes_relocate, lexemes_documented hd h rfl, hd]
  exact congrArg Opening.doc (Grammar.Source.relocate_opening hkept ho).symm

/-- The doc comments at the end of some lexemes. -/
theorem exists_docs (ls : List Lexeme) :
    ∃ before, ∃ docs : List Doc, ls = before ++ docs.map Doc.lexeme ∧
      (∀ l ∈ before.getLast?, l.token.isDoc = false) ∧ ls.getLast?.bind docOf = docs.getLast? := by
  -- from the back, until a token that is no doc comment
  induction ls using List.reverseRecOn with
  | nil => exact ⟨[], [], rfl, fun l hl => (by cases hl), rfl⟩
  | append_singleton ls l ih =>
    rw [List.getLast?_concat]
    cases hdoc : l.token.isDoc with
    | false =>
      refine ⟨ls ++ [l], [], (List.append_nil _).symm, ?_, docOf_of_not_doc hdoc⟩
      rw [List.getLast?_concat]
      rintro _ ⟨⟩
      exact hdoc
    | true =>
      obtain ⟨before, docs, rfl, hbefore, -⟩ := ih
      obtain ⟨d, hd⟩ := exists_docOf hdoc
      refine ⟨before, docs ++ [d], ?_, hbefore, ?_⟩
      · rw [List.map_append, List.map_singleton, lexeme_of_docOf hd, List.append_assoc]
      · rw [List.getLast?_concat]
        exact hd

/-! ## The docs of a unit -/

mutual

/-- The docs of a member and of what is in it, in source order. -/
def Member.docs : Member → List (Option String)
  | .method m => [m.doc]
  | .nested head members => head.doc :: Member.allDocs members

/-- The docs of members. -/
def Member.allDocs : List Member → List (Option String)
  | [] => []
  | m :: ms => m.docs ++ Member.allDocs ms

end

/-- The docs of the declarations and methods of a unit, in source order. -/
def CompilationUnit.docs (u : CompilationUnit) : List (Option String) :=
  u.decls.flatMap fun d => d.head.doc :: Member.allDocs d.members

mutual

theorem docs_body (source : List Char) (b : Grammar.Body) :
    Member.allDocs (b.trees source) = b.openings.map Opening.docText :=
  match b with
  | .semicolon semi => by
    rw [Grammar.Body.trees, Grammar.Body.openings, Member.allDocs, List.map_nil]
  | .braces left members right => by
    rw [Grammar.Body.trees, Grammar.Body.openings, docs_members source members]

theorem docs_member (source : List Char) (m : Grammar.Member) :
    (m.tree source).docs = m.openings.map Opening.docText :=
  match m with
  | .decl head body => by
    rw [Grammar.Member.tree, Grammar.Member.openings, Member.docs, docs_body source body,
      List.map_cons]
    rfl
  | .method m => by
    rw [Grammar.Member.tree, Grammar.Member.openings, Member.docs, List.map_singleton]
    rfl

theorem docs_members (source : List Char) (ms : List Grammar.Member) :
    Member.allDocs (Grammar.Member.trees source ms) =
      (Grammar.Member.allOpenings ms).map Opening.docText :=
  match ms with
  | [] => by
    rw [Grammar.Member.trees, Grammar.Member.allOpenings, Member.allDocs, List.map_nil]
  | m :: ms => by
    rw [Grammar.Member.trees, Grammar.Member.allOpenings, Member.allDocs, docs_member source m,
      docs_members source ms, List.map_append]

end

theorem docs_tree (source : List Char) (d : Grammar.Source) :
    (d.tree source).docs = d.openings.map Opening.docText := by
  rw [CompilationUnit.docs, Grammar.Source.tree, Grammar.Source.openings, List.flatMap_map,
    List.map_flatMap]
  refine List.flatMap_congr fun x _ => ?_
  rw [List.map_cons, ← docs_body source x.body]
  rfl

/-! ## Silenced doc comments -/

variable {source : String} {chosen : Lexeme → Bool}

/-- The places of the arguments of an annotation. -/
def places (a : Grammar.AnnotationUse) : List Span := a.arguments.map fun x => spanOf x.lexemes

/-- What silencing doc comments can change in a unit: the text of an argument with such a comment
    inside, the doc and the start of a declaration or method with such a doc comment, and the start
    of a unit that begins with such a doc comment. -/
def silencing (chosen : Lexeme → Bool) (source : String) : Leeway where
  span := Eq
  args span args args' := ∃ a : Grammar.AnnotationUse,
    Read source a.lexemes ∧ spanOf a.lexemes = span ∧
    args = (places a).map (textAt source.toList) ∧
    args' = (places a).map (textAt (silence chosen source).toList) ∧
    ∀ p ∈ places a, textAt source.toList p ≠ textAt (silence chosen source).toList p →
      ∃ l ∈ (lex source).lexemes, l.token.isDoc = true ∧ chosen l = true ∧
        p.start ≤ l.span.start ∧ l.span.stop ≤ p.stop
  item o o' := o.2.stop = o'.2.stop ∧
    (o = o' ∨ ∃ d : Doc, d.lexeme ∈ (lex source).lexemes ∧ chosen d.lexeme = true ∧
      o.1 = some d.text ∧ o.2.start = d.span.start)
  whole s s' := s.stop = s'.stop ∧
    (s = s' ∨ ∃ d : Doc, d.lexeme ∈ (lex source).lexemes ∧ chosen d.lexeme = true ∧
      s.start = d.span.start)

theorem nodup_lexemes (source : String) : (lex source).lexemes.Nodup :=
  (List.pairwise_map.mp (Lexer.nodup_spans source)).imp fun hne heq => hne (congrArg _ heq)

theorem filter_silence (chosen : Lexeme → Bool) (source : String) :
    ((lex (silence chosen source)).lexemes.filter fun l => !l.token.isDoc) =
      (lex source).lexemes.filter fun l => !l.token.isDoc := by
  rw [lex_silence, Lexing.keep, List.filter_filter]
  refine List.filter_congr fun l _ => ?_
  cases l.token.isDoc <;> rfl

/-- The doc comment in front of a token is the same, or it is one of those that are silenced. -/
theorem docBefore_silence (hl : l ∈ (lex source).lexemes) (hdoc : l.token.isDoc = false) :
    docBefore (lex (silence chosen source)).lexemes l = docBefore (lex source).lexemes l ∨
      ∃ d : Doc, d.lexeme ∈ (lex source).lexemes ∧ chosen d.lexeme = true ∧
        docBefore (lex source).lexemes l = some d := by
  obtain ⟨before, behind, hsplit⟩ := List.append_of_mem hl
  have hmem := not_mem_of_nodup (hsplit ▸ nodup_lexemes source)
  rw [lex_silence, Lexing.keep, hsplit, List.filter_append, List.filter_cons_of_pos (by simp [hdoc]),
    docBefore_eq hmem, docBefore_eq fun hm => hmem (List.mem_of_mem_filter hm)]
  rcases List.eq_nil_or_concat before with rfl | ⟨init, m, rfl⟩
  · exact .inl rfl
  · rw [List.concat_eq_append, List.getLast?_concat, List.filter_append]
    -- the token in front is kept, or it is a doc comment that is silenced
    cases hm : m.token.isDoc && chosen m with
    | false =>
      rw [List.filter_cons_of_pos (by simp [hm]), List.filter_nil, List.getLast?_concat]
      exact .inl rfl
    | true =>
      obtain ⟨hmdoc, hmchosen⟩ := Bool.and_eq_true_iff.mp hm
      obtain ⟨d, hd⟩ := exists_docOf hmdoc
      refine .inr ⟨d, ?_, ?_, hd⟩
      · rw [lexeme_of_docOf hd]
        simp
      · rw [lexeme_of_docOf hd]
        exact hmchosen

/-- The second star of a doc comment is within it. -/
theorem second_lt_stop (hl : l ∈ (lex source).lexemes) (hdoc : l.token.isDoc = true) :
    l.span.start + 2 < l.span.stop := by
  obtain ⟨ls, ms, hls⟩ := List.append_of_mem hl
  obtain ⟨pre, c, ds, rest, -, hspan, hscan, -⟩ := Lexer.exists_piece hls
  obtain ⟨d, hd⟩ := exists_docOf hdoc
  have htoken : l.token = .doc d.text := by rw [← lexeme_of_docOf hd]; rfl
  rw [htoken] at hscan
  obtain ⟨body, -, hbody⟩ := Lexer.exists_of_scan_doc hscan
  rw [hspan, hbody, Lexer.byteLength_blockComment]
  dsimp only
  omega

/-- The text behind the start of a token is the same up to where a star is blanked. -/
theorem exists_second_of_ne (hl : l ∈ (lex source).lexemes) {stop : Nat}
    (hne : textAt source.toList ⟨l.span.start, stop⟩ ≠
      textAt (silence chosen source).toList ⟨l.span.start, stop⟩) :
    ∃ m ∈ (lex source).lexemes, m.token.isDoc = true ∧ chosen m = true ∧
      l.span.start ≤ m.span.start + 2 ∧ m.span.start + 2 < stop := by
  by_contra hnone
  refine hne ?_
  obtain ⟨us, vs, hus⟩ := List.append_of_mem hl
  obtain ⟨pre, c, ds, rest, hsource, hstart, -⟩ := Lexer.exists_piece hus
  rw [hstart, Nat.zero_add] at hnone
  rw [hstart, Nat.zero_add, textAt, textAt, silence, String.toList_ofList, hsource,
    List.append_assoc, Text.slice_blankStars fun n hn hlt => Bool.eq_false_iff.mpr fun hs => ?_]
  obtain ⟨m, hm, hdoc, hchosen, rfl⟩ := silenced_iff.mp hs
  exact hnone ⟨m, hm, hdoc, hchosen, hn, hlt⟩

/-- The text from one token to another is the same unless a doc comment between them is silenced. -/
theorem exists_silenced_of_ne {ls : List Lexeme} (h : Read source (l :: ls))
    (hdoc : Grammar.NoDoc (l :: ls))
    (hne : textAt source.toList (spanOf (l :: ls)) ≠
      textAt (silence chosen source).toList (spanOf (l :: ls))) :
    ∃ m ∈ (lex source).lexemes, m.token.isDoc = true ∧ chosen m = true ∧
      (spanOf (l :: ls)).start ≤ m.span.start ∧ m.span.stop ≤ (spanOf (l :: ls)).stop := by
  -- the first and the last of the tokens
  have hl : l ∈ l :: ls := List.mem_cons_self
  obtain ⟨last, hlast, hspan⟩ :
      ∃ last ∈ l :: ls, spanOf (l :: ls) = ⟨l.span.start, last.span.stop⟩ := by
    refine ⟨ls.getLast?.getD l, ?_, rfl⟩
    cases hls : ls.getLast? with
    | none => exact hl
    | some last => exact List.mem_cons_of_mem _ (List.mem_of_getLast? hls)
  rw [hspan] at hne ⊢
  obtain ⟨m, hm, hmdoc, hchosen, hstart, hstop⟩ := exists_second_of_ne (h.mem_lex hl) hne
  refine ⟨m, hm, hmdoc, hchosen, ?_⟩
  -- the comment is apart from both, and its second star is between them
  have hapart : ∀ t ∈ l :: ls, m.span.stop ≤ t.span.start ∨ t.span.stop ≤ m.span.start := by
    intro t ht
    rcases Lexer.apart_of_mem hm (h.mem_lex ht) with rfl | happart
    · rw [hdoc _ ht] at hmdoc
      cases hmdoc
    · exact happart
  have hsecond := second_lt_stop hm hmdoc
  have hlong := (Lexer.pairwise_lexemes source).2
  have hfirst := hlong _ (h.mem_lex hl)
  have hend := hlong _ (h.mem_lex hlast)
  rcases hapart l hl, hapart last hlast with ⟨h1 | h1, h2 | h2⟩ <;> dsimp only <;> omega

theorem carries_documented :
    Grammar.Carries (documented (lex (silence chosen source)).lexemes) (silencing chosen source)
      source (silence chosen source) where
  spelled l hl hdoc := by
    refine Lexer.isWritten_of_mem ?_
    change l ∈ (lex (silence chosen source)).lexemes
    rw [lex_silence]
    exact List.mem_filter.mpr ⟨hl, by simp [hdoc]⟩
  span ls := congrArg spanOf (List.map_id ls).symm
  args a ha := by
    -- a move that changes no token leaves an argument as it is
    have hsame : ∀ x : Grammar.Argument,
        (x.relocate (documented (lex (silence chosen source)).lexemes)).lexemes = x.lexemes :=
      fun x => (Grammar.map_move_argument x).symm.trans (List.map_id _)
    refine ⟨a, ha, rfl, ?_, ?_, ?_⟩
    · rw [places, List.map_map]
      rfl
    · rw [places, List.map_map]
      exact List.map_congr_left fun x _ => by rw [Grammar.Argument.tree, hsame]; rfl
    · -- the texts differ only by a doc comment between the lexemes of the argument
      intro p hp hne
      obtain ⟨x, hx, rfl⟩ := List.mem_map.mp hp
      have hread := Grammar.AnnotationUse.read_argument ha hx
      have hdoc := (Grammar.inner_argument x).noDoc
      obtain ⟨l, ls, hlexemes, -⟩ := Grammar.begins_argument x
      rw [hlexemes] at hne hread hdoc ⊢
      exact exists_silenced_of_ne hread hdoc hne

theorem isIn_of_mem_openings {d : Grammar.Source} (hd : d.lexemes = attach (lex source).lexemes)
    {o : Opening} (ho : o ∈ d.openings) : o.IsIn (lex source).lexemes :=
  (Grammar.Source.isIn_lexemes ho).mono (hd ▸ (DocComment.attachAfter_sublist none _).subset)

theorem carried_opening {d : Grammar.Source} (hd : d.lexemes = attach (lex source).lexemes)
    {o : Opening} (ho : o ∈ d.openings) :
    o.Carried (documented (lex (silence chosen source)).lexemes) (silencing chosen source) := by
  refine fun last => ⟨rfl, ?_⟩
  have hdoc := doc_of_mem_openings hd (nodup_lexemes source) ho
  have hin := isIn_of_mem_openings hd ho
  rcases docBefore_silence hin.mem (isDoc_of_beginsHeader hin.begins) with
    hsame | ⟨D, hmem, hchosen, hD⟩
  · have hkept : o.relocate (documented (lex (silence chosen source)).lexemes) = o :=
      congrArg (Opening.mk · o.first) (hsame.trans hdoc.symm)
    rw [hkept]
    exact .inl rfl
  · rw [← hdoc] at hD
    refine .inr ⟨D, hmem, hchosen, ?_, ?_⟩
    · show o.docText = _
      rw [Opening.docText, hD]
      rfl
    · show o.start = _
      rw [Opening.start, hD]
      rfl

/-- The span of a source is known from the tokens that are not doc comments and from the doc comment
    in front of the first of them. -/
theorem wholeSpan_attach (h : raw.Nodup) {l e : Lexeme} (text : List Char)
    (hplain : (raw.filter fun l => !l.token.isDoc) = l :: ls) (he : (l :: ls).getLast? = some e) :
    wholeSpan text (attach raw) =
      ⟨Opening.start ⟨if beginsHeader (some l.token) then docBefore raw l else none, l⟩,
        e.span.stop⟩ := by
  have hdoc : Grammar.NoDoc (l :: ls) := fun m hm => by
    rw [← hplain] at hm
    simpa using (List.mem_filter.mp hm).2
  have hspan := Grammar.spanOf_rewrite (r := documented raw) hdoc he
  rw [attach_eq_rewrite h, ← Relocation.rewrite_filter, hplain, wholeSpan_of_ne_nil, hspan]
  · rfl
  · intro hnil
    have hlast := Grammar.getLast?_rewrite (r := documented raw) hdoc none
    rw [hnil, he] at hlast
    cases hlast

/-- The span of a source changes only if its first token is a doc comment that is silenced. -/
theorem whole_silence (source : String) (chosen : Lexeme → Bool) :
    (silencing chosen source).whole (wholeSpan source.toList (attach (lex source).lexemes))
      (wholeSpan (silence chosen source).toList (attach (lex (silence chosen source)).lexemes)) := by
  have hsame := filter_silence chosen source
  cases hplain : (lex source).lexemes.filter fun l => !l.token.isDoc with
  | nil =>
    -- nothing is left of either source, and both end at the same place
    have hnil : ∀ {raw : List Lexeme}, raw.Nodup → (raw.filter fun l => !l.token.isDoc) = [] →
        attach raw = [] := by
      intro raw hraw hfilter
      rw [attach_eq_rewrite hraw, ← Relocation.rewrite_filter, hfilter]
      rfl
    rw [hnil (nodup_lexemes source) hplain, hnil (nodup_lexemes _) (hsame.trans hplain), silence,
      String.toList_ofList, wholeSpan, wholeSpan, Text.byteLength_blankStars]
    exact ⟨rfl, .inl rfl⟩
  | cons l ls =>
    obtain ⟨e, he⟩ : ∃ e, (l :: ls).getLast? = some e := ⟨_, List.getLast?_cons⟩
    rw [wholeSpan_attach (nodup_lexemes source) _ hplain he,
      wholeSpan_attach (nodup_lexemes _) _ (hsame.trans hplain) he]
    refine ⟨rfl, ?_⟩
    obtain ⟨hl, hdoc⟩ := List.mem_filter.mp (hplain ▸ List.mem_cons_self : l ∈ _)
    cases beginsHeader (some l.token) with
    | false => exact .inl rfl
    | true =>
      have hnodoc : l.token.isDoc = false := by simpa using hdoc
      rcases @docBefore_silence l source chosen hl hnodoc with hkept | ⟨d, hd, hchosen, hbefore⟩
      · rw [hkept]
        exact .inl rfl
      · rw [hbefore]
        exact .inr ⟨d, hd, hchosen, rfl⟩

/-- Making doc comments of a source plain comments changes neither whether the source has a unit nor
    anything in the unit but the docs and the starts of declarations and methods whose doc comment
    is one of them, the start of the unit if one of them is its first token, and the text of
    arguments with one of them inside.  And in the unit of a source the doc of every declaration and
    method is the text of the last doc comment between its first other token and the token before
    that, and absent if there is no doc comment. -/
theorem parse_silence (source : String) (chosen : Lexeme → Bool) :
    Option.Rel (CompilationUnit.Like (silencing chosen source)) (parse source).unit
        (parse (silence chosen source)).unit ∧
      ∀ u ∈ (parse source).unit, ∃ d : Grammar.Source,
        d.lexemes = attach (lex source).lexemes ∧ d.tree source.toList = u ∧
        u.docs = d.openings.map Opening.docText ∧
        ∀ o ∈ d.openings, ∃ before, ∃ docs : List Doc, ∃ behind,
          (lex source).lexemes = before ++ docs.map Doc.lexeme ++ o.first :: behind ∧
          (∀ l ∈ before.getLast?, l.token.isDoc = false) ∧ o.doc = docs.getLast? := by
  refine ⟨?_, fun u hu => ?_⟩
  · cases hu : (parse source).unit with
    | some u =>
      obtain ⟨d, hd, rfl⟩ := unit_of_parse hu
      have hsilenced := lexemes_documented hd (nodup_lexemes _) (filter_silence chosen source)
      rw [unit_of_lexemes hsilenced]
      refine .some (carries_documented.like_tree ?_ (fun o ho => carried_opening hd ho) ?_)
      · unfold Read
        exact hd ▸ List.infix_refl _
      · rw [hd, hsilenced]
        exact whole_silence source chosen
    | none =>
      cases hv : (parse (silence chosen source)).unit with
      | none => exact .none
      | some v =>
        -- the derivation with the doc comments put back would be one of the source
        obtain ⟨d, hd, -⟩ := unit_of_parse hv
        obtain ⟨u, hu'⟩ := exists_unit_of_lexemes
          (lexemes_documented hd (nodup_lexemes source) (filter_silence chosen source).symm)
        rw [hu] at hu'
        cases hu'
  · obtain ⟨d, hd, rfl⟩ := unit_of_parse hu
    refine ⟨d, hd, rfl, docs_tree _ d, fun o ho => ?_⟩
    obtain ⟨ls, behind, hsplit⟩ := List.append_of_mem (isIn_of_mem_openings hd ho).mem
    obtain ⟨before, docs, rfl, hbefore, hdocs⟩ := exists_docs ls
    refine ⟨before, docs, behind, hsplit, hbefore, ?_⟩
    rw [doc_of_mem_openings hd (nodup_lexemes source) ho, hsplit,
      docBefore_eq (not_mem_of_nodup (hsplit ▸ nodup_lexemes source)), hdocs]

/-- A documented class whose annotation has an argument with a doc comment inside. -/
theorem parse_silence_documented :
    let source := "/** a */ @A(x/** b */.y) class C;"
    let plain := silence (fun _ => true) source
    (parse source).unit.map (·.docs) = some [some "a"] ∧
      (parse plain).unit.map (·.docs) = some [none] ∧
      ((parse plain).unit.map fun u => u.decls.flatMap fun d => d.head.annotations.flatMap (·.args)) =
        some ["x/*  b */.y"] ∧
      Option.Rel (CompilationUnit.Like (silencing (fun _ => true) source)) (parse source).unit
        (parse plain).unit := by
  intro source plain
  have hsource : (parse source).unit.map (·.docs) = some [some "a"] := by decide +kernel
  have hplain : (parse plain).unit.map (·.docs) = some [none] ∧
      ((parse plain).unit.map fun u =>
        u.decls.flatMap fun d => d.head.annotations.flatMap (·.args)) = some ["x/*  b */.y"] := by
    have hparse : parse plain = parseChars _ := parse_eq_parseChars rfl
    rw [hparse]
    decide +kernel
  exact ⟨hsource, hplain.1, hplain.2, (parse_silence source fun _ => true).1⟩

/-- The start of a class whose doc comment is silenced moves even if its doc does not change:
    another doc comment with the same text stands before.  With it moves the start of the unit,
    which begins with the class. -/
theorem starts_ne_of_silence :
    let source := "/** a */ /** a */ class C;"
    let plain := silence (fun l => l.span.start == 9) source
    plain = "/** a */ /*  a */ class C;" ∧ (parse source).unit.map (·.docs) = some [some "a"] ∧
      (parse plain).unit.map (·.docs) = some [some "a"] ∧
      ((parse source).unit.map fun u => u.decls.map (·.head.span.start)) = some [9] ∧
      ((parse plain).unit.map fun u => u.decls.map (·.head.span.start)) = some [0] ∧
      (parse source).unit.map (·.span) = some ⟨9, 26⟩ ∧
      (parse plain).unit.map (·.span) = some ⟨0, 26⟩ := by
  intro source plain
  have htext : plain = "/** a */ /*  a */ class C;" := by decide +kernel
  have hsource : (parse source).unit.map (·.docs) = some [some "a"] ∧
      ((parse source).unit.map fun u => u.decls.map (·.head.span.start)) = some [9] ∧
      (parse source).unit.map (·.span) = some ⟨9, 26⟩ := by
    decide +kernel
  have hplain : (parse plain).unit.map (·.docs) = some [some "a"] ∧
      ((parse plain).unit.map fun u => u.decls.map (·.head.span.start)) = some [0] ∧
      (parse plain).unit.map (·.span) = some ⟨0, 26⟩ := by
    rw [htext]
    decide +kernel
  exact ⟨htext, hsource.1, hplain.1, hsource.2.1, hplain.2.1, hsource.2.2, hplain.2.2⟩

end ActorIdl.Syntax
