import ActorIdl.Proofs.Syntax.Layout
import ActorIdl.Proofs.Syntax.Sentences
/-! # Spelling the parts of a source again

    The names, arguments and doc comments in the tree of a source are texts that the lexer has cut
    into tokens.  Printed as items they are cut into the same tokens again, so they stand for the
    same parts of a tree.

    The text of an argument can have doc comments in it.  They are not in the derivation, so the
    run of tokens is looked up in front of the attachment of doc comments. -/

namespace ActorIdl

open Syntax.Grammar (NoDoc noDoc_cons Inner inner_cons)

/-! ## Runs of lexemes in front of the attachment -/

namespace DocComment

variable {last : Option Token} {l : Lexeme} {raw ls ms : List Lexeme}

/-- In front of a lexeme that is kept there are doc comments that are dropped. -/
theorem exists_of_attachAfter_cons (h : attachAfter last raw = l :: ls) :
    ∃ docs raw', raw = docs ++ l :: raw' ∧ (∀ d ∈ docs, d.token.isDoc = true) ∧
      attachAfter (some l.token) raw' = ls := by
  fun_induction attachAfter last raw with
  | case1 => cases h
  | case2 last d raw hdrop ih =>
    obtain ⟨docs, raw', rfl, hdocs, hls⟩ := ih h
    have hd : d.token.isDoc = true := (Bool.and_eq_true_iff.mp hdrop).1
    exact ⟨d :: docs, raw', rfl, List.forall_mem_cons.mpr ⟨hd, hdocs⟩, hls⟩
  | case3 last l' raw _ ih =>
    obtain ⟨rfl, hls⟩ := List.cons.inj h
    exact ⟨[], raw, rfl, fun d hd => absurd hd List.not_mem_nil, hls⟩

theorem exists_of_attachAfter_append (h : attachAfter last raw = ls ++ ms) :
    ∃ before raw' last', raw = before ++ raw' ∧ attachAfter last' raw' = ms := by
  induction ls generalizing last raw with
  | nil => exact ⟨[], raw, last, rfl, h⟩
  | cons l ls ih =>
    obtain ⟨docs, raw', rfl, -, hls⟩ := exists_of_attachAfter_cons h
    obtain ⟨before, raw'', last', rfl, hms⟩ := ih hls
    exact ⟨docs ++ l :: before, raw'', last', by simp, hms⟩

/-- Lexemes that are kept with no doc comment among them are a run up to the last of them, less the
    doc comments. -/
theorem exists_run_of_attachAfter (h : attachAfter last raw = ls ++ ms) (hls : NoDoc ls) :
    ∃ run raw', raw = run ++ raw' ∧ run.filter (fun l => !l.token.isDoc) = ls ∧
      run.getLast? = ls.getLast? := by
  -- on the lexemes that are kept: each brings the doc comments in front of it into the run
  induction ls generalizing last raw with
  | nil => exact ⟨[], raw, rfl, rfl, rfl⟩
  | cons l ls ih =>
    obtain ⟨hl, hls⟩ := noDoc_cons.mp hls
    obtain ⟨docs, raw', rfl, hdocs, hrest⟩ := exists_of_attachAfter_cons h
    obtain ⟨run, raw'', rfl, hrun, hlast⟩ := ih hrest hls
    refine ⟨docs ++ l :: run, raw'', by simp, ?_, ?_⟩
    · rw [List.filter_append, List.filter_eq_nil_iff.mpr fun d hd => by simp [hdocs d hd],
        List.filter_cons_of_pos (by simp [hl]), hrun, List.nil_append]
    · rw [List.getLast?_append_cons, List.getLast?_cons, List.getLast?_cons, hlast]

theorem exists_run (h : l :: ls <:+: attach raw) (hls : NoDoc ls) :
    ∃ before run behind, raw = before ++ l :: (run ++ behind) ∧
      run.filter (fun l => !l.token.isDoc) = ls ∧ run.getLast? = ls.getLast? := by
  obtain ⟨before, behind, hall⟩ := h
  rw [List.append_assoc, List.cons_append] at hall
  obtain ⟨before', raw', last', rfl, hraw⟩ := exists_of_attachAfter_append hall.symm
  obtain ⟨docs, raw'', rfl, -, hrest⟩ := exists_of_attachAfter_cons hraw
  obtain ⟨run, behind', rfl, hrun, hlast⟩ := exists_run_of_attachAfter hrest hls
  exact ⟨before' ++ docs, run, behind', by simp, hrun, hlast⟩

end DocComment

/-- The text of a doc comment in a source. -/
theorem Lexer.isDocText_of_mem {pos : Nat} {cs : List Char} {text : String} {span : Span}
    (h : (⟨.doc text, span⟩ : Lexeme) ∈ (lexFrom pos cs).lexemes) :
    DocComment.IsDocText text.toList := by
  obtain ⟨before, behind, hmem⟩ := List.append_of_mem h
  obtain ⟨pre, c, ds, rest, -, -, hscan, -⟩ := exists_piece hmem
  obtain ⟨body, hbody, rfl⟩ := (finds_of_scan hscan fun e he => by cases he).exists_doc
  rw [String.toList_ofList]
  exact DocComment.isDocText_clean (commentBody_eq_some hbody).1.tail

namespace Syntax

open Grammar (Ident Segment Qualified Argument Doc mark word Listed)

/-! ## What is read of a source -/

/-- The lexemes are among those that the parser gets of a source, one behind the other. -/
def Read (source : String) (ls : List Lexeme) : Prop :=
  ls <:+: DocComment.attach (lex source).lexemes

variable {source : String} {s : List Char} {l : Lexeme} {ls ms : List Lexeme}

namespace Read

theorem left (h : Read source (ls ++ ms)) : Read source ls :=
  (List.prefix_append ls ms).isInfix.trans h

theorem right (h : Read source (ls ++ ms)) : Read source ms :=
  (List.suffix_append ls ms).isInfix.trans h

theorem head (h : Read source (l :: ls)) : Read source [l] := left h

theorem tail (h : Read source (l :: ls)) : Read source ls := (List.suffix_cons l ls).isInfix.trans h

theorem of_mem_flatMap {α : Type} {lexemes : α → List Lexeme} {as : List α}
    (h : Read source (as.flatMap lexemes)) {a : α} (ha : a ∈ as) : Read source (lexemes a) := by
  obtain ⟨before, behind, rfl⟩ := List.append_of_mem ha
  rw [List.flatMap_append, List.flatMap_cons] at h
  exact h.right.left

theorem of_mem_listed {α : Type} {lexemes : α → List Lexeme} {x : Listed α}
    (h : Read source (x.lexemes lexemes)) {a : α} (ha : a ∈ x.items) : Read source (lexemes a) := by
  rcases List.mem_cons.mp ha with rfl | ha
  · exact h.left
  · obtain ⟨item, hitem, rfl⟩ := List.mem_map.mp ha
    exact (h.right.of_mem_flatMap hitem).tail

theorem spelled (h : Read source ls) (hl : l ∈ ls) : Spelled source.toList l :=
  spelled_of_mem_attach (h.subset hl)

theorem mem_lex (h : Read source ls) (hl : l ∈ ls) : l ∈ (lex source).lexemes :=
  (DocComment.attachAfter_sublist none _).subset (h.subset hl)

theorem wellShaped (h : Read source ls) (hl : l ∈ ls) : l.token.WellShaped :=
  Lexer.wellShaped_lexFrom 0 _ l (h.mem_lex hl)

/-- The text from the first of some lexemes to the last is cut into the run of them in every
    place. -/
theorem exists_cut (herrors : (lex source).errors = []) (h : Read source (l :: ls))
    (hls : NoDoc ls) :
    ∃ run, run.filter (fun l => !l.token.isDoc) = ls ∧ run.getLast? = ls.getLast? ∧
      Lexer.CutsInto (textAt source.toList (spanOf (l :: ls))).toList
        ((l :: run).map (·.token)) := by
  obtain ⟨before, run, behind, hraw, hrun, hlast⟩ := DocComment.exists_run h hls
  obtain ⟨pre, w, rest, hsource, hspan, hcuts⟩ := Lexer.cutsInto_of_lexemes hraw herrors
  refine ⟨run, hrun, hlast, ?_⟩
  have hsame : spanOf (l :: ls) = spanOf (l :: run) := by rw [spanOf, spanOf, hlast]
  rw [hsame, hspan, textAt, hsource, Nat.zero_add, Text.slice_append, String.toList_ofList]
  exact hcuts

end Read

/-! ## Items that are one token -/

/-- The items of a part of a source are lexed into the lexemes of such a part, with the same tree
    up to what is forgotten. -/
abbrev Prints {δ σ τ : Type} (source : String) (items : List Item) (lexemes : δ → List Lexeme)
    (tree : List Char → δ → σ) (forget : σ → τ) (x : δ) : Prop :=
  Spells items fun s ls => ∃ x', ls = lexemes x' ∧ forget (tree s x') = forget (tree source.toList x)

theorem spells_token {item : Item} {t : Token} (h : Lexer.CutsInto item.chars [t]) :
    Spells [item] fun s ls => ∃ span, ls = [⟨t, span⟩] ∧ Spelled s ⟨t, span⟩ := by
  refine Spells.single ⟨h, .inl ⟨t, rfl⟩⟩ fun s ls hstands => ?_
  obtain ⟨⟨t, span⟩, rfl, rfl⟩ := List.map_eq_singleton_iff.mp hstands.tokens
  exact ⟨span, rfl, hstands.spelled _ List.mem_cons_self⟩

theorem spells_symbol (x : Symbol) :
    Spells [.word x.text] fun _ ls => ∃ span, ls = [mark x span] := by
  have hcuts : Lexer.CutsInto (Item.word x.text).chars [.symbol x] := by
    rw [Item.chars, Symbol.text, String.toList_singleton]
    exact Lexer.cutsInto_symbol x
  exact (spells_token hcuts).mono fun _ _ h => h.imp fun _ h => h.1

theorem spells_keyword (k : Keyword) :
    Spells [.word k.text] fun _ ls => ∃ span, ls = [word k span] := by
  have hcuts : Lexer.CutsInto (Item.word k.text).chars [.keyword k] := Lexer.cutsInto_keyword k
  exact (spells_token hcuts).mono fun _ _ h => h.imp fun _ h => h.1

theorem spells_doc {text : String} (h : DocComment.IsDocText text.toList) :
    Spells [.doc text] fun _ ls => ∃ span, ls = [⟨.doc text, span⟩] := by
  have hcuts : Lexer.CutsInto (Item.doc text).chars [.doc text] := by
    have hwritten := DocComment.cutsInto_written h
    rwa [String.ofList_toList] at hwritten
  exact (spells_token hcuts).mono fun _ _ h => h.imp fun _ h => h.1

/-! ## Names -/

/-- An identifier is written as in its token. -/
theorem exists_ident {x : Ident} (htoken : l.token = x.lexeme.token) (hs : Spelled s l)
    (hx : Spelled source.toList x.lexeme) :
    ∃ x' : Ident, l = x'.lexeme ∧ (x'.tree s).unspanned = (x.tree source.toList).unspanned := by
  obtain ⟨token, span⟩ := l
  obtain rfl : token = .ident x.name := htoken
  have htext : textAt s span = textAt source.toList x.span := Eq.trans (Eq.symm hs) hx
  exact ⟨⟨x.name, span⟩, rfl, congrArg (fun text => Name.mk text ⟨0, 0⟩) htext⟩

theorem exists_segment {x : Segment} (htoken : l.token = x.lexeme.token) (hs : Spelled s l)
    (hx : Spelled source.toList x.lexeme) :
    ∃ x' : Segment, l = x'.lexeme ∧ (x'.tree s).unspanned = (x.tree source.toList).unspanned := by
  cases x with
  | ident x =>
    obtain ⟨x', rfl, htree⟩ := exists_ident htoken hs hx
    exact ⟨.ident x', rfl, htree⟩
  | keyword k span =>
    obtain ⟨token, span'⟩ := l
    obtain rfl : token = .keyword k := htoken
    have htext : textAt s span' = textAt source.toList span := Eq.trans (Eq.symm hs) hx
    exact ⟨.keyword k span', rfl, congrArg (fun text => Name.mk text ⟨0, 0⟩) htext⟩

/-- Lexemes with the tokens of the rest of a name are the rest of a name. -/
theorem exists_dotted {tail : List (Span × Segment)}
    (htokens : ls.map (·.token) =
      (tail.flatMap fun x => [mark .dot x.1, x.2.lexeme]).map (·.token))
    (hs : ∀ l ∈ ls, Spelled s l)
    (htail : ∀ x ∈ tail, Spelled source.toList x.2.lexeme) :
    ∃ tail' : List (Span × Segment),
      ls = tail'.flatMap (fun x => [mark .dot x.1, x.2.lexeme]) ∧
      tail'.map (fun x => (x.2.tree s).unspanned) =
        tail.map fun x => (x.2.tree source.toList).unspanned := by
  induction tail generalizing ls with
  | nil => exact ⟨[], List.map_eq_nil_iff.mp htokens, rfl⟩
  | cons x tail ih =>
    obtain ⟨hx, htail⟩ := List.forall_mem_cons.mp htail
    obtain ⟨⟨token, span⟩, ls, rfl, hdot, hrest⟩ := List.map_eq_cons_iff.mp htokens
    obtain rfl : token = .symbol .dot := hdot
    obtain ⟨l, ls, rfl, hl, hmore⟩ := List.map_eq_cons_iff.mp hrest
    obtain ⟨hl', hs'⟩ := List.forall_mem_cons.mp (List.forall_mem_cons.mp hs).2
    obtain ⟨x', rfl, hx⟩ := exists_segment hl hl' hx
    obtain ⟨tail', rfl, hmap⟩ := ih hmore hs' htail
    refine ⟨(span, x') :: tail', rfl, ?_⟩
    rw [List.map_cons, List.map_cons, hx, hmap]

/-- Lexemes with the tokens of a name are a name. -/
theorem exists_qualified {q : Qualified} (htokens : ls.map (·.token) = q.lexemes.map (·.token))
    (hs : ∀ l ∈ ls, Spelled s l) (hq : ∀ l ∈ q.lexemes, Spelled source.toList l) :
    ∃ q' : Qualified, ls = q'.lexemes ∧
      (q'.tree s).unspanned = (q.tree source.toList).unspanned := by
  obtain ⟨hhead, htail⟩ := List.forall_mem_cons.mp hq
  obtain ⟨l, ls, rfl, hl, hrest⟩ := List.map_eq_cons_iff.mp htokens
  obtain ⟨hl', hs'⟩ := List.forall_mem_cons.mp hs
  obtain ⟨head', rfl, hhead⟩ := exists_ident hl hl' hhead
  obtain ⟨tail', rfl, hmap⟩ := exists_dotted hrest hs' fun x hx => htail _ <|
    List.mem_flatMap.mpr ⟨x, hx, List.mem_cons_of_mem _ List.mem_cons_self⟩
  refine ⟨⟨head', tail'⟩, rfl, ?_⟩
  rw [QualifiedName.unspanned, QualifiedName.unspanned, Qualified.tree, Qualified.tree, hhead,
    List.map_map, List.map_map]
  exact congrArg (fun names => QualifiedName.mk _ names _) hmap

/-- What a segment says. -/
theorem text_segment {x : Segment} (hshape : x.lexeme.token.WellShaped)
    (hx : Spelled source.toList x.lexeme) :
    IsWord (x.tree source.toList).text ∧
      x.lexeme.token = Lexer.word (x.tree source.toList).text := by
  cases x with
  | ident x =>
    have htext : x.name = (x.tree source.toList).text := hx
    show IsWord (x.tree source.toList).text ∧ _ = Lexer.word (x.tree source.toList).text
    rw [← htext]
    exact ⟨hshape.1, (Lexer.word_of_isIdent hshape).symm⟩
  | keyword k span =>
    have htext : k.text = textAt source.toList span := hx
    show IsWord (textAt source.toList span) ∧ _ = Lexer.word (textAt source.toList span)
    rw [← htext, Lexer.word, k.ofText?_text]
    exact ⟨k.isWord, rfl⟩

theorem Read.ident {x : Ident} (h : Read source ls) (hx : x.lexeme ∈ ls) :
    IsIdent x.name ∧ (x.tree source.toList).text = x.name :=
  ⟨h.wellShaped hx, (h.spelled hx).symm⟩

theorem prints_ident {x : Ident} (h : Read source ls) (hx : x.lexeme ∈ ls) :
    Prints source [.word (x.tree source.toList).text] (fun x : Ident => [x.lexeme]) Ident.tree
      Name.unspanned x := by
  obtain ⟨hident, htext⟩ := h.ident hx
  have hcuts : Lexer.CutsInto (Item.word (x.tree source.toList).text).chars [x.lexeme.token] := by
    rw [htext]
    exact Lexer.cutsInto_ident hident
  refine (spells_token hcuts).mono ?_
  rintro s _ ⟨span, rfl, hspelled⟩
  obtain ⟨x', hx', htree⟩ := exists_ident (l := ⟨x.lexeme.token, span⟩) rfl hspelled
    (h.spelled hx)
  exact ⟨x', congrArg (fun l => [l]) hx', htree⟩

/-- A name is written as it is printed. -/
theorem cutsInto_qualified {q : Qualified} (h : Read source q.lexemes) :
    Lexer.CutsInto (q.tree source.toList).dotted.toList (q.lexemes.map (·.token)) := by
  obtain ⟨hhead, htext⟩ := h.ident List.mem_cons_self
  have hsegment : ∀ x ∈ q.tail, x.2.lexeme ∈ q.lexemes := fun x hx => List.mem_cons_of_mem _ <|
    List.mem_flatMap.mpr ⟨x, hx, List.mem_cons_of_mem _ List.mem_cons_self⟩
  have hword : ∀ x ∈ q.tail, IsWord (x.2.tree source.toList).text ∧
      x.2.lexeme.token = Lexer.word (x.2.tree source.toList).text :=
    fun x hx => text_segment (h.wellShaped (hsegment x hx)) (h.spelled (hsegment x hx))
  have hwords : ∀ w ∈ q.tail.map fun x => (x.2.tree source.toList).text, IsWord w :=
    List.forall_mem_map.mpr fun x hx => (hword x hx).1
  have hcuts := Lexer.cutsInto_dotted hhead hwords
  have htokens : q.lexemes.map (·.token) =
      Lexer.dottedTokens q.head.name (q.tail.map fun x => (x.2.tree source.toList).text) := by
    rw [Qualified.lexemes, List.map_cons, List.map_flatMap, Lexer.dottedTokens, List.flatMap_map]
    refine congrArg (List.cons _) (List.flatMap_congr fun x hx => ?_)
    rw [← (hword x hx).2]
    rfl
  rw [htokens]
  rw [← htext] at hcuts ⊢
  rw [QualifiedName.dotted, QualifiedName.segments, List.map_cons, Qualified.tree, List.map_map]
  exact hcuts

/-! ## Items that are runs of tokens -/

/-- A run of tokens that no declaration or method can begin behind. -/
theorem tame_run {run : List Lexeme} (hrun : run.filter (fun l => !l.token.isDoc) = ls)
    (hinner : Inner (l :: ls)) : Tame ((l :: run).map (·.token)) := by
  obtain ⟨⟨hdoc, hends⟩, hls⟩ := inner_cons.mp hinner
  refine .inr ⟨l.token, run.map (·.token), rfl, hdoc, ?_⟩
  refine List.forall_mem_map.mpr (List.forall_mem_cons.mpr ⟨hends, fun m hm => ?_⟩)
  cases hm' : m.token with
  | doc text => rfl
  | _ =>
    rw [← hm']
    refine (hls m ?_).2
    rw [← hrun]
    exact List.mem_filter.mpr ⟨hm, by rw [hm']; rfl⟩

/-- What is left of the lexemes of an item. -/
theorem map_strip {run : List Lexeme} (h : ms.map (·.token) = (l :: run).map (·.token)) :
    (strip ms).map (·.token) =
      (l :: run.filter fun l => !l.token.isDoc).map (·.token) := by
  obtain ⟨m, ms, rfl, hm, hrest⟩ := List.map_eq_cons_iff.mp h
  have hfilter : ∀ ls : List Lexeme, (ls.filter fun l => !l.token.isDoc).map (·.token) =
      (ls.map (·.token)).filter fun t => !t.isDoc := fun ls => by rw [List.filter_map]; rfl
  rw [strip, List.map_cons, List.map_cons, hfilter, hfilter, hrest, hm]

theorem mem_of_mem_strip (h : l ∈ strip ls) : l ∈ ls := by
  cases ls with
  | nil => cases h
  | cons m ls =>
    rcases List.mem_cons.mp h with rfl | h
    · exact List.mem_cons_self
    · exact List.mem_cons_of_mem _ (List.mem_of_mem_filter h)

theorem prints_qualified {q : Qualified} (h : Read source q.lexemes) :
    Prints source [.word (q.tree source.toList).dotted] Qualified.lexemes Qualified.tree
      QualifiedName.unspanned q := by
  have hfilter : (q.lexemes.tail.filter fun l => !l.token.isDoc) = q.lexemes.tail :=
    List.filter_eq_self.mpr fun l hl => by
      rw [(Grammar.inner_qualified q).noDoc l (List.mem_of_mem_tail hl)]
      rfl
  refine Spells.single ⟨cutsInto_qualified h, tame_run hfilter (Grammar.inner_qualified q)⟩ ?_
  intro s ls hstands
  have htokens : (strip ls).map (·.token) =
      (q.head.lexeme :: q.lexemes.tail.filter fun l => !l.token.isDoc).map (·.token) :=
    map_strip hstands.tokens
  rw [hfilter] at htokens
  exact exists_qualified htokens (fun l hl => hstands.spelled l (mem_of_mem_strip hl))
    fun l hl => h.spelled hl

/-- The span of an item that ends with its last token. -/
theorem spanOf_strip (h : ∀ l ∈ ls.getLast?, l.token.isDoc = false) :
    spanOf (strip ls) = spanOf ls := by
  cases ls with
  | nil => rfl
  | cons l ls =>
    rcases List.eq_nil_or_concat ls with rfl | ⟨ls, m, rfl⟩
    · rfl
    · have hm : m.token.isDoc = false := h m (by
        rw [List.concat_eq_append, ← List.cons_append, List.getLast?_concat]
        rfl)
      rw [strip, spanOf, spanOf, List.concat_eq_append, List.filter_append,
        List.filter_cons_of_pos (by simp [hm]), List.filter_nil, List.getLast?_concat,
        List.getLast?_concat]

/-- Lexemes with the tokens of an argument are an argument. -/
theorem exists_argument {a : Argument} (htokens : ls.map (·.token) = a.lexemes.map (·.token))
    (hs : ∀ l ∈ ls, Spelled s l) (ha : ∀ l ∈ a.lexemes, Spelled source.toList l) :
    ∃ a' : Argument, ls = a'.lexemes := by
  cases a with
  | string value span =>
    obtain ⟨⟨token, span'⟩, rfl, rfl⟩ := List.map_eq_singleton_iff.mp htokens
    exact ⟨.string value span', rfl⟩
  | number text span =>
    obtain ⟨⟨token, span'⟩, rfl, rfl⟩ := List.map_eq_singleton_iff.mp htokens
    exact ⟨.number text span', rfl⟩
  | name q =>
    obtain ⟨q', rfl, -⟩ := exists_qualified htokens hs ha
    exact ⟨.name q', rfl⟩

theorem prints_argument (herrors : (lex source).errors = []) {a : Argument}
    (h : Read source a.lexemes) :
    Prints source [.word (a.tree source.toList)] Argument.lexemes Argument.tree id a := by
  obtain ⟨l, ls, hlexemes, -⟩ := Grammar.begins_argument a
  have hinner := Grammar.inner_argument a
  have hcut := h
  rw [hlexemes] at hinner hcut
  have hno := hinner.noDoc
  obtain ⟨-, hls⟩ := noDoc_cons.mp hno
  -- the text is cut into a run with the doc comments that were dropped between its tokens
  obtain ⟨run, hrun, hlast, hcuts⟩ := hcut.exists_cut herrors hls
  rw [← hlexemes] at hcuts
  refine Spells.single ⟨hcuts, tame_run hrun hinner⟩ fun s ms hstands => ?_
  have htokens := map_strip hstands.tokens
  rw [hrun, ← hlexemes] at htokens
  obtain ⟨a', ha'⟩ := exists_argument htokens
    (fun l hl => hstands.spelled l (mem_of_mem_strip hl)) fun l hl => h.spelled hl
  refine ⟨a', ha', ?_⟩
  have hend : ∀ m ∈ ms.getLast?, m.token.isDoc = false := by
    intro m hm
    -- the last token of the run is the last token of the argument
    have hlast' : (ms.map (·.token)).getLast? = ((l :: ls).map (·.token)).getLast? := by
      rw [hstands.tokens, List.getLast?_map, List.getLast?_map, List.getLast?_cons,
        List.getLast?_cons, hlast]
    rw [List.getLast?_map, List.getLast?_map, hm] at hlast'
    obtain ⟨m', hm', heq⟩ := Option.map_eq_some_iff.mp hlast'.symm
    rw [show m.token = m'.token from heq.symm]
    exact hno m' (List.mem_of_getLast? hm')
  rw [id, Argument.tree, ← ha', spanOf_strip hend, hstands.text]
  exact String.ofList_toList

end Syntax

end ActorIdl
