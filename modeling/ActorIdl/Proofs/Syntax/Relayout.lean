import ActorIdl.Proofs.Syntax.Correspondence
import ActorIdl.Proofs.Token.Spacing
import ActorIdl.Proofs.Token.Tiling
/-! # Parsing two layouts of the same tokens

    What separates the tokens of a source does not matter to the parser: two layouts of one list of
    tokens have both a unit or both none, and the units are the same up to spans and up to what
    separates the tokens of an annotation's argument, because arguments are kept as written. -/

namespace ActorIdl

open Text (byteLength)

namespace SpacedText

variable {x y : SpacedText} {pos : Nat}

/-! ## Runs of tokens -/

/-- The text from the first token to the last. -/
def inner : List (Token × List Char) → List Char
  | [] => []
  | [(t, _)] => t.spelling
  | (t, gap) :: next :: items => t.spelling ++ gap ++ inner (next :: items)

theorem exists_written {items : List (Token × List Char)} (h : items ≠ []) :
    ∃ gap, written items = inner items ++ gap := by
  fun_induction inner items with
  | case1 => exact absurd rfl h
  | case2 t gap => exact ⟨gap, List.append_nil _⟩
  | case3 t gap next items ih =>
    obtain ⟨last, hlast⟩ := ih (List.cons_ne_nil _ _)
    refine ⟨last, ?_⟩
    rw [written_cons, hlast]
    simp

theorem spanOf_placed {items : List (Token × List Char)} (h : items ≠ []) (pos : Nat) :
    Syntax.spanOf (placed pos items) = ⟨pos, pos + byteLength (inner items)⟩ := by
  fun_induction inner items generalizing pos with
  | case1 => exact absurd rfl h
  | case2 t gap => rfl
  | case3 t gap next items ih =>
    have hrest := ih (List.cons_ne_nil _ _) (pos + byteLength t.spelling + byteLength gap)
    have hne : placed (pos + byteLength t.spelling + byteLength gap) (next :: items) ≠ [] :=
      List.cons_ne_nil _ _
    rw [placed, Lexer.spanOf_cons, Lexer.lastStop_eq hne, hrest]
    simp only [Text.byteLength_append, Nat.add_assoc]

/-- Lexemes one behind the other come from items that are so. -/
theorem exists_of_placed_eq_append {items : List (Token × List Char)} {ls ms : List Lexeme}
    (h : placed pos items = ls ++ ms) :
    ∃ as bs, items = as ++ bs ∧ ls = placed pos as ∧
      ms = placed (pos + byteLength (written as)) bs := by
  induction ls generalizing pos items with
  | nil => exact ⟨[], items, rfl, rfl, h.symm⟩
  | cons l ls ih =>
    cases items with
    | nil => cases h
    | cons item items =>
      obtain ⟨rfl, hrest⟩ := List.cons.inj h
      obtain ⟨as, bs, rfl, rfl, rfl⟩ := ih hrest
      refine ⟨item :: as, bs, rfl, rfl, ?_⟩
      rw [written_cons]
      simp only [Text.byteLength_append, Nat.add_assoc]

/-- The text of a run of tokens in a layout. -/
theorem exists_run_of_infix {ls : List Lexeme} (h : ls <:+: x.lexemes) (hls : ls ≠ []) :
    ∃ run, run <:+: x.items ∧ run.map Prod.fst = ls.map (·.token) ∧
      Syntax.textAt x.source.toList (Syntax.spanOf ls) = String.ofList (inner run) := by
  obtain ⟨before, behind, hall⟩ := h
  rw [List.append_assoc] at hall
  obtain ⟨as, rest, hitems, -, hrest⟩ := exists_of_placed_eq_append hall.symm
  obtain ⟨run, bs, rfl, rfl, -⟩ := exists_of_placed_eq_append hrest.symm
  have hrun : run ≠ [] := by
    rintro rfl
    exact hls rfl
  obtain ⟨gap, hgap⟩ := exists_written hrun
  refine ⟨run, ⟨as, bs, by rw [hitems, List.append_assoc]⟩, (tokens_placed _ _).symm, ?_⟩
  have hsource : x.source.toList = x.first ++ written as ++ inner run ++ (gap ++ written bs) := by
    rw [source, String.toList_ofList, hitems, written_append, written_append, hgap]
    simp
  rw [spanOf_placed hrun, Syntax.textAt, hsource, ← Text.byteLength_append, Text.slice_append]

/-- The tokens with the same text around each of them. -/
def uniform (gap : List Char) (ts : List Token) : SpacedText := ⟨gap, ts.map fun t => (t, gap)⟩

theorem isSpaced_uniform {gap : List Char} {ts : List Token} (hgap : Lexer.IsSeparator gap)
    (hts : ∀ t ∈ ts, t.IsWritable) : (uniform gap ts).IsSpaced :=
  ⟨hgap, List.forall_mem_map.mpr fun t ht => ⟨hts t ht, hgap⟩⟩

end SpacedText

namespace Syntax

open Grammar (Relocation NoDoc)

/-! ## Moving the tokens of one layout to another -/

/-- A list without repetitions can be mapped to any list of its length. -/
theorem exists_map_eq {α β : Type} [DecidableEq α] [Inhabited β] {as : List α} {bs : List β}
    (has : as.Nodup) (hlength : as.length = bs.length) : ∃ f : α → β, as.map f = bs := by
  induction as generalizing bs with
  | nil => exact ⟨fun _ => default, (List.length_eq_zero_iff.mp hlength.symm).symm⟩
  | cons a as ih =>
    obtain ⟨ha, has⟩ := List.nodup_cons.mp has
    obtain ⟨b, bs, rfl⟩ := List.exists_cons_of_length_eq_add_one hlength.symm
    obtain ⟨f, rfl⟩ := ih has (Nat.succ.inj hlength)
    refine ⟨Function.update f a b, ?_⟩
    rw [List.map_cons, Function.update_self]
    refine congrArg (b :: ·) (List.map_congr_left fun c hc => Function.update_of_ne ?_ _ _)
    rintro rfl
    exact ha hc

variable {source source' : String} {x y : SpacedText}

/-- Moved tokens without doc comments. -/
def movedTo (place : Span → Span) : Relocation := ⟨place, fun _ => none⟩

theorem exists_movedTo
    (h : (lex source).lexemes.map (·.token) = (lex source').lexemes.map (·.token)) :
    ∃ place, (lex source).lexemes.map (movedTo place).move = (lex source').lexemes := by
  have hlength : ((lex source).lexemes.map (·.span)).length =
      ((lex source').lexemes.map (·.span)).length := by
    have := congrArg List.length h
    rwa [List.length_map, List.length_map] at this ⊢
  obtain ⟨place, hplace⟩ := exists_map_eq (Lexer.nodup_spans source) hlength
  refine ⟨place, ?_⟩
  -- a lexeme is its token and its span
  have hpair : ∀ ls ms : List Lexeme, ls.map (·.token) = ms.map (·.token) →
      (ls.map (·.span)).map place = ms.map (·.span) → ls.map (movedTo place).move = ms := by
    intro ls ms
    induction ls generalizing ms with
    | nil =>
      intro htokens _
      exact (List.map_eq_nil_iff.mp htokens.symm).symm
    | cons l ls ih =>
      intro htokens hspans
      obtain ⟨m, ms, rfl, hm, hms⟩ := List.map_eq_cons_iff.mp htokens.symm
      obtain ⟨hspan, hspans⟩ := List.cons.inj hspans
      rw [List.map_cons, ih ms hms.symm hspans]
      exact congrArg (· :: ms) (congrArg₂ Lexeme.mk hm.symm hspan)
  exact hpair _ _ h hplace

theorem attach_of_noDoc {ls : List Lexeme} (h : NoDoc ls) : DocComment.attach ls = ls :=
  attachAfter_eq_self h none

/-- What the units of two layouts can differ in: spans, and in the arguments of annotations what
    separates the tokens. -/
def relaid (x y : SpacedText) : Leeway where
  span _ _ := True
  args _ as bs := List.Forall₂ (fun a b => ∃ run run', run <:+: x.items ∧ run' <:+: y.items ∧
    run.map Prod.fst = run'.map Prod.fst ∧ a = String.ofList (SpacedText.inner run) ∧
      b = String.ofList (SpacedText.inner run')) as bs
  item o o' := o.1 = none ∧ o'.1 = none
  whole _ _ := True

theorem noDoc_of_isSpaced (h : x.IsSpaced) : NoDoc x.lexemes := by
  intro l hl
  have htoken : l.token ∈ x.items.map Prod.fst := by
    rw [← SpacedText.tokens_placed (byteLength x.first)]
    exact List.mem_map_of_mem hl
  obtain ⟨item, hitem, heq⟩ := List.mem_map.mp htoken
  have hwritable := (h.items item hitem).1
  rw [heq] at hwritable
  cases ht : l.token with
  | doc text =>
    rw [ht] at hwritable
    exact hwritable.elim
  | _ => rfl

/-- The derivation of one layout, moved, is the derivation of the other. -/
theorem lexemes_movedTo {d : Grammar.Source} {place : Span → Span} (hx : x.IsSpaced)
    (hy : y.IsSpaced) (hplace : x.lexemes.map (movedTo place).move = y.lexemes)
    (hd : d.lexemes = DocComment.attach (lex x.source).lexemes) :
    (d.relocate (movedTo place)).lexemes = DocComment.attach (lex y.source).lexemes := by
  have hxdoc := noDoc_of_isSpaced hx
  rw [SpacedText.lex_source hx, attach_of_noDoc hxdoc] at hd
  rw [SpacedText.lex_source hy, attach_of_noDoc (noDoc_of_isSpaced hy), Grammar.lexemes_relocate, hd,
    Relocation.rewrite_of_noDoc hxdoc (fun _ => rfl), hplace]

theorem carries_movedTo {place : Span → Span} (hx : x.IsSpaced) (hy : y.IsSpaced)
    (hplace : x.lexemes.map (movedTo place).move = y.lexemes) :
    Grammar.Carries (movedTo place) (relaid x y) x.source y.source where
  spelled l hl _ := by
    refine Lexer.isWritten_of_mem ?_
    change _ ∈ (lex y.source).lexemes
    rw [SpacedText.lex_source hx] at hl
    rw [SpacedText.lex_source hy, ← hplace]
    exact List.mem_map_of_mem hl
  span _ := trivial
  args a ha := by
    refine Grammar.forall₂_map fun arg harg => ?_
    have hread := Grammar.AnnotationUse.read_argument ha harg
    rw [Read, SpacedText.lex_source hx, attach_of_noDoc (noDoc_of_isSpaced hx)] at hread
    obtain ⟨l, ls, hlexemes, -⟩ := Grammar.begins_argument arg
    have hne : arg.lexemes ≠ [] := by
      rw [hlexemes]
      exact List.cons_ne_nil _ _
    have hmoved : (arg.relocate (movedTo place)).lexemes = arg.lexemes.map (movedTo place).move :=
      (Grammar.map_move_argument arg).symm
    -- the text of an argument is that of a run of items, in either layout
    obtain ⟨run, hrun, htokens, htext⟩ := SpacedText.exists_run_of_infix hread hne
    obtain ⟨run', hrun', htokens', htext'⟩ := SpacedText.exists_run_of_infix
      (hplace ▸ hread.map (movedTo place).move) (fun hnil => hne (List.map_eq_nil_iff.mp hnil))
    refine ⟨run, run', hrun, hrun', ?_, htext, ?_⟩
    · rw [htokens, htokens', List.map_map]
      rfl
    · rw [Grammar.Argument.tree, hmoved, htext']

/-- Tokens that are written with separators around them are read back without an error, each where
    it is written, and two layouts of the same tokens have both no unit or units that are the same
    up to spans and up to the separators within the arguments of annotations. -/
theorem parse_relaid (hx : x.IsSpaced) (hy : y.IsSpaced) (htokens : x.tokens = y.tokens) :
    lex x.source = ⟨x.lexemes, []⟩ ∧ x.lexemes.map (·.token) = x.tokens ∧
      Option.Rel (CompilationUnit.Like (relaid x y)) (parse x.source).unit (parse y.source).unit := by
  have hlexx := SpacedText.lex_source hx
  have hlexy := SpacedText.lex_source hy
  have hsame : (lex x.source).lexemes.map (·.token) = (lex y.source).lexemes.map (·.token) := by
    rw [hlexx, hlexy]
    exact (SpacedText.tokens_placed _ _).trans (htokens.trans (SpacedText.tokens_placed _ _).symm)
  refine ⟨hlexx, SpacedText.tokens_placed _ _, ?_⟩
  obtain ⟨place, hplace⟩ := exists_movedTo hsame
  rw [hlexx, hlexy] at hplace
  cases hu : (parse x.source).unit with
  | none =>
    cases hv : (parse y.source).unit with
    | none => exact .none
    | some v =>
      -- the derivation of the second layout would be one of the first
      obtain ⟨place', hplace'⟩ := exists_movedTo hsame.symm
      rw [hlexx, hlexy] at hplace'
      obtain ⟨d, hd, -⟩ := unit_of_parse hv
      obtain ⟨u, hu'⟩ := exists_unit_of_lexemes (lexemes_movedTo hy hx hplace' hd)
      rw [hu] at hu'
      cases hu'
  | some u =>
    obtain ⟨d, hd, rfl⟩ := unit_of_parse hu
    have hmoved := lexemes_movedTo hx hy hplace hd
    rw [unit_of_lexemes hmoved]
    refine .some ((carries_movedTo hx hy hplace).like_tree ?_ (fun o ho => ?_) trivial)
    · unfold Read
      exact hd ▸ List.infix_refl _
    · -- without doc comments in the source there is none in the derivation
      have hdoc : NoDoc d.lexemes := by
        rw [hd, hlexx, attach_of_noDoc (noDoc_of_isSpaced hx)]
        exact noDoc_of_isSpaced hx
      have hkept := Grammar.Source.relocate_opening (r := movedTo id)
        ((Relocation.rewrite_of_noDoc hdoc (fun _ => rfl) none).trans (List.map_id _)) ho
      have hnone : o.doc = none := congrArg Grammar.Opening.doc hkept.symm
      have htext : o.docText = none := by rw [Grammar.Opening.docText, hnone]; rfl
      exact fun _ => ⟨htext, rfl⟩

/-- The tokens of a class with an annotation. -/
def annotatedClass : List Token :=
  [.symbol .atSign, .ident "A", .symbol .leftParen, .ident "a", .symbol .dot, .ident "b",
    .symbol .rightParen, .keyword .class_, .ident "C", .symbol .semi]

theorem isWritable_annotatedClass : ∀ t ∈ annotatedClass, t.IsWritable := by
  unfold annotatedClass
  simp only [List.forall_mem_cons, Token.IsWritable, List.not_mem_nil, false_imp_iff, implies_true,
    true_and, and_true]
  decide

theorem isSpaced_annotatedClass {gap : List Char} (hgap : Lexer.IsSeparator gap) :
    (SpacedText.uniform gap annotatedClass).IsSpaced :=
  SpacedText.isSpaced_uniform hgap isWritable_annotatedClass

/-- The class with spaces and with comments between its tokens. -/
theorem parse_relaid_annotatedClass :
    let x := SpacedText.uniform [' '] annotatedClass
    let y := SpacedText.uniform (Lexer.blockComment ['"']) annotatedClass
    x.IsSpaced ∧ y.IsSpaced ∧ x.tokens = y.tokens ∧
      lex x.source = ⟨x.lexemes, []⟩ ∧ x.lexemes.map (·.token) = x.tokens ∧
      Option.Rel (CompilationUnit.Like (relaid x y)) (parse x.source).unit (parse y.source).unit := by
  intro x y
  have hx : x.IsSpaced := isSpaced_annotatedClass (.one (.space rfl))
  have hy : y.IsSpaced :=
    isSpaced_annotatedClass (.one (.comment (List.isChain_singleton _) (by decide)))
  exact ⟨hx, hy, rfl, parse_relaid hx hy rfl⟩

/-- The argument of the annotation is kept with the spaces that it is written with. -/
theorem unspanned_ne_of_relaid :
    let x := SpacedText.uniform [' '] annotatedClass
    let y := SpacedText.uniform [' ', ' '] annotatedClass
    x.IsSpaced ∧ y.IsSpaced ∧ x.tokens = y.tokens ∧
      (parse x.source).unit.map (·.unspanned) ≠ (parse y.source).unit.map (·.unspanned) := by
  intro x y
  have hx : x.IsSpaced := isSpaced_annotatedClass (.one (.space rfl))
  have hy : y.IsSpaced := isSpaced_annotatedClass (.more (.space rfl) (.one (.space rfl)))
  refine ⟨hx, hy, rfl, fun hsame => ?_⟩
  have hargs := congrArg (Option.map fun u =>
    u.decls.flatMap fun d => d.head.annotations.flatMap (·.args)) hsame
  have hparse : ∀ z : SpacedText,
      parse z.source = parseChars (z.first ++ SpacedText.written z.items) :=
    fun z => parse_eq_parseChars rfl
  rw [hparse, hparse] at hargs
  dsimp only [x, y] at hargs
  exact absurd hargs (by decide +kernel)

end Syntax

end ActorIdl
