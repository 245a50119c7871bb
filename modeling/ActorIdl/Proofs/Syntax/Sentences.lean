import ActorIdl.Proofs.Syntax.Accepts
import ActorIdl.Proofs.Syntax.Derives
/-! # The parser accepts exactly its grammar

    A source has a tree if and only if the tokens of the source, without the doc comments that are
    out of place, have a derivation; the derivation is the only one, and the tree is the tree of the
    derivation.  Lexical errors have no part in it. -/

namespace ActorIdl.Syntax

namespace Parser

variable {α β : Type} {x : Parser α} {f : α → Parser β}

/-- A parser that succeeds at the end of the input only. -/
def EndsInput (x : Parser α) : Prop := ∀ i p a j q, x i p = (some (a, j), q) → j.rest = []

theorem EndsInput.endOfInput (b : β) : EndsInput (do endOfInput; return b) := by
  intro i p a j q hrun
  change Parser.bind Parser.endOfInput (fun _ => Parser.pure b) i p = _ at hrun
  unfold Parser.bind Parser.endOfInput at hrun
  cases hrest : i.rest with
  | nil =>
    rw [hrest] at hrun
    cases hrun
    exact hrest
  | cons l ls =>
    rw [hrest] at hrun
    cases hrun

theorem EndsInput.bind (hf : ∀ a, EndsInput (f a)) : EndsInput (x >>= f) := by
  intro i p b k q hrun
  change Parser.bind x f i p = _ at hrun
  unfold Parser.bind at hrun
  split at hrun
  · exact hf _ _ _ _ _ _ hrun
  · cases hrun

theorem EndsInput.spanned (hx : EndsInput x) : EndsInput (spanned x) := by
  intro i p a j q hrun
  unfold Parser.spanned at hrun
  split at hrun
  · rename_i hx'
    cases hrun
    exact hx _ _ _ _ _ hx'
  · cases hrun

theorem EndsInput.map (hx : EndsInput x) (g : α → β) : EndsInput (do let a ← x; return g a) := by
  intro i p b k q hrun
  change Parser.bind x (fun a => Parser.pure (g a)) i p = _ at hrun
  unfold Parser.bind at hrun
  split at hrun
  · rename_i hx'
    cases hrun
    exact hx _ _ _ _ _ hx'
  · cases hrun

theorem endsInput_unit : EndsInput unit :=
  .map (.spanned (.bind fun _ => .bind fun _ => .bind fun _ => .endOfInput _)) _

/-- A source without tokens is read as the empty unit at its end. -/
theorem unit_start_nil (source : List Char) (p : Option Pending) :
    ∃ j q, unit (Input.start source []) p = (some (⟨none, [], [], wholeSpan source []⟩, j), q) :=
  ⟨_, _, rfl⟩

end Parser

/-- The lexemes that the parser gets are spelled in the source. -/
theorem spelled_of_mem_attach {source : String} {l : Lexeme}
    (h : l ∈ DocComment.attach (lex source).lexemes) : Spelled source.toList l :=
  Lexer.isWritten_of_mem ((DocComment.attachAfter_sublist none _).subset h)

theorem unit_of_parse {source : String} {u : CompilationUnit} (h : (parse source).unit = some u) :
    ∃ d : Grammar.Source,
      d.lexemes = DocComment.attach (lex source).lexemes ∧ d.tree source.toList = u := by
  obtain ⟨j, q, hrun⟩ := exists_run_of_unit h
  obtain ⟨ts, hts, _, d, rfl, hu, hspan⟩ := Parser.derives_unit _ _ _ _ _ rfl
    (fun l hl => spelled_of_mem_attach hl) hrun
  rw [Parser.endsInput_unit _ _ _ _ _ hrun, List.append_nil] at hts
  refine ⟨d, hts.symm, ?_⟩
  have hwhole : u.span = wholeSpan source.toList d.lexemes := by
    cases hd : d.lexemes with
    | cons l ls =>
      rw [hspan (hd ▸ List.cons_ne_nil l ls), hd]
      rfl
    | nil =>
      -- without tokens there is one way to read a unit
      have hnil : DocComment.attach (lex source).lexemes = [] := hts.trans hd
      obtain ⟨_, _, hempty⟩ := Parser.unit_start_nil source.toList none
      rw [hnil, hempty] at hrun
      cases hrun
      rfl
  rw [hu, hwhole]
  rfl

theorem exists_unit_of_lexemes {source : String} {d : Grammar.Source}
    (h : d.lexemes = DocComment.attach (lex source).lexemes) :
    ∃ u, (parse source).unit = some u := by
  have hstart : (Input.start source.toList (DocComment.attach (lex source).lexemes)).tokens =
      Parser.tokens d.lexemes ++ [] := by
    rw [List.append_nil, h]
    rfl
  obtain ⟨u, j, q, hrun, _⟩ := Parser.reads_unit d _ none hstart
  exact ⟨u, by rw [parse_of_run hrun]⟩

theorem unit_of_lexemes {source : String} {d : Grammar.Source}
    (h : d.lexemes = DocComment.attach (lex source).lexemes) :
    (parse source).unit = some (d.tree source.toList) := by
  obtain ⟨u, hu⟩ := exists_unit_of_lexemes h
  -- the tree comes from a derivation of the same lexemes, which is this one
  obtain ⟨d', hd', rfl⟩ := unit_of_parse hu
  rw [hu, Grammar.eq_of_lexemes_eq (h.trans hd'.symm)]

/-- A source has a tree if and only if its tokens have a derivation, which is unique then, and the
    tree is the tree of the derivation. -/
theorem unit_iff_derivation (source : String) :
    (∀ u, (parse source).unit = some u ↔ ∃ d : Grammar.Source,
      d.lexemes = DocComment.attach (lex source).lexemes ∧ d.tree source.toList = u) ∧
    ∀ d d' : Grammar.Source, d.lexemes = DocComment.attach (lex source).lexemes →
      d'.lexemes = DocComment.attach (lex source).lexemes → d = d' := by
  refine ⟨fun u => ⟨unit_of_parse, ?_⟩, fun d d' h h' => Grammar.eq_of_lexemes_eq (h.trans h'.symm)⟩
  rintro ⟨d, hd, rfl⟩
  exact unit_of_lexemes hd

end ActorIdl.Syntax
