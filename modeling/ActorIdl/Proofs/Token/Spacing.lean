import ActorIdl.Proofs.Token.Patterns
/-! # Lexing tokens that are written with space between them

    A token is read back wherever something separates it from what follows: white space, a line
    comment or a plain block comment.  So a text that is put together of tokens and separators has
    no lexical error, its lexemes are those tokens where they were written, and it does not matter
    what the separators are. -/

namespace ActorIdl

/-- How a token is written.  Doc comments have no spelling of their own. -/
def Token.spelling : Token → List Char
  | .keyword k => k.text.toList
  | .symbol s => [s.char]
  | .number text => text.toList
  | .string value => Lexer.quoted value.toList
  | .doc _ => []
  | .ident name => name.toList

/-- A token that can be written: an identifier that is not reserved, a number and a string that the
    patterns allow, any reserved word and any punctuation mark. -/
def Token.IsWritable : Token → Prop
  | .keyword _ | .symbol _ => True
  | .number text => Lexer.IsNumber text.toList
  | .string value => Lexer.IsContent value.toList
  | .doc _ => False
  | .ident name => IsIdent name

namespace Lexer

open Text (byteLength)

variable {pos : Nat} {cs rest : List Char}

/-! ## Separators -/

/-- White space, a line comment with the end of its line, or a closed block comment that is not a
    doc comment. -/
inductive IsSpacing : List Char → Prop where
  | space {c : Char} (hc : isSpace c = true) : IsSpacing [c]
  | lineComment {body : List Char} (hbody : '\n' ∉ body) :
      IsSpacing ('/' :: '/' :: body ++ ['\n'])
  | comment {body : List Char} (hbody : body.IsChain Apart) (hdoc : body.head? ≠ some '*') :
      IsSpacing (blockComment body)

/-- One or more of them. -/
inductive IsSeparator : List Char → Prop where
  | one {cs : List Char} (hcs : IsSpacing cs) : IsSeparator cs
  | more {cs rest : List Char} (hcs : IsSpacing cs) (hrest : IsSeparator rest) :
      IsSeparator (cs ++ rest)

/-- No word and no number goes on into the text. -/
def Parts (rest : List Char) : Prop := ∀ d ∈ rest.head?, isIdentRest d = false ∧ d ≠ '.'

theorem IsSpacing.parts (h : IsSpacing cs) (rest : List Char) : Parts (cs ++ rest) := by
  rintro d hd
  cases h with
  | space hc =>
    cases hd
    refine ⟨isIdentRest_of_isSpace hc, ?_⟩
    rintro rfl
    exact absurd hc (by decide)
  | lineComment =>
    cases hd
    decide
  | comment =>
    cases hd
    decide

theorem IsSeparator.parts (h : IsSeparator cs) (rest : List Char) : Parts (cs ++ rest) := by
  cases h with
  | one hcs => exact hcs.parts rest
  | more hcs _ =>
    rw [List.append_assoc]
    exact hcs.parts _

theorem lexFrom_blockComment {body : List Char} (hbody : body.IsChain Apart)
    (hdoc : body.head? ≠ some '*') (rest : List Char) :
    lexFrom pos (blockComment body ++ rest) = lexFrom (pos + byteLength (blockComment body)) rest := by
  have hplain : ∀ doc, body ≠ '*' :: doc := by
    rintro doc rfl
    exact hdoc rfl
  have hscan := (Finds.comment rfl rfl (commentBody_closed hbody rest) hplain).scan_eq
  have hlength : body.length + 3 = ('*' :: (body ++ ['*', '/'])).length := by simp
  rw [hlength] at hscan
  exact lexFrom_piece hscan

theorem IsSpacing.lexFrom (h : IsSpacing cs) (rest : List Char) :
    Lexer.lexFrom pos (cs ++ rest) = Lexer.lexFrom (pos + byteLength cs) rest := by
  cases h with
  | space hc => exact lexFrom_space hc rest
  | @lineComment body hbody =>
    have hnewline : '/' :: '/' :: body ++ ['\n'] ++ rest = '/' :: '/' :: body ++ '\n' :: rest := by simp
    rw [hnewline, lexFrom_lineComment hbody, lexFrom_space (by decide), Text.byteLength_append,
      Nat.add_assoc]
    rfl
  | comment hbody hdoc => exact lexFrom_blockComment hbody hdoc rest

theorem IsSeparator.lexFrom (h : IsSeparator cs) (rest : List Char) :
    Lexer.lexFrom pos (cs ++ rest) = Lexer.lexFrom (pos + byteLength cs) rest := by
  induction h generalizing pos with
  | one hcs => exact hcs.lexFrom rest
  | more hcs _ ih =>
    rw [List.append_assoc, hcs.lexFrom, ih, Text.byteLength_append, Nat.add_assoc]

/-! ## A token in front of a separator -/

theorem Parts.head_isDigit (h : Parts rest) : ∀ d ∈ rest.head?, d.isDigit = false :=
  fun d hd => (Bool.or_eq_false_iff.mp (h d hd).1).2

theorem Parts.fraction_eq_nil (h : Parts rest) : fraction rest = [] := by
  cases rest with
  | nil => rfl
  | cons d rest => exact fraction_of_ne (h d rfl).2 rest

/-- A numeral is found where nothing continues it. -/
theorem IsNumeral.numeral_append {ds : List Char} (h : IsNumeral ds) (hrest : Parts rest) :
    numeral (ds ++ rest) = ds := by
  unfold numeral
  cases h with
  | whole hds =>
    rw [takeWhile_digits hds.2 hrest.head_isDigit, dropWhile_digits hds.2 hrest.head_isDigit,
      hrest.fraction_eq_nil, List.append_nil]
  | @point ds es hds hes =>
    have hpoint : ∀ d ∈ ('.' :: (es ++ rest)).head?, d.isDigit = false := by
      rintro d hd
      cases hd
      rfl
    rw [List.append_assoc, List.cons_append, takeWhile_digits hds.2 hpoint,
      dropWhile_digits hds.2 hpoint, fraction_point hes, takeWhile_digits hes.2 hrest.head_isDigit]

theorem lexFrom_number {text : String} (h : IsNumber text.toList) (hrest : Parts rest) :
    lexFrom pos (text.toList ++ rest) = (Piece.token (.number text)).before
      ⟨pos, pos + byteLength text.toList⟩ (lexFrom (pos + byteLength text.toList) rest) := by
  -- behind its first character a number goes on to its end
  have hscan : ∃ c cs, text.toList = c :: cs ∧ numeral (cs ++ rest) = cs ∧
      Finds c (cs ++ rest) (.token (.number (String.ofList (c :: numeral (cs ++ rest)))))
        (numeral (cs ++ rest)).length := by
    generalize text.toList = chars at h
    cases h with
    | unsigned hcs =>
      obtain ⟨c, cs, rfl, hc⟩ := hcs.head_isDigit
      have hnumeral := hcs.numeral_append hrest
      rw [List.cons_append, numeral_cons, if_pos hc] at hnumeral
      exact ⟨c, cs, rfl, (List.cons.inj hnumeral).2, .number hc⟩
    | @negative cs hcs =>
      refine ⟨'-', cs, rfl, hcs.numeral_append hrest, .negative rfl ?_⟩
      obtain ⟨d, ds, rfl, hd⟩ := hcs.head_isDigit
      exact congrArg some hd
  obtain ⟨c, cs, hchars, hnumeral, hfinds⟩ := hscan
  rw [hnumeral] at hfinds
  rw [hchars, lexFrom_piece hfinds.scan_eq, ← hchars, String.ofList_toList]

theorem lexFrom_string {value : String} (h : IsContent value.toList) (rest : List Char) :
    lexFrom pos (quoted value.toList ++ rest) = (Piece.token (.string value)).before
      ⟨pos, pos + byteLength (quoted value.toList)⟩
      (lexFrom (pos + byteLength (quoted value.toList)) rest) := by
  have hrun : stringRun (value.toList ++ ['"'] ++ rest) = value.toList := by
    rw [List.append_assoc, h.stringRun_append, List.singleton_append, stringRun_quote,
      List.append_nil]
  have hclose : ((value.toList ++ ['"'] ++ rest).drop
      (stringRun (value.toList ++ ['"'] ++ rest)).length).head? = some '"' := by
    rw [hrun, List.append_assoc, List.drop_left]
    rfl
  have hscan := (Finds.string rfl hclose).scan_eq
  have hlength : value.toList.length + 1 = (value.toList ++ ['"']).length := by simp
  rw [hrun, hlength, String.ofList_toList] at hscan
  exact lexFrom_piece hscan

/-- A token is read back in front of a separator. -/
theorem lexFrom_spelling {t : Token} (h : t.IsWritable) (hrest : Parts rest) :
    lexFrom pos (t.spelling ++ rest) = (Piece.token t).before
      ⟨pos, pos + byteLength t.spelling⟩ (lexFrom (pos + byteLength t.spelling) rest) := by
  have hend : EndsWord rest := fun d hd => (hrest d hd).1
  cases t with
  | keyword k =>
    have hword : word k.text = .keyword k := by rw [word, k.ofText?_text]
    have hlex : lexFrom pos _ = _ := lexFrom_word k.isWord hend
    rwa [hword] at hlex
  | symbol s => exact lexFrom_symbol s rest
  | number text => exact lexFrom_number h hrest
  | string value => exact lexFrom_string h rest
  | doc text => exact h.elim
  | ident name =>
    have hlex : lexFrom pos _ = _ := lexFrom_word h.1 hend
    rwa [word_of_isIdent h] at hlex

end Lexer

/-! ## A text of tokens and separators -/

/-- Tokens with what is written around them: something in front of the first one, and something
    behind each. -/
structure SpacedText where
  first : List Char
  items : List (Token × List Char)

namespace SpacedText

open Text (byteLength)

/-- The tokens in the text. -/
def tokens (x : SpacedText) : List Token := x.items.map Prod.fst

/-- Tokens and what is behind them. -/
def written (items : List (Token × List Char)) : List Char :=
  items.flatMap fun item => item.1.spelling ++ item.2

/-- The text. -/
def source (x : SpacedText) : String := String.ofList (x.first ++ written x.items)

/-- The tokens where they are written, in a text that begins at an offset. -/
def placed (pos : Nat) : List (Token × List Char) → List Lexeme
  | [] => []
  | (t, gap) :: items => ⟨t, ⟨pos, pos + byteLength t.spelling⟩⟩ ::
      placed (pos + byteLength t.spelling + byteLength gap) items

/-- The tokens where they are written. -/
def lexemes (x : SpacedText) : List Lexeme := placed (byteLength x.first) x.items

/-- The tokens can be written, and separators are around them. -/
structure IsSpaced (x : SpacedText) : Prop where
  first : Lexer.IsSeparator x.first
  items : ∀ item ∈ x.items, item.1.IsWritable ∧ Lexer.IsSeparator item.2

theorem tokens_placed (pos : Nat) (items : List (Token × List Char)) :
    (placed pos items).map (·.token) = items.map Prod.fst := by
  induction items generalizing pos with
  | nil => rfl
  | cons item items ih => exact congrArg (item.1 :: ·) (ih _)

theorem written_cons (item : Token × List Char) (items : List (Token × List Char)) :
    written (item :: items) = item.1.spelling ++ (item.2 ++ written items) := by
  rw [written, List.flatMap_cons, List.append_assoc]
  rfl

theorem written_append (items items' : List (Token × List Char)) :
    written (items ++ items') = written items ++ written items' := List.flatMap_append

theorem lexFrom_written {items : List (Token × List Char)}
    (h : ∀ item ∈ items, item.1.IsWritable ∧ Lexer.IsSeparator item.2) (pos : Nat) :
    Lexer.lexFrom pos (written items) = ⟨placed pos items, []⟩ := by
  induction items generalizing pos with
  | nil =>
    rw [written, List.flatMap_nil, Lexer.lexFrom]
    rfl
  | cons item items ih =>
    obtain ⟨⟨htoken, hgap⟩, hitems⟩ := List.forall_mem_cons.mp h
    rw [written_cons, Lexer.lexFrom_spelling htoken (hgap.parts _), hgap.lexFrom, ih hitems]
    rfl

theorem lex_source {x : SpacedText} (h : x.IsSpaced) : lex x.source = ⟨x.lexemes, []⟩ := by
  have hitems := lexFrom_written h.items (byteLength x.first)
  rw [lex, source, String.toList_ofList, h.first.lexFrom, Nat.zero_add, hitems]
  rfl

end SpacedText

end ActorIdl
