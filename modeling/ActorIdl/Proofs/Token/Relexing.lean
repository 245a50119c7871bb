import ActorIdl.Proofs.Syntax.Grammar
import ActorIdl.Proofs.Token.Pieces
/-! # Lexing a text again in another place

    What `scan` finds depends only on the piece that it finds and the character behind it.  So a
    text that ends with a token of one source is cut into the same pieces wherever it is written in
    front of white space, and so is the text between two tokens. -/

namespace ActorIdl

/-- Some lexemes in front of what follows them. -/
def Lexing.behind (ls : List Lexeme) (x : Lexing) : Lexing := ⟨ls ++ x.lexemes, x.errors⟩

namespace Lexer

open Text (byteLength)

/-- The end of a text, or white space. -/
def Stops (rest : List Char) : Prop := ∀ d ∈ rest.head?, isSpace d = true

theorem stops_nil : Stops [] := fun _ hd => by cases hd

theorem stops_cons {c : Char} (hc : isSpace c = true) (cs : List Char) : Stops (c :: cs) := by
  intro d hd
  cases hd
  exact hc

variable {c : Char} {cs us vs : List Char} {n : Nat} {piece : Piece}

/-! ## The longest matches in front of white space -/

section
variable {p : Char → Bool}

theorem Stops.head_eq_false (h : Stops vs) (hp : ∀ d, isSpace d = true → p d = false) :
    ∀ d ∈ vs.head?, p d = false := fun d hd => hp d (h d hd)

theorem takeWhile_eq_nil_of_head (h : ∀ d ∈ vs.head?, p d = false) : vs.takeWhile p = [] := by
  cases vs with
  | nil => rfl
  | cons d vs => rw [List.takeWhile_cons, h d rfl, if_neg (by decide)]

/-- A match that does not go beyond a text ends in the text or behind it.  Only in the second case
    does it matter what comes next. -/
theorem takeWhile_append_congr (h : ((cs ++ us).takeWhile p).length ≤ cs.length)
    (hvs : ((cs ++ us).takeWhile p).length = cs.length → ∀ d ∈ vs.head?, p d = false) :
    (cs ++ vs).takeWhile p = (cs ++ us).takeWhile p := by
  induction cs with
  | nil =>
    have hnil := Nat.le_zero.mp h
    have hvs := hvs hnil
    rw [List.nil_append, List.nil_append] at *
    rw [takeWhile_eq_nil_of_head hvs, List.length_eq_zero_iff.mp hnil]
  | cons c cs ih =>
    rw [List.cons_append, List.takeWhile_cons] at h hvs ⊢
    rw [List.cons_append, List.takeWhile_cons]
    by_cases hc : p c = true
    · rw [if_pos hc, List.length_cons, List.length_cons] at h hvs
      rw [if_pos hc, if_pos hc, ih (Nat.le_of_succ_le_succ h) fun heq => hvs (congrArg Nat.succ heq)]
    · rw [if_neg hc, if_neg hc]

/-- A match that ends before a text does is found in the text alone. -/
theorem takeWhile_append_of_lt (h : ((cs ++ us).takeWhile p).length < cs.length) (vs : List Char) :
    (cs ++ vs).takeWhile p = (cs ++ us).takeWhile p :=
  takeWhile_append_congr h.le fun heq => absurd heq h.ne

end

theorem isIdentRest_of_isSpace (h : isSpace c = true) : isIdentRest c = false := by
  rw [isIdentRest, isIdentStart_of_isSpace h, isDigit_of_isSpace h, Bool.or_false]

theorem numeral_cons (c : Char) (cs : List Char) :
    numeral (c :: cs) = if c.isDigit then c :: numeral cs else fraction (c :: cs) := by
  unfold numeral
  rw [List.takeWhile_cons, List.dropWhile_cons]
  by_cases hc : c.isDigit = true
  · rw [if_pos hc, if_pos hc, if_pos hc, List.cons_append]
  · rw [if_neg hc, if_neg hc, if_neg hc, List.nil_append]

theorem fraction_of_ne (hc : c ≠ '.') (cs : List Char) : fraction (c :: cs) = [] := by
  unfold fraction
  split
  · rename_i heq
    exact absurd (List.cons.inj heq).1 hc
  · rfl

theorem numeral_of_stops (h : Stops vs) : numeral vs = [] := by
  cases vs with
  | nil => rfl
  | cons d vs =>
    have hd : isSpace d = true := h d rfl
    have hne : d ≠ '.' := by
      rintro rfl
      exact absurd hd (by decide)
    rw [numeral_cons, isDigit_of_isSpace hd, if_neg (by decide), fraction_of_ne hne]

theorem numeral_append_congr (h : (numeral (cs ++ us)).length ≤ cs.length) (hvs : Stops vs) :
    numeral (cs ++ vs) = numeral (cs ++ us) := by
  induction cs with
  | nil =>
    rw [List.nil_append, List.nil_append] at *
    rw [numeral_of_stops hvs, List.length_eq_zero_iff.mp (Nat.le_zero.mp h)]
  | cons c cs ih =>
    rw [List.cons_append, numeral_cons] at h ⊢
    rw [List.cons_append, numeral_cons]
    by_cases hc : c.isDigit = true
    · rw [if_pos hc, List.length_cons, List.length_cons] at h
      rw [if_pos hc, if_pos hc, ih (Nat.le_of_succ_le_succ h)]
    · rw [if_neg hc] at h
      rw [if_neg hc, if_neg hc]
      by_cases hdot : c = '.'
      · subst hdot
        -- with or without digits behind the point, what is there of them is in the text
        have hdigits : ((cs ++ us).takeWhile Char.isDigit).length ≤ cs.length := by
          rw [fraction] at h
          split at h
          · rename_i hnone
            rw [List.isEmpty_iff.mp hnone]
            exact Nat.zero_le _
          · exact Nat.le_of_succ_le_succ h
        rw [fraction, fraction, takeWhile_append_congr hdigits fun _ =>
          hvs.head_eq_false fun _ => isDigit_of_isSpace]
      · rw [fraction_of_ne hdot, fraction_of_ne hdot]

theorem exists_append_of_length_le {as bs ds : List Char} (h : as ++ bs = cs ++ ds)
    (hlength : cs.length ≤ as.length) : ∃ es, as = cs ++ es :=
  (List.prefix_of_prefix_length_le ⟨ds, h.symm⟩ (List.prefix_append as bs) hlength).imp
    fun _ => Eq.symm

theorem stringRun_quote (cs : List Char) : stringRun ('"' :: cs) = [] := by
  rw [stringRun.eq_def]
  exact if_pos rfl

theorem stringRun_escape (hc : c ≠ '\n') (cs : List Char) :
    stringRun ('\\' :: c :: cs) = '\\' :: c :: stringRun cs := by
  rw [stringRun, if_neg (by decide), if_pos rfl, if_neg hc]

theorem stringRun_plain (hquote : c ≠ '"') (hslash : c ≠ '\\') (cs : List Char) :
    stringRun (c :: cs) = c :: stringRun cs := by
  rw [stringRun.eq_def]
  exact (if_neg hquote).trans (if_neg hslash)

/-- The content of a string that is closed is the same in every place. -/
theorem stringRun_append {rest : List Char} (h : cs = stringRun cs ++ '"' :: rest) (vs : List Char) :
    stringRun (stringRun cs ++ '"' :: vs) = stringRun cs := by
  fun_induction stringRun cs with
  | case1 => cases h
  | case2 => exact stringRun_quote vs
  | case3 => cases h
  | case4 => cases h
  | case5 d ds hd _ ih =>
    have h : ds = stringRun ds ++ '"' :: rest := (List.cons.inj (List.cons.inj h).2).2
    rw [List.cons_append, List.cons_append, stringRun_escape hd, ih h]
  | case6 c cs hquote hslash ih =>
    have h : cs = stringRun cs ++ '"' :: rest := (List.cons.inj h).2
    rw [List.cons_append, stringRun_plain hquote hslash, ih h]

/-- A string that is closed in a text has the same content whatever follows the text. -/
theorem stringRun_append_congr
    (hclose : ((cs ++ us).drop (stringRun (cs ++ us)).length).head? = some '"')
    (hn : (stringRun (cs ++ us)).length + 1 ≤ cs.length) (vs : List Char) :
    stringRun (cs ++ vs) = stringRun (cs ++ us) ∧
      ((cs ++ vs).drop (stringRun (cs ++ us)).length).head? = some '"' := by
  obtain ⟨es, hes⟩ := prefix_stringRun (cs ++ us)
  obtain ⟨rest, rfl⟩ : ∃ rest, es = '"' :: rest := by
    have hdrop : ∀ w, w ++ es = cs ++ us → (cs ++ us).drop w.length = es :=
      fun w hw => by rw [← hw, List.drop_left]
    rw [hdrop _ hes] at hclose
    exact List.head?_eq_some_iff.mp hclose
  have hrest : cs ++ us = (stringRun (cs ++ us) ++ ['"']) ++ rest := by
    rw [List.append_assoc]
    exact hes.symm
  obtain ⟨ds, hds⟩ := exists_append_of_length_le hrest (by simpa using hn)
  have hcs : cs ++ vs = stringRun (cs ++ us) ++ '"' :: (ds ++ vs) := by
    conv_lhs => rw [hds]
    simp
  rw [hcs, stringRun_append hes.symm, List.drop_left]
  exact ⟨rfl, rfl⟩

/-- A comment that is closed in a text has the same body whatever follows the text. -/
theorem commentBody_append_congr {body : List Char}
    (h : commentBody ((cs ++ us).drop 1) = some body) (hn : body.length + 3 ≤ cs.length)
    (vs : List Char) : commentBody ((cs ++ vs).drop 1) = some body := by
  obtain ⟨d, ds, rfl⟩ := List.exists_cons_of_ne_nil
    (List.ne_nil_of_length_pos (Nat.lt_of_lt_of_le (Nat.succ_pos _) hn))
  obtain ⟨hchain, rest, hrest⟩ := commentBody_eq_some h
  have hrest : ds ++ us = (body ++ ['*', '/']) ++ rest := by
    rw [List.append_assoc]
    exact hrest
  obtain ⟨es, rfl⟩ := exists_append_of_length_le hrest (by
    simp only [List.length_cons, List.length_append, List.length_nil] at hn ⊢
    omega)
  have hagain := commentBody_append hchain (es ++ vs)
  simpa using hagain

/-! ## One piece -/

/-- The piece that is found at the start of a text is found there too if what is behind the text is
    another thing, provided that the piece does not go beyond the text and that white space follows
    it in any case. -/
theorem scan_append_congr (h : scan c (cs ++ us) = (piece, n)) (hvs : Stops vs) (hn : n ≤ cs.length)
    (hpiece : (∃ t, piece = .token t) ∨ (piece = .skipped ∧ n < cs.length)) :
    scan c (cs ++ vs) = (piece, n) := by
  have hhead : 0 < cs.length → (cs ++ vs).head? = (cs ++ us).head? := fun hpos => by
    rw [List.head?_append_of_ne_nil _ (List.ne_nil_of_length_pos hpos),
      List.head?_append_of_ne_nil _ (List.ne_nil_of_length_pos hpos)]
  have hshorter : piece = .skipped → n < cs.length := by
    rintro rfl
    obtain ⟨t, ht⟩ | ⟨-, hlt⟩ := hpiece
    · cases ht
    · exact hlt
  have hfinds := finds_of_scan h (by
    rintro e rfl
    obtain ⟨t, ht⟩ | ⟨ht, -⟩ := hpiece
    · cases ht
    · cases ht)
  refine Finds.scan_eq ?_
  cases hfinds with
  | space hc =>
    rw [← takeWhile_append_of_lt (hshorter rfl) vs]
    exact .space hc
  | lineComment hc hcs =>
    have hlt := hshorter rfl
    rw [← takeWhile_append_of_lt hlt vs]
    exact .lineComment hc (hhead (Nat.zero_lt_of_lt hlt) ▸ hcs)
  | docComment hc hcs hbody =>
    exact .docComment hc (hhead (Nat.lt_of_lt_of_le (Nat.succ_pos _) hn) ▸ hcs)
      (commentBody_append_congr hbody hn vs)
  | comment hc hcs hbody hdoc =>
    exact .comment hc (hhead (Nat.lt_of_lt_of_le (Nat.succ_pos _) hn) ▸ hcs)
      (commentBody_append_congr hbody hn vs) hdoc
  | string hc hclose =>
    obtain ⟨hrun, hend⟩ := stringRun_append_congr hclose hn vs
    rw [← hrun] at hend ⊢
    exact .string hc hend
  | number hc =>
    rw [← numeral_append_congr hn hvs]
    exact .number hc
  | negative hc hcs =>
    -- a sign alone is not a number, so there is a digit in the text
    have hpos : 0 < (numeral (cs ++ us)).length := by
      obtain ⟨d, hd, hdigit⟩ := Option.map_eq_some_iff.mp hcs
      obtain ⟨ds, hds⟩ := List.head?_eq_some_iff.mp hd
      rw [hds, numeral_cons, if_pos hdigit]
      exact Nat.succ_pos _
    rw [← numeral_append_congr hn hvs]
    exact .negative hc (hhead (Nat.lt_of_lt_of_le hpos hn) ▸ hcs)
  | word hc =>
    rw [← takeWhile_append_congr hn fun _ => hvs.head_eq_false fun _ => isIdentRest_of_isSpace]
    exact .word hc
  | symbol hc => exact .symbol hc

/-! ## From one token to another -/

/-- Where the last of some lexemes ends, or where they would begin if there are none. -/
def lastStop (pos : Nat) (ls : List Lexeme) : Nat := (ls.getLast?.map (·.span.stop)).getD pos

theorem lastStop_cons (pos : Nat) (l : Lexeme) (ls : List Lexeme) :
    lastStop pos (l :: ls) = lastStop l.span.stop ls := by
  rw [lastStop, lastStop, List.getLast?_cons]
  cases ls.getLast? <;> rfl

theorem lastStop_of_ne_nil {ls : List Lexeme} (h : ls ≠ []) (pos pos' : Nat) :
    lastStop pos ls = lastStop pos' ls := by
  obtain ⟨l, ls, rfl⟩ := List.exists_cons_of_ne_nil h
  rw [lastStop_cons, lastStop_cons]

theorem spanOf_cons (l : Lexeme) (ls : List Lexeme) :
    Syntax.spanOf (l :: ls) = ⟨l.span.start, lastStop l.span.stop ls⟩ := by
  rw [Syntax.spanOf, lastStop]
  cases ls.getLast? <;> rfl

theorem lastStop_eq {ls : List Lexeme} (h : ls ≠ []) (pos : Nat) :
    lastStop pos ls = (Syntax.spanOf ls).stop := by
  obtain ⟨l, ls, rfl⟩ := List.exists_cons_of_ne_nil h
  rw [lastStop_cons, spanOf_cons]

/-- Wherever the text stands in front of white space or the end, it is cut into these tokens, of
    which the first one begins where the text begins and the last one ends where it ends. -/
def CutsInto (w : List Char) (ts : List Token) : Prop :=
  ∀ pos rest, Stops rest → ∃ ls : List Lexeme, ls.map (·.token) = ts ∧
    Syntax.spanOf ls = ⟨pos, pos + byteLength w⟩ ∧
    lexFrom pos (w ++ rest) = (lexFrom (pos + byteLength w) rest).behind ls

/-- The same of a text that can have white space or comments in front of the first token, or be
    empty. -/
def EndsInto (w : List Char) (ts : List Token) : Prop :=
  ∀ pos rest, Stops rest → ∃ ls : List Lexeme, ls.map (·.token) = ts ∧
    lastStop pos ls = pos + byteLength w ∧
    lexFrom pos (w ++ rest) = (lexFrom (pos + byteLength w) rest).behind ls

theorem endsInto_nil : EndsInto [] [] := fun _ _ _ => ⟨[], rfl, rfl, rfl⟩

section
variable {ds w : List Char} {t : Token} {ts : List Token}

theorem CutsInto.endsInto (h : CutsInto w ts) (hts : ts ≠ []) : EndsInto w ts := by
  intro pos rest hrest
  obtain ⟨ls, htokens, hspan, hlex⟩ := h pos rest hrest
  have hls : ls ≠ [] := by
    rintro rfl
    exact hts htokens.symm
  exact ⟨ls, htokens, by rw [lastStop_eq hls, hspan], hlex⟩

/-- A token in front of such a text. -/
theorem EndsInto.cons (h : EndsInto w ts) (hscan : scan c (ds ++ (w ++ us)) = (.token t, ds.length)) :
    CutsInto (c :: ds ++ w) (t :: ts) := by
  intro pos rest hrest
  obtain ⟨ls, htokens, hstop, hlex⟩ := h (pos + byteLength (c :: ds)) rest hrest
  rw [← List.append_assoc] at hscan
  have hagain := scan_append_congr hscan hrest (by simp) (.inl ⟨t, rfl⟩)
  rw [List.append_assoc] at hagain
  refine ⟨⟨t, ⟨pos, pos + byteLength (c :: ds)⟩⟩ :: ls, ?_, ?_, ?_⟩
  · rw [List.map_cons, htokens]
  · rw [spanOf_cons, hstop, Text.byteLength_append, Nat.add_assoc]
  · rw [List.append_assoc, lexFrom_piece hagain, Piece.before, hlex, Text.byteLength_append,
      Nat.add_assoc]
    rfl

/-- White space or a comment in front of such a text. -/
theorem EndsInto.skip (h : EndsInto w ts) (hts : ts ≠ []) (hw : w ≠ [])
    (hscan : scan c (ds ++ (w ++ us)) = (.skipped, ds.length)) : EndsInto (c :: ds ++ w) ts := by
  intro pos rest hrest
  obtain ⟨ls, htokens, hstop, hlex⟩ := h (pos + byteLength (c :: ds)) rest hrest
  have hls : ls ≠ [] := by
    rintro rfl
    exact hts htokens.symm
  rw [← List.append_assoc] at hscan
  have hagain := scan_append_congr hscan hrest (by simp)
    (.inr ⟨rfl, by simpa using List.length_pos_of_ne_nil hw⟩)
  rw [List.append_assoc] at hagain
  refine ⟨ls, htokens, ?_, ?_⟩
  · rw [Text.byteLength_append, ← Nat.add_assoc, ← hstop]
    exact lastStop_of_ne_nil hls _ _
  · rw [List.append_assoc, lexFrom_piece hagain, Piece.before, hlex, Text.byteLength_append,
      Nat.add_assoc]

end

/-- The text up to the end of some tokens is cut into them in every place. -/
theorem exists_text_of_lexemes {pos : Nat} {ls ms : List Lexeme}
    (h : (lexFrom pos cs).lexemes = ls ++ ms) (herrors : (lexFrom pos cs).errors = []) :
    ∃ w rest, cs = w ++ rest ∧ (w = [] ↔ ls = []) ∧ lastStop pos ls = pos + byteLength w ∧
      EndsInto w (ls.map (·.token)) := by
  -- piece by piece, as long as there are tokens left
  induction cs using piecewise generalizing pos ls with
  | nil =>
    rw [lexFrom] at h
    obtain ⟨rfl, -⟩ := List.append_eq_nil_iff.mp h.symm
    exact ⟨[], [], rfl, by simp, rfl, endsInto_nil⟩
  | step c ds rest piece hscan ih =>
    by_cases hls : ls = []
    · subst hls
      exact ⟨[], _, rfl, by simp, rfl, endsInto_nil⟩
    rw [lexFrom_piece hscan] at h herrors
    cases piece with
    | error e => cases herrors
    | skipped =>
      obtain ⟨w, rest, rfl, hw, hstop, hends⟩ := ih h herrors
      have hts : ls.map (·.token) ≠ [] := fun hnil => hls (List.map_eq_nil_iff.mp hnil)
      refine ⟨c :: ds ++ w, rest, by simp, by simp [hls], ?_,
        hends.skip hts (fun hnil => hls (hw.mp hnil)) hscan⟩
      rw [Text.byteLength_append, ← Nat.add_assoc, ← hstop]
      exact lastStop_of_ne_nil hls _ _
    | token t =>
      obtain ⟨l, ls, rfl⟩ := List.exists_cons_of_ne_nil hls
      obtain ⟨rfl, hmore⟩ := List.cons.inj h
      obtain ⟨w, rest, rfl, -, hstop, hends⟩ := ih hmore herrors
      refine ⟨c :: ds ++ w, rest, by simp, by simp, ?_,
        (hends.cons hscan).endsInto (List.cons_ne_nil _ _)⟩
      rw [lastStop_cons, hstop, Text.byteLength_append, Nat.add_assoc]

/-- The text from the first of some tokens to the last is cut into them in every place. -/
theorem cutsInto_of_lexemes {pos : Nat} {before ls ms : List Lexeme} {l : Lexeme}
    (h : (lexFrom pos cs).lexemes = before ++ l :: (ls ++ ms))
    (herrors : (lexFrom pos cs).errors = []) :
    ∃ pre w rest, cs = pre ++ w ++ rest ∧
      Syntax.spanOf (l :: ls) = ⟨pos + byteLength pre, pos + byteLength pre + byteLength w⟩ ∧
      CutsInto w ((l :: ls).map (·.token)) := by
  obtain ⟨pre, c, ds, rest, rfl, hspan, hscan, hls, hrest⟩ := exists_piece h
  obtain ⟨w, rest, rfl, -, hstop, hends⟩ := exists_text_of_lexemes hls (hrest herrors)
  refine ⟨pre, c :: ds ++ w, rest, by simp, ?_, hends.cons hscan⟩
  rw [spanOf_cons, hstop, hspan, Text.byteLength_append, ← Nat.add_assoc]

/-! ## Tokens and names -/

theorem Stops.endsWord {rest : List Char} (h : Stops rest) : EndsWord rest :=
  fun d hd => isIdentRest_of_isSpace (h d hd)

theorem cutsInto_symbol (s : Symbol) : CutsInto [s.char] [.symbol s] :=
  fun pos rest _ => ⟨[⟨.symbol s, ⟨pos, _⟩⟩], rfl, rfl, lexFrom_symbol s rest⟩

theorem cutsInto_word {w : String} (hw : IsWord w) : CutsInto w.toList [word w] :=
  fun pos _ hrest => ⟨[⟨word w, ⟨pos, _⟩⟩], rfl, rfl, lexFrom_word hw hrest.endsWord⟩

theorem cutsInto_keyword (k : Keyword) : CutsInto k.text.toList [.keyword k] := by
  have hword := cutsInto_word k.isWord
  rwa [word, k.ofText?_text] at hword

theorem cutsInto_ident {name : String} (h : IsIdent name) : CutsInto name.toList [.ident name] := by
  have hword := cutsInto_word h.1
  rwa [word_of_isIdent h] at hword

theorem cutsInto_dotted {head : String} {tail : List String} (hhead : IsIdent head)
    (htail : ∀ w ∈ tail, IsWord w) :
    CutsInto (Text.joinWith "." (head :: tail)).toList (dottedTokens head tail) := by
  -- words behind a dot can be reserved, so the induction is about words
  have hwords : ∀ (w : String) (ws : List String), IsWord w → (∀ v ∈ ws, IsWord v) →
      CutsInto (Text.joinWith "." (w :: ws)).toList
        (word w :: ws.flatMap fun v => [.symbol .dot, word v]) := by
    intro w ws hw hws
    induction ws generalizing w with
    | nil => exact cutsInto_word hw
    | cons v ws ih =>
      obtain ⟨hv, hws⟩ := List.forall_mem_cons.mp hws
      intro pos rest hrest
      have hafter := ih v hv hws (pos + byteLength w.toList + byteLength [Symbol.dot.char]) rest hrest
      obtain ⟨ls, htokens, hspan, hlex⟩ := hafter
      have hls : ls ≠ [] := by
        rintro rfl
        cases htokens
      have htext : (Text.joinWith "." (w :: v :: ws)).toList =
          w.toList ++ [Symbol.dot.char] ++ (Text.joinWith "." (v :: ws)).toList := by
        rw [Text.joinWith, String.toList_append, String.toList_append]
        rfl
      have hlength : pos + byteLength (Text.joinWith "." (w :: v :: ws)).toList =
          pos + byteLength w.toList + byteLength [Symbol.dot.char] +
            byteLength (Text.joinWith "." (v :: ws)).toList := by
        rw [htext, Text.byteLength_append, Text.byteLength_append, Nat.add_assoc, Nat.add_assoc,
          Nat.add_assoc]
      refine ⟨⟨word w, ⟨pos, pos + byteLength w.toList⟩⟩ :: ⟨.symbol .dot, ⟨pos + byteLength w.toList,
        pos + byteLength w.toList + byteLength [Symbol.dot.char]⟩⟩ :: ls, ?_, ?_, ?_⟩
      · rw [List.map_cons, List.map_cons, htokens]
        rfl
      · rw [spanOf_cons, lastStop_cons, lastStop_eq hls, hspan, hlength]
      · rw [hlength, htext, List.append_assoc, List.append_assoc, List.singleton_append,
          lexFrom_word hw (endsWord_cons _ (by decide)), lexFrom_symbol, hlex]
        rfl
  have hall := hwords head tail hhead.1 htail
  rwa [word_of_isIdent hhead] at hall

end Lexer

end ActorIdl
