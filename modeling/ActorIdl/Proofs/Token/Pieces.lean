import ActorIdl.Proofs.Token.Lexing
import Mathlib.Data.List.Chain
/-! # Where the tokens of a source stand

    A token of a source was found by `scan` in front of what follows it, its span covers exactly
    the characters that were found, and what follows is lexed on its own.  So the text of a word is
    the text of the source at its span. -/

namespace ActorIdl

namespace Text

/-! ## Characters and bytes -/

@[simp] theorem byteLength_append (as bs : List Char) :
    byteLength (as ++ bs) = byteLength as + byteLength bs := by
  induction as with
  | nil => rw [List.nil_append, byteLength, Nat.zero_add]
  | cons a as ih => rw [List.cons_append, byteLength, byteLength, ih, Nat.add_assoc]

theorem dropBytes_append (as bs : List Char) : dropBytes (byteLength as) (as ++ bs) = bs := by
  induction as with
  | nil => rw [byteLength, List.nil_append, dropBytes]
  | cons a as ih =>
    -- a character takes at least one byte, so the recursion is on it
    obtain ⟨n, hn⟩ := Nat.exists_eq_add_one.mpr a.utf8Size_pos
    rw [byteLength, hn, Nat.add_right_comm, List.cons_append, dropBytes, hn, Nat.add_right_comm,
      Nat.add_sub_cancel_left, ih]

theorem takeBytes_append (as bs : List Char) : takeBytes (byteLength as) (as ++ bs) = as := by
  induction as with
  | nil => rw [byteLength, List.nil_append, takeBytes]
  | cons a as ih =>
    obtain ⟨n, hn⟩ := Nat.exists_eq_add_one.mpr a.utf8Size_pos
    rw [byteLength, hn, Nat.add_right_comm, List.cons_append, takeBytes, hn, Nat.add_right_comm,
      Nat.add_sub_cancel_left, ih]

/-- The text that stands between two offsets is what was written there. -/
theorem slice_append (pre mid rest : List Char) :
    slice (pre ++ mid ++ rest) (byteLength pre) (byteLength pre + byteLength mid) = mid := by
  rw [slice, Nat.add_sub_cancel_left, List.append_assoc, dropBytes_append, takeBytes_append]

end Text

/-- An identifier or a reserved word is written like this. -/
def Token.IsWritten (text : String) : Token → Prop
  | .ident name => name = text
  | .keyword k => k.text = text
  | _ => True

namespace Lexer

open Text (byteLength)

variable {c : Char} {ds rest cs : List Char} {t : Token} {pos : Nat}

/-! ## The longest match of each pattern -/

/-- Two neighbours that do not end a block comment. -/
def Apart (c d : Char) : Prop := ¬(c = '*' ∧ d = '/')

instance (c d : Char) : Decidable (Apart c d) := inferInstanceAs (Decidable ¬(c = '*' ∧ d = '/'))

/-- The body of a comment goes up to the first end. -/
theorem commentBody_eq_some {body : List Char} (h : commentBody cs = some body) :
    body.IsChain Apart ∧ ∃ rest, cs = body ++ '*' :: '/' :: rest := by
  -- up to the first star with a slash behind it
  induction cs generalizing body with
  | nil => cases h
  | cons c cs ih =>
    rw [commentBody] at h
    split at h
    · rename_i hend
      obtain ⟨rest, rfl⟩ := List.head?_eq_some_iff.mp hend.2
      cases h
      exact ⟨.nil, rest, by rw [hend.1]; rfl⟩
    · rename_i hend
      obtain ⟨body, hbody, rfl⟩ := Option.map_eq_some_iff.mp h
      obtain ⟨hchain, rest, rfl⟩ := ih hbody
      refine ⟨List.isChain_cons.mpr ⟨fun d hd hclose => hend ⟨hclose.1, ?_⟩, hchain⟩, rest, rfl⟩
      rw [List.head?_append, hd, hclose.2]
      rfl

theorem commentBody_append {body : List Char} (h : body.IsChain Apart) (rest : List Char) :
    commentBody (body ++ '*' :: '/' :: rest) = some body := by
  induction body with
  | nil => rfl
  | cons c body ih =>
    obtain ⟨hnext, hbody⟩ := List.isChain_cons.mp h
    rw [List.cons_append, commentBody, ih hbody, if_neg]
    · rfl
    · rintro ⟨hstar, hslash⟩
      cases body with
      | nil => cases hslash
      | cons d body => exact hnext d rfl ⟨hstar, Option.some.inj hslash⟩

/-- The body of a closed comment is found behind the opening. -/
theorem commentBody_closed {body : List Char} (h : body.IsChain Apart) (rest : List Char) :
    commentBody (('*' :: (body ++ ['*', '/']) ++ rest).drop 1) = some body := by
  have happend := commentBody_append h rest
  simpa using happend

theorem prefix_stringRun (cs : List Char) : stringRun cs <+: cs := by
  fun_induction stringRun cs with
  | case1 => exact List.prefix_refl _
  | case2 => exact List.nil_prefix
  | case3 => exact List.nil_prefix
  | case4 => exact List.nil_prefix
  | case5 d ds _ _ ih => exact (List.prefix_cons_inj _).mpr ((List.prefix_cons_inj d).mpr ih)
  | case6 c cs _ _ ih => exact (List.prefix_cons_inj c).mpr ih

theorem prefix_fraction (cs : List Char) : fraction cs <+: cs := by
  unfold fraction
  split
  · split
    · exact List.nil_prefix
    · exact (List.prefix_cons_inj _).mpr (List.takeWhile_prefix _)
  · exact List.nil_prefix

theorem prefix_numeral (cs : List Char) : numeral cs <+: cs := by
  have hall : cs.takeWhile Char.isDigit ++ fraction (cs.dropWhile Char.isDigit) <+:
      cs.takeWhile Char.isDigit ++ cs.dropWhile Char.isDigit :=
    (List.prefix_append_right_inj _).mpr (prefix_fraction _)
  rwa [List.takeWhile_append_dropWhile] at hall

/-- A piece does not reach beyond the text. -/
theorem scan_length_le (c : Char) (cs : List Char) : (scan c cs).2 ≤ cs.length := by
  have htake : ∀ p : Char → Bool, (cs.takeWhile p).length ≤ cs.length :=
    fun p => (List.takeWhile_prefix p).length_le
  unfold scan
  split
  · exact htake _
  split
  · exact htake _
  split
  · rename_i hopen
    split
    · exact Nat.le_refl _
    · rename_i body hbody
      -- the mark at the front, the body and the mark behind it stand in `cs`
      have hlength : body.length + 3 ≤ cs.length := by
        obtain ⟨ds, rfl⟩ := List.head?_eq_some_iff.mp hopen.2
        obtain ⟨_, rest, hrest⟩ := commentBody_eq_some hbody
        rw [List.drop_one, List.tail_cons] at hrest
        rw [hrest]
        simp only [List.length_cons, List.length_append]
        omega
      split
      · exact hlength
      · exact hlength
  split
  · dsimp only
    split
    · rename_i hquote
      -- the closing quote is behind the run
      have hleft : (cs.drop (stringRun cs).length).length ≠ 0 := by
        intro hnil
        rw [List.length_eq_zero_iff.mp hnil] at hquote
        cases hquote
      rw [List.length_drop] at hleft
      show (stringRun cs).length + 1 ≤ cs.length
      omega
    · exact (prefix_stringRun cs).length_le
  split
  · exact (prefix_numeral cs).length_le
  split
  · exact (prefix_numeral cs).length_le
  split
  · exact htake _
  split
  · exact Nat.zero_le _
  · exact Nat.zero_le _

/-! ## Tokens -/

theorem isWritten_word (w : String) : (word w).IsWritten w := by
  unfold word
  cases h : Keyword.ofText? w with
  | some k => exact Keyword.text_of_ofText? h
  | none => rfl

/-- What is found at the start of a text is known from its length. -/
theorem eq_of_prefix_append {cs : List Char} (h : cs <+: ds ++ rest)
    (hlength : cs.length = ds.length) : cs = ds :=
  (List.prefix_of_prefix_length_le h (List.prefix_append ds rest) hlength.le).eq_of_length hlength

theorem takeWhile_eq_of_length {p : Char → Bool} (h : ((ds ++ rest).takeWhile p).length = ds.length) :
    (ds ++ rest).takeWhile p = ds :=
  eq_of_prefix_append (List.takeWhile_prefix p) h

/-! ## What is found at the start of a text -/

theorem isDigit_of_isSpace (h : isSpace c = true) : c.isDigit = false := by
  simp only [isSpace, Bool.or_eq_true, decide_eq_true_eq] at h
  rcases h with (((rfl | rfl) | rfl) | rfl) | rfl <;> decide

/-- A piece that can be found at the start of a text, other than an error, and how many characters
    behind the first one belong to it. -/
inductive Finds (c : Char) (cs : List Char) : Piece → Nat → Prop where
  | space (hc : isSpace c = true) : Finds c cs .skipped (cs.takeWhile isSpace).length
  | lineComment (hc : c = '/') (hcs : cs.head? = some '/') :
      Finds c cs .skipped (cs.takeWhile (· ≠ '\n')).length
  | docComment {body : List Char} (hc : c = '/') (hcs : cs.head? = some '*')
      (hbody : commentBody (cs.drop 1) = some ('*' :: body)) :
      Finds c cs (.token (.doc (String.ofList (DocComment.clean body)))) (body.length + 4)
  | comment {body : List Char} (hc : c = '/') (hcs : cs.head? = some '*')
      (hbody : commentBody (cs.drop 1) = some body) (hdoc : ∀ doc, body ≠ '*' :: doc) :
      Finds c cs .skipped (body.length + 3)
  | string (hc : c = '"') (hclose : (cs.drop (stringRun cs).length).head? = some '"') :
      Finds c cs (.token (.string (String.ofList (stringRun cs)))) ((stringRun cs).length + 1)
  | number (hc : c.isDigit = true) :
      Finds c cs (.token (.number (String.ofList (c :: numeral cs)))) (numeral cs).length
  | negative (hc : c = '-') (hcs : cs.head?.map Char.isDigit = some true) :
      Finds c cs (.token (.number (String.ofList (c :: numeral cs)))) (numeral cs).length
  | word (hc : isIdentStart c = true) :
      Finds c cs (.token (word (String.ofList (c :: cs.takeWhile isIdentRest))))
        (cs.takeWhile isIdentRest).length
  | symbol {s : Symbol} (hc : c = s.char) : Finds c cs (.token (.symbol s)) 0

theorem finds_of_scan {n : Nat} {piece : Piece} (h : scan c cs = (piece, n))
    (herror : ∀ e, piece ≠ .error e) : Finds c cs piece n := by
  -- one case for each kind of piece, in the order in which they are tried
  unfold scan at h
  split at h
  · cases h
    exact .space ‹_›
  split at h
  · cases h
    exact .lineComment (And.left ‹_›) (And.right ‹_›)
  split at h
  · -- a comment between marks has to end
    rename_i hopen
    split at h
    · cases h
      exact absurd rfl (herror _)
    · rename_i hbody
      split at h
      · cases h
        exact .docComment hopen.1 hopen.2 hbody
      · rename_i hdoc
        cases h
        exact .comment hopen.1 hopen.2 hbody hdoc
  split at h
  · -- a string has to be closed
    dsimp only at h
    split at h
    · cases h
      exact .string ‹_› ‹_›
    · cases h
      exact absurd rfl (herror _)
  split at h
  · cases h
    exact .number ‹_›
  split at h
  · cases h
    exact .negative (And.left ‹_›) (And.right ‹_›)
  split at h
  · cases h
    exact .word ‹_›
  split at h
  · rename_i hsymbol
    cases h
    exact .symbol (Eq.symm (by simpa using List.find?_some hsymbol))
  · cases h
    exact absurd rfl (herror _)

theorem Finds.scan_eq {n : Nat} {piece : Piece} (h : Finds c cs piece n) :
    scan c cs = (piece, n) := by
  -- every piece before the one found is tried and is not there
  cases h with
  | space hc => rw [scan, if_pos hc]
  | lineComment hc hcs =>
    subst hc
    rw [scan, if_neg (by decide), if_pos ⟨rfl, hcs⟩]
  | docComment hc hcs hbody =>
    subst hc
    rw [scan, if_neg (by decide), if_neg (by simp [hcs]), if_pos ⟨rfl, hcs⟩, hbody]
    rfl
  | @comment body hc hcs hbody hdoc =>
    subst hc
    rw [scan, if_neg (by decide), if_neg (by simp [hcs]), if_pos ⟨rfl, hcs⟩, hbody]
    dsimp only
    split
    · exact absurd rfl (hdoc _)
    · rfl
  | string hc hclose =>
    subst hc
    rw [scan, if_neg (by decide), if_neg (by simp), if_neg (by simp), if_pos rfl]
    exact if_pos hclose
  | number hc =>
    have hspace : isSpace c = false := by
      cases h : isSpace c with
      | false => rfl
      | true => exact absurd hc (by simp [isDigit_of_isSpace h])
    have hne : ∀ d : Char, d.isDigit = false → c ≠ d := by
      rintro d hd rfl
      exact absurd hc (by simp [hd])
    simp [scan, hspace, hc, hne '/' (by decide), hne '"' (by decide)]
  | negative hc hcs =>
    subst hc
    rw [scan, if_neg (by decide), if_neg (by simp), if_neg (by simp), if_neg (by decide),
      if_neg (by decide), if_pos ⟨rfl, hcs⟩]
  | word hc =>
    have hends : EndsWord (cs.dropWhile isIdentRest) := by
      intro d hd
      have hnot := List.head?_dropWhile_not isIdentRest cs
      rw [hd] at hnot
      exact hnot
    have hrest : ∀ d ∈ cs.takeWhile isIdentRest, isIdentRest d = true :=
      fun d hd => List.mem_takeWhile_imp hd
    have hword := scan_word hc hrest hends
    rwa [List.takeWhile_append_dropWhile] at hword
  | symbol hc =>
    subst hc
    exact scan_symbol _ _

theorem Finds.exists_doc {n : Nat} {text : String} (h : Finds c cs (.token (.doc text)) n) :
    ∃ body, commentBody (cs.drop 1) = some ('*' :: body) ∧
      text = String.ofList (DocComment.clean body) := by
  generalize hpiece : Piece.token (.doc text) = piece at h
  cases h with
  | docComment _ _ hbody =>
    cases hpiece
    exact ⟨_, hbody, rfl⟩
  | word =>
    -- a word is not a doc comment
    have hword := Piece.token.inj hpiece
    unfold Lexer.word at hword
    split at hword <;> cases hword
  | _ => cases hpiece

theorem isWritten_of_scan (h : scan c (ds ++ rest) = (.token t, ds.length)) :
    t.IsWritten (String.ofList (c :: ds)) := by
  have hfinds := finds_of_scan h fun e he => by cases he
  generalize hpiece : Piece.token t = piece at hfinds
  generalize hn : ds.length = n at hfinds
  cases hfinds with
  | space => cases hpiece
  | lineComment => cases hpiece
  | comment => cases hpiece
  | word hc =>
    cases hpiece
    rw [takeWhile_eq_of_length hn.symm]
    exact isWritten_word _
  | _ =>
    cases hpiece
    trivial

/-! ## From piece to piece -/

/-- What holds of no text and, piece by piece, of longer ones holds of every text. -/
theorem piecewise {motive : List Char → Prop} (nil : motive [])
    (step : ∀ c ds rest piece, scan c (ds ++ rest) = (piece, ds.length) → motive rest →
      motive (c :: ds ++ rest)) (cs : List Char) : motive cs := by
  -- on the length, since each piece takes at least one character
  induction hn : cs.length using Nat.strong_induction_on generalizing cs with
  | _ n ih =>
    cases cs with
    | nil => exact nil
    | cons c cs =>
      have hcut : cs = cs.take (scan c cs).2 ++ cs.drop (scan c cs).2 :=
        (List.take_append_drop _ _).symm
      have hscan : scan c (cs.take (scan c cs).2 ++ cs.drop (scan c cs).2) =
          ((scan c cs).1, (cs.take (scan c cs).2).length) := by
        rw [← hcut, List.length_take_of_le (scan_length_le c cs)]
      have hrest : (cs.drop (scan c cs).2).length < n := by
        rw [← hn, List.length_drop, List.length_cons]
        omega
      have hall := step c _ _ _ hscan (ih _ hrest _ rfl)
      rwa [List.cons_append, ← hcut] at hall

/-- A lexeme is a piece of the source, and behind it the lexing goes on. -/
theorem exists_piece {ls ms : List Lexeme} {l : Lexeme}
    (h : (lexFrom pos cs).lexemes = ls ++ l :: ms) :
    ∃ pre c ds rest, cs = pre ++ (c :: ds) ++ rest ∧
      l.span = ⟨pos + byteLength pre, pos + byteLength pre + byteLength (c :: ds)⟩ ∧
      scan c (ds ++ rest) = (.token l.token, ds.length) ∧
      (lexFrom l.span.stop rest).lexemes = ms ∧
      ((lexFrom pos cs).errors = [] → (lexFrom l.span.stop rest).errors = []) := by
  induction cs using piecewise generalizing pos ls with
  | nil =>
    rw [lexFrom] at h
    cases ls <;> cases h
  | step c ds rest piece hscan ih =>
    rw [lexFrom_piece hscan] at h ⊢
    -- a token further on is one of what follows this piece
    have hlater : ∀ {ls}, (lexFrom (pos + byteLength (c :: ds)) rest).lexemes = ls ++ l :: ms →
        ∃ pre d es more, c :: ds ++ rest = pre ++ (d :: es) ++ more ∧
          l.span = ⟨pos + byteLength pre, pos + byteLength pre + byteLength (d :: es)⟩ ∧
          scan d (es ++ more) = (.token l.token, es.length) ∧
          (lexFrom l.span.stop more).lexemes = ms ∧
          ((lexFrom (pos + byteLength (c :: ds)) rest).errors = [] →
            (lexFrom l.span.stop more).errors = []) := by
      intro ls hls
      obtain ⟨pre, d, es, more, rfl, hspan, hd, hms, herrors⟩ := ih hls
      refine ⟨(c :: ds) ++ pre, d, es, more, ?_, ?_, hd, hms, herrors⟩
      · rw [List.append_assoc, List.append_assoc, List.append_assoc]
      · rw [hspan, Text.byteLength_append, ← Nat.add_assoc]
    cases piece with
    | skipped => exact hlater h
    | error e =>
      obtain ⟨pre, d, es, more, hcs, hspan, hd, hms, _⟩ := hlater h
      exact ⟨pre, d, es, more, hcs, hspan, hd, hms, fun hnil => by cases hnil⟩
    | token t =>
      cases ls with
      | nil =>
        obtain ⟨rfl, hms⟩ := List.cons.inj h
        exact ⟨[], c, ds, rest, rfl, rfl, hscan, hms, fun herrors => herrors⟩
      | cons l' ls => exact hlater (List.cons.inj h).2

/-- Identifiers and reserved words are written in the source as they are read. -/
theorem isWritten_of_mem {l : Lexeme} (h : l ∈ (lexFrom 0 cs).lexemes) :
    l.token.IsWritten (String.ofList (Text.slice cs l.span.start l.span.stop)) := by
  obtain ⟨ls, ms, hls⟩ := List.append_of_mem h
  obtain ⟨pre, c, ds, rest, rfl, hspan, hscan, _⟩ := exists_piece hls
  rw [hspan, Nat.zero_add, Text.slice_append]
  exact isWritten_of_scan hscan

end Lexer

end ActorIdl
