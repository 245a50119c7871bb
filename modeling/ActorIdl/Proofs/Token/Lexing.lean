import ActorIdl.Proofs.Syntax.Names
import Mathlib.Data.List.Forall2
/-! # Lexing a text that is written piece by piece

    A text that begins with a word, a punctuation mark, white space or a line comment is lexed into
    the token of that piece, if there is one, and the lexing of what follows.  A word has to end
    where an identifier could not go on; the other pieces do not depend on what follows them.

    `Lexes cs ts` says that `cs` has no lexical error and is lexed into the tokens `ts`, at whatever
    offset it stands. -/

namespace ActorIdl.Lexer

open Text

/-! ## Classes of characters -/

variable {c : Char}

theorem isIdentStart_of_isSpace (h : isSpace c = true) : isIdentStart c = false := by
  simp only [isSpace, Bool.or_eq_true, decide_eq_true_eq] at h
  rcases h with (((rfl | rfl) | rfl) | rfl) | rfl <;> decide

theorem isIdentStart_of_isDigit (h : c.isDigit = true) : isIdentStart c = false := by
  have hne : c ≠ '_' ∧ c ≠ '$' := by
    constructor <;> rintro rfl <;> exact absurd h (by decide)
  have halpha : c.isAlpha = false := by
    simp only [Char.isDigit, Bool.and_eq_true, decide_eq_true_eq, ge_iff_le,
      UInt32.le_iff_toNat_le] at h
    show (decide ('A'.val ≤ c.val ∧ c.val ≤ 'Z'.val) ||
      (decide ('a'.val ≤ c.val) && decide (c.val ≤ 'z'.val))) = false
    simp only [Bool.or_eq_false_iff, Bool.and_eq_false_imp, decide_eq_true_eq,
      decide_eq_false_iff_not, UInt32.le_iff_toNat_le]
    have h9 : '9'.val.toNat = 57 := rfl
    have hA : 'A'.val.toNat = 65 := rfl
    have ha : 'a'.val.toNat = 97 := rfl
    omega
  simp [isIdentStart, halpha, hne]

/-- A word in front of the text cannot go on into it. -/
def EndsWord (rest : List Char) : Prop := ∀ d ∈ rest.head?, isIdentRest d = false

theorem endsWord_cons (cs : List Char) (hc : isIdentRest c = false) : EndsWord (c :: cs) := by
  intro d hd
  cases hd
  exact hc

/-! ## One piece at the start of a text -/

theorem scan_word {cs rest : List Char} (hc : isIdentStart c = true)
    (hcs : ∀ d ∈ cs, isIdentRest d = true) (hrest : EndsWord rest) :
    scan c (cs ++ rest) = (.token (word (String.ofList (c :: cs))), cs.length) := by
  have hspace : isSpace c = false := by
    cases h : isSpace c with
    | false => rfl
    | true => exact absurd hc (by simp [isIdentStart_of_isSpace h])
  have hdigit : c.isDigit = false := by
    cases h : c.isDigit with
    | false => rfl
    | true => exact absurd hc (by simp [isIdentStart_of_isDigit h])
  have hne : ∀ d, isIdentStart d = false → c ≠ d := by
    rintro d hd rfl
    exact absurd hc (by simp [hd])
  have htake : (cs ++ rest).takeWhile isIdentRest = cs := by
    rw [List.takeWhile_append_of_pos hcs]
    cases rest with
    | nil => rw [List.takeWhile_nil, List.append_nil]
    | cons d ds => rw [List.takeWhile_cons, hrest d rfl, if_neg (by decide), List.append_nil]
  unfold scan
  rw [htake]
  simp [hspace, hdigit, hc, hne '/' (by decide), hne '"' (by decide), hne '-' (by decide)]

theorem scan_symbol (s : Symbol) (cs : List Char) : scan s.char cs = (.token (.symbol s), 0) := by
  cases s <;> rfl

/-! ## The lexing from that piece on -/

variable {pos : Nat}

theorem lexFrom_piece {cs rest : List Char} {piece : Piece}
    (h : scan c (cs ++ rest) = (piece, cs.length)) :
    lexFrom pos (c :: cs ++ rest) = piece.before ⟨pos, pos + byteLength (c :: cs)⟩
      (lexFrom (pos + byteLength (c :: cs)) rest) := by
  rw [List.cons_append, lexFrom, h]
  dsimp only
  rw [List.take_left, List.drop_left]

theorem lexFrom_word {w : String} (hw : IsWord w) {rest : List Char} (hrest : EndsWord rest) :
    lexFrom pos (w.toList ++ rest) = (Piece.token (word w)).before
      ⟨pos, pos + byteLength w.toList⟩ (lexFrom (pos + byteLength w.toList) rest) := by
  obtain ⟨c, cs, hchars, hc, hcs⟩ := hw
  have hword : String.ofList (c :: cs) = w := by rw [← hchars, String.ofList_toList]
  rw [hchars, lexFrom_piece (scan_word hc hcs hrest), hword]

theorem lexFrom_symbol (s : Symbol) (rest : List Char) :
    lexFrom pos (s.char :: rest) = (Piece.token (.symbol s)).before
      ⟨pos, pos + byteLength [s.char]⟩ (lexFrom (pos + byteLength [s.char]) rest) :=
  @lexFrom_piece s.char pos [] rest _ (scan_symbol s rest)

/-- White space is skipped one character at a time, although it is cut into longer pieces. -/
theorem lexFrom_space (hc : isSpace c = true) (rest : List Char) :
    lexFrom pos (c :: rest) = lexFrom (pos + c.utf8Size) rest := by
  have hscan : ∀ d ds, isSpace d = true →
      scan d ds = (.skipped, (ds.takeWhile isSpace).length) := by
    intro d ds hd
    unfold scan
    rw [if_pos hd]
  rw [lexFrom, hscan c rest hc]
  cases rest with
  | nil => simp only [lexFrom, Piece.before, List.takeWhile_nil, List.drop_nil]
  | cons d ds =>
    dsimp only [Piece.before]
    by_cases hd : isSpace d = true
    · -- the piece goes on, as the piece that begins at the next character does
      rw [lexFrom, hscan d ds hd, List.takeWhile_cons, if_pos hd, List.length_cons,
        List.drop_succ_cons, List.take_succ_cons]
      dsimp only [Piece.before, byteLength]
      rw [Nat.add_assoc]
    · rw [List.takeWhile_cons, if_neg hd]
      rfl

/-- A line comment ends in front of the line feed. -/
theorem lexFrom_lineComment {body rest : List Char} (hbody : '\n' ∉ body) :
    lexFrom pos ('/' :: '/' :: body ++ '\n' :: rest) =
      lexFrom (pos + byteLength ('/' :: '/' :: body)) ('\n' :: rest) := by
  have hline : ∀ d ∈ '/' :: body, (decide (d ≠ '\n')) = true := by
    rintro d hd
    rw [decide_eq_true_eq]
    rintro rfl
    rcases List.mem_cons.mp hd with hd | hd
    · exact absurd hd (by decide)
    · exact hbody hd
  have hscan : scan '/' (('/' :: body) ++ '\n' :: rest) = (.skipped, ('/' :: body).length) := by
    unfold scan
    rw [if_neg (by decide), if_pos ⟨rfl, rfl⟩, List.takeWhile_append_of_pos hline,
      List.takeWhile_cons, if_neg (by decide), List.append_nil]
  exact lexFrom_piece hscan

/-! ## Texts and their tokens -/

/-- The tokens of a dotted name. -/
def dottedTokens (head : String) (tail : List String) : List Token :=
  .ident head :: tail.flatMap fun w => [.symbol .dot, word w]

theorem word_of_isIdent {s : String} (h : IsIdent s) : word s = .ident s := by
  rw [word, h.2]

/-- Lexed without an error into these tokens, wherever the text begins. -/
def Lexes (cs : List Char) (ts : List Token) : Prop :=
  ∀ pos, (lexFrom pos cs).errors = [] ∧ (lexFrom pos cs).lexemes.map (·.token) = ts

namespace Lexes

variable {rest : List Char} {ts : List Token}

theorem nil : Lexes [] [] := by
  intro pos
  rw [lexFrom]
  exact ⟨rfl, rfl⟩

/-- A token in front of a text. -/
theorem token {cs : List Char} {t : Token}
    (hpiece : ∀ pos, ∃ span stop, lexFrom pos cs = (Piece.token t).before span (lexFrom stop rest))
    (h : Lexes rest ts) : Lexes cs (t :: ts) := by
  intro pos
  obtain ⟨span, stop, heq⟩ := hpiece pos
  obtain ⟨herrors, htokens⟩ := h stop
  rw [heq]
  exact ⟨herrors, congrArg (t :: ·) htokens⟩

theorem word {w : String} (hw : IsWord w) (hrest : EndsWord rest) (h : Lexes rest ts) :
    Lexes (w.toList ++ rest) (Lexer.word w :: ts) :=
  h.token fun _ => ⟨_, _, lexFrom_word hw hrest⟩

theorem symbol (s : Symbol) (h : Lexes rest ts) : Lexes (s.char :: rest) (.symbol s :: ts) :=
  h.token fun _ => ⟨_, _, lexFrom_symbol s rest⟩

theorem space (hc : isSpace c = true) (h : Lexes rest ts) : Lexes (c :: rest) ts := by
  intro pos
  rw [lexFrom_space hc]
  exact h _

theorem lineComment {body : List Char} (hbody : '\n' ∉ body) (h : Lexes rest ts) :
    Lexes ('/' :: '/' :: body ++ '\n' :: rest) ts := by
  intro pos
  rw [lexFrom_lineComment hbody]
  exact h.space (by decide) _

/-! ## Names -/

theorem ident {name : String} (hname : IsIdent name) (hrest : EndsWord rest)
    (h : Lexes rest ts) : Lexes (name.toList ++ rest) (.ident name :: ts) := by
  rw [← word_of_isIdent hname]
  exact h.word hname.1 hrest

theorem keyword (k : Keyword) (hrest : EndsWord rest) (h : Lexes rest ts) :
    Lexes (k.text.toList ++ rest) (.keyword k :: ts) := by
  have hword : Lexer.word k.text = .keyword k := by rw [Lexer.word, k.ofText?_text]
  rw [← hword]
  exact h.word k.isWord hrest

theorem keyword_space (k : Keyword) (h : Lexes rest ts) :
    Lexes (k.text.toList ++ ' ' :: rest) (.keyword k :: ts) :=
  (h.space (by decide)).keyword k (endsWord_cons _ (by decide))

/-- The end of a line of a declaration. -/
theorem semi_newline (h : Lexes rest ts) :
    Lexes (Symbol.semi.char :: '\n' :: rest) (.symbol .semi :: ts) :=
  (h.space (by decide)).symbol .semi

theorem dotted {head : String} {tail : List String} (hhead : IsIdent head)
    (htail : ∀ w ∈ tail, IsWord w) (hrest : EndsWord rest) (h : Lexes rest ts) :
    Lexes ((Text.joinWith "." (head :: tail)).toList ++ rest) (dottedTokens head tail ++ ts) := by
  -- words behind a dot can be reserved, so the induction is about words
  have hwords : ∀ (w : String) (ws : List String), IsWord w → (∀ v ∈ ws, IsWord v) →
      Lexes ((Text.joinWith "." (w :: ws)).toList ++ rest)
        (Lexer.word w :: (ws.flatMap fun v => [.symbol .dot, Lexer.word v]) ++ ts) := by
    intro w ws hw hws
    induction ws generalizing w with
    | nil => exact h.word hw hrest
    | cons v ws ih =>
      obtain ⟨hv, hws⟩ := List.forall_mem_cons.mp hws
      have hdot := ((ih v hv hws).symbol .dot).word hw (endsWord_cons _ (by decide))
      rw [Text.joinWith, String.toList_append, String.toList_append, List.append_assoc,
        List.append_assoc]
      exact hdot
  have hall := hwords head tail hhead.1 htail
  rwa [word_of_isIdent hhead] at hall

end Lexes

/-! ## Lines -/

/-- A line of a source with the tokens in it. -/
def LexesLine (line : String) (ts : List Token) : Prop :=
  ∀ rest us, Lexes rest us → Lexes (line.toList ++ '\n' :: rest) (ts ++ us)

theorem lexesLine_blank : LexesLine "" [] := fun _ _ h => h.space (by decide)

theorem lexesLine_comment {body : String} (hbody : '\n' ∉ body.toList) :
    LexesLine ("// " ++ body) [] := by
  intro rest us h
  have hline : '\n' ∉ ' ' :: body.toList := by simp [hbody]
  have hslashes : "// ".toList = ['/', '/', ' '] := rfl
  rw [String.toList_append, hslashes]
  exact h.lineComment hline

theorem lexes_lines {lines : List String} {tss : List (List Token)}
    (h : List.Forall₂ LexesLine lines tss) :
    Lexes (String.join (lines.map (· ++ "\n"))).toList tss.flatten := by
  have hchars : ∀ lines : List String, (String.join (lines.map (· ++ "\n"))).toList =
      lines.flatMap fun line => line.toList ++ ['\n'] := by
    intro lines
    simp [String.toList_join, List.flatMap_map, String.toList_append]
  rw [hchars]
  -- from the last line to the first, since a line is lexed in front of what follows it
  induction h with
  | nil => exact .nil
  | @cons line ts lines tss hline _ ih =>
    have hfirst := hline _ _ ih
    rw [List.flatMap_cons, List.flatten_cons, List.append_assoc]
    exact hfirst

end ActorIdl.Lexer
