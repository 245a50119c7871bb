import ActorIdl.Proofs.Token.Patterns
/-! # Lexing tiles the source with longest matches

    The pieces of a source follow each other without a gap and without an overlap, from its first
    character to its last.  Each piece that is a token or is skipped is the longest text that any
    pattern matches there; a piece is an error only where no pattern matches at all.

    `Tiles pos cs tiles` says so of the pieces of a text at an offset.  The tokens and the errors of
    a source are those of its tiles, merged by position. -/

namespace ActorIdl.Lexer

open Text (byteLength)

/-! ## One piece -/

/-- No pattern matches more than the text where it stands in front of the rest. -/
def Longest (text rest : List Char) : Prop :=
  ∀ m, m <+: text ++ rest → IsMatch m → m.length ≤ text.length

/-- How far an error goes: an open block comment up to the end of the source, an open string up to
    the end of its content, anything else for one character. -/
inductive Fails (text rest : List Char) : LexicalError → Prop where
  | openComment {body : List Char} (htext : text = '/' :: '*' :: body) (hbody : body.IsChain Apart)
      (hrest : rest = []) : Fails text rest .unclosedComment
  | openString {content : List Char} (htext : text = '"' :: content) (hcontent : IsContent content)
      (hlongest : ∀ m, m <+: content ++ rest → IsContent m → m.length ≤ content.length) :
      Fails text rest (.unexpected text)
  | character {c : Char} (htext : text = [c]) (hquote : c ≠ '"')
      (hcomment : ¬['/', '*'] <+: text ++ rest) : Fails text rest (.unexpected text)

/-- The text is the piece that longest match finds in front of the rest. -/
inductive Munches (text rest : List Char) : Piece → Prop where
  | skipped (hskips : Skips text) (hlongest : Longest text rest) : Munches text rest .skipped
  | token {t : Token} (hmatches : Matches text t) (hlongest : Longest text rest)
      (hkeyword : ∀ k : Keyword, text = k.text.toList → t = .keyword k) :
      Munches text rest (.token t)
  | error {e : LexicalError} (hnone : ∀ m, m <+: text ++ rest → ¬IsMatch m)
      (hfails : Fails text rest e) : Munches text rest (.error e)

variable {c : Char} {ds rest : List Char} {piece : Piece}

theorem longest_of_finds (h : Finds c (ds ++ rest) piece ds.length) : Longest (c :: ds) rest := by
  intro m hprefix hmatch
  obtain ⟨piece', n, hfinds, hle⟩ := exists_finds hmatch hprefix
  -- both are what `scan` finds
  have hsame : (piece, ds.length) = (piece', n) := h.scan_eq.symm.trans hfinds.scan_eq
  rw [← (Prod.mk.inj hsame).2] at hle
  exact hle

theorem keyword_of_finds {t : Token} (h : Finds c (ds ++ rest) (.token t) ds.length) {k : Keyword}
    (hk : c :: ds = k.text.toList) : t = .keyword k := by
  obtain ⟨d, ds', hchars, hd, -⟩ := k.isWord
  obtain ⟨rfl, -⟩ := List.cons.inj (hk.trans hchars)
  have hword : Finds c (ds ++ rest) _ _ := .word hd
  obtain ⟨hpiece, hlength⟩ := Prod.mk.inj (h.scan_eq.symm.trans hword.scan_eq)
  rw [takeWhile_eq_of_length hlength.symm, hk, String.ofList_toList, word, k.ofText?_text] at hpiece
  exact Piece.token.inj hpiece

/-- No content at the start of a text is longer than the one that is found. -/
theorem IsContent.length_le_stringRun {m cs : List Char} (hm : IsContent m) (h : m <+: cs) :
    m.length ≤ (stringRun cs).length := by
  obtain ⟨more, rfl⟩ := h
  rw [hm.stringRun_append, List.length_append]
  exact Nat.le_add_right _ _

theorem eq_nil_of_length_append (h : (ds ++ rest).length = ds.length) : rest = [] := by
  rw [List.length_append] at h
  exact List.length_eq_zero_iff.mp (Nat.add_eq_left.mp h)

/-- Where `scan` finds an error it goes as far as it should. -/
theorem fails_of_scan {e : LexicalError} (h : scan c (ds ++ rest) = (.error e, ds.length)) :
    Fails (c :: ds) rest e := by
  unfold scan at h
  split at h
  · cases h
  split at h
  · cases h
  split at h
  · rename_i hopen
    split at h
    · rename_i hnone
      obtain ⟨herror, hlength⟩ := Prod.mk.inj h
      obtain rfl := Piece.error.inj herror
      -- the piece goes up to the end
      obtain rfl := eq_nil_of_length_append hlength
      rw [List.append_nil] at hopen hnone
      obtain ⟨rfl, hstar⟩ := hopen
      obtain ⟨body, rfl⟩ := List.head?_eq_some_iff.mp hstar
      exact .openComment rfl (isChain_of_commentBody hnone) rfl
    · split at h <;> cases h
  rename_i hcomment
  split at h
  · rename_i hquote
    dsimp only at h
    split at h
    · cases h
    · obtain ⟨herror, hlength⟩ := Prod.mk.inj h
      have hrun := eq_of_prefix_append (prefix_stringRun _) hlength
      rw [hrun] at herror
      obtain rfl := Piece.error.inj herror
      refine .openString (by rw [hquote]) (hrun ▸ isContent_stringRun _) fun m hprefix hm => ?_
      exact hlength ▸ hm.length_le_stringRun hprefix
  rename_i hquote
  split at h
  · cases h
  split at h
  · cases h
  split at h
  · cases h
  split at h
  · cases h
  · obtain ⟨herror, hlength⟩ := Prod.mk.inj h
    obtain rfl := Piece.error.inj herror
    obtain rfl := List.length_eq_zero_iff.mp hlength.symm
    refine .character rfl hquote fun hopen => hcomment ?_
    obtain ⟨hc, more, hmore⟩ := List.cons_prefix_cons.mp hopen
    exact ⟨hc.symm, congrArg List.head? hmore.symm⟩

/-- What `scan` finds is the longest match. -/
theorem munches_of_scan (h : scan c (ds ++ rest) = (piece, ds.length)) :
    Munches (c :: ds) rest piece := by
  have htake : (ds ++ rest).take ds.length = ds := List.take_left
  cases piece with
  | skipped =>
    have hfinds := finds_of_scan h fun e he => by cases he
    rcases hfinds.fits with ⟨-, hskips⟩ | ⟨t, ht, -⟩
    · rw [htake] at hskips
      exact .skipped hskips (longest_of_finds hfinds)
    · cases ht
  | token t =>
    have hfinds := finds_of_scan h fun e he => by cases he
    rcases hfinds.fits with ⟨ht, -⟩ | ⟨t', ht, hmatches⟩
    · cases ht
    · rw [htake] at hmatches
      obtain rfl := Piece.token.inj ht
      exact .token hmatches (longest_of_finds hfinds) fun k hk => keyword_of_finds hfinds hk
  | error e =>
    refine .error (fun m hprefix hmatch => ?_) (fails_of_scan h)
    -- a match would have been found instead
    obtain ⟨piece, n, hfinds, -⟩ := exists_finds hmatch hprefix
    have hpiece := (Prod.mk.inj (h.symm.trans hfinds.scan_eq)).1
    rcases hfinds.fits with ⟨hskipped, -⟩ | ⟨t, ht, -⟩
    · rw [hskipped] at hpiece
      cases hpiece
    · rw [ht] at hpiece
      cases hpiece

/-! ## Block comments -/

section
variable {body : List Char}

theorem blockComment_inj {body' : List Char} (h : blockComment body = blockComment body') :
    body = body' :=
  List.append_cancel_right (List.cons.inj (List.cons.inj h).2).2

theorem Skips.head_ne_star (h : Skips (blockComment body)) : body.head? ≠ some '*' := by
  generalize htext : blockComment body = text at h
  cases h with
  | space _ hcs =>
    subst htext
    exact absurd (hcs '/' List.mem_cons_self) (by decide)
  | lineComment => exact absurd (List.cons.inj (List.cons.inj htext).2).1 (by decide)
  | comment _ hdoc =>
    rw [blockComment_inj htext]
    exact hdoc

theorem isIdentStart_of_isWord {name : String} (hname : IsWord name) {cs : List Char}
    (h : name.toList = c :: cs) : isIdentStart c = true := by
  obtain ⟨d, ds, hchars, hd, -⟩ := hname
  rw [(List.cons.inj (h.symm.trans hchars)).1]
  exact hd

theorem Matches.of_blockComment {t : Token} (h : Matches (blockComment body) t) :
    (∃ text, t = .doc text) ∧ body.head? = some '*' := by
  generalize htext : blockComment body = text at h
  cases h with
  | keyword k => exact absurd (isIdentStart_of_isWord k.isWord htext.symm) (by decide)
  | symbol s => exact absurd (List.cons.inj htext).2 (List.cons_ne_nil _ _)
  | number hcs =>
    cases hcs with
    | unsigned hcs =>
      obtain ⟨d, ds, rfl, hd⟩ := hcs.head_isDigit
      rw [← (List.cons.inj htext).1] at hd
      exact absurd hd (by decide)
    | negative => exact absurd (List.cons.inj htext).1 (by decide)
  | string => exact absurd (List.cons.inj htext).1 (by decide)
  | doc =>
    rw [blockComment_inj htext]
    exact ⟨⟨_, rfl⟩, rfl⟩
  | ident hname => exact absurd (isIdentStart_of_isWord hname htext.symm) (by decide)

/-- A closed block comment is a doc comment if a star follows its opening, and skipped if not. -/
theorem Munches.isDoc_iff (hbody : body.IsChain Apart)
    (h : Munches (blockComment body) rest piece) :
    (∃ text, piece = .token (.doc text)) ↔ body.head? = some '*' := by
  cases h with
  | skipped hskips =>
    refine ⟨fun hdoc => ?_, fun hstar => absurd hstar hskips.head_ne_star⟩
    obtain ⟨text, ht⟩ := hdoc
    cases ht
  | token hmatches =>
    obtain ⟨⟨text, rfl⟩, hstar⟩ := hmatches.of_blockComment
    exact ⟨fun _ => hstar, fun _ => ⟨text, rfl⟩⟩
  | error hnone =>
    -- a closed comment matches one pattern or the other
    refine absurd ?_ (hnone _ (List.prefix_append _ rest))
    by_cases hstar : body.head? = some '*'
    · obtain ⟨doc, rfl⟩ := List.head?_eq_some_iff.mp hstar
      exact .inr ⟨_, .doc hbody⟩
    · exact .inl (.comment hbody hstar)

end

/-! ## All pieces -/

/-- A piece of a source and where it stands. -/
structure Tile where
  piece : Piece
  text : List Char
  span : Span

namespace Tile

/-- The lexeme of a tile that is a token. -/
def lexeme? (t : Tile) : Option Lexeme :=
  match t.piece with
  | .token token => some ⟨token, t.span⟩
  | _ => none

/-- The error of a tile that is one. -/
def error? (t : Tile) : Option (LexicalError × Span) :=
  match t.piece with
  | .error e => some (e, t.span)
  | _ => none

end Tile

/-- The tiles of a text that begins at an offset. -/
inductive Tiles : Nat → List Char → List Tile → Prop where
  | nil (pos : Nat) : Tiles pos [] []
  | cons {pos : Nat} {text rest : List Char} {piece : Piece} {tiles : List Tile} (hne : text ≠ [])
      (hpiece : Munches text rest piece) (hrest : Tiles (pos + byteLength text) rest tiles) :
      Tiles pos (text ++ rest) (⟨piece, text, ⟨pos, pos + byteLength text⟩⟩ :: tiles)

theorem exists_tiles (pos : Nat) (cs : List Char) :
    ∃ tiles, Tiles pos cs tiles ∧
      lexFrom pos cs = ⟨tiles.filterMap Tile.lexeme?, tiles.filterMap Tile.error?⟩ := by
  induction cs using piecewise generalizing pos with
  | nil => exact ⟨[], .nil pos, by rw [lexFrom]; rfl⟩
  | step c ds rest piece hscan ih =>
    obtain ⟨tiles, htiles, hlex⟩ := ih (pos + byteLength (c :: ds))
    refine ⟨_, .cons (List.cons_ne_nil c ds) (munches_of_scan hscan) htiles, ?_⟩
    rw [lexFrom_piece hscan, hlex]
    cases piece <;> rfl

namespace Tiles

variable {pos : Nat} {cs : List Char} {tiles : List Tile} {t : Tile}

/-- A tile is a longest match at the place where it stands. -/
theorem exists_split (h : Tiles pos cs tiles) (ht : t ∈ tiles) :
    ∃ pre rest, cs = pre ++ t.text ++ rest ∧ Munches t.text rest t.piece ∧ t.text ≠ [] ∧
      t.span = ⟨pos + byteLength pre, pos + byteLength (pre ++ t.text)⟩ := by
  induction h with
  | nil => cases ht
  | @cons pos text rest piece tiles hne hpiece _ ih =>
    rcases List.mem_cons.mp ht with rfl | ht
    · exact ⟨[], rest, rfl, hpiece, hne, rfl⟩
    · obtain ⟨pre, rest, rfl, hmunches, hne, hspan⟩ := ih ht
      refine ⟨text ++ pre, rest, by simp, hmunches, hne, ?_⟩
      rw [hspan]
      simp only [Text.byteLength_append, Nat.add_assoc]

theorem byteLength_pos {cs : List Char} (h : cs ≠ []) : 0 < byteLength cs := by
  obtain ⟨c, cs, rfl⟩ := List.exists_cons_of_ne_nil h
  exact Nat.lt_of_lt_of_le c.utf8Size_pos (Nat.le_add_right _ _)

theorem start_lt_stop (h : Tiles pos cs tiles) (ht : t ∈ tiles) :
    pos ≤ t.span.start ∧ t.span.start < t.span.stop := by
  obtain ⟨pre, rest, -, -, hne, hspan⟩ := h.exists_split ht
  have hpos := byteLength_pos hne
  rw [hspan, Text.byteLength_append]
  dsimp only
  omega

/-- A tile ends before the next one begins. -/
theorem pairwise (h : Tiles pos cs tiles) :
    tiles.Pairwise fun a b => a.span.stop ≤ b.span.start := by
  induction h with
  | nil => exact .nil
  | cons _ _ hrest ih => exact .cons (fun b hb => (hrest.start_lt_stop hb).1) ih

/-- Every byte of the text is in a tile. -/
theorem exists_mem (h : Tiles pos cs tiles) {n : Nat} (hn : pos ≤ n)
    (hlt : n < pos + byteLength cs) : ∃ t ∈ tiles, t.span.start ≤ n ∧ n < t.span.stop := by
  induction h with
  | nil =>
    rw [byteLength] at hlt
    omega
  | @cons pos text rest piece tiles _ _ _ ih =>
    by_cases hin : n < pos + byteLength text
    · exact ⟨_, List.mem_cons_self, hn, hin⟩
    · rw [Text.byteLength_append] at hlt
      obtain ⟨t, ht, hspan⟩ := ih (by omega) (by omega)
      exact ⟨t, List.mem_cons_of_mem _ ht, hspan⟩

end Tiles

/-- The tokens of a source stand one behind the other, and none is empty. -/
theorem pairwise_lexemes (source : String) :
    ((lex source).lexemes.Pairwise fun a b => a.span.stop ≤ b.span.start) ∧
      ∀ l ∈ (lex source).lexemes, l.span.start < l.span.stop := by
  obtain ⟨tiles, htiles, hlex⟩ := exists_tiles 0 source.toList
  have hspan : ∀ {t : Tile} {l : Lexeme}, t.lexeme? = some l → l.span = t.span := by
    rintro ⟨piece, text, span⟩ l hl
    cases piece <;> cases hl
    rfl
  rw [lex, hlex]
  refine ⟨List.pairwise_filterMap.mpr (htiles.pairwise.imp ?_), fun l hl => ?_⟩
  · intro t t' h l hl l' hl'
    rw [hspan hl, hspan hl']
    exact h
  · obtain ⟨t, ht, hl⟩ := List.mem_filterMap.mp hl
    rw [hspan hl]
    exact (htiles.start_lt_stop ht).2

/-- No two tokens of a source have the same span. -/
theorem nodup_spans (source : String) : ((lex source).lexemes.map (·.span)).Nodup := by
  obtain ⟨hpairwise, hlt⟩ := pairwise_lexemes source
  refine List.pairwise_map.mpr (hpairwise.imp_of_mem fun {a b} ha _ hle heq => ?_)
  have := hlt a ha
  rw [heq] at hle this
  omega

/-- Whether an offset is between two characters of a text, or at its start or end. -/
def IsBoundary (cs : List Char) (n : Nat) : Prop := ∃ pre, pre <+: cs ∧ byteLength pre = n

theorem Tiles.isBoundary {cs : List Char} {tiles : List Tile} {t : Tile} (h : Tiles 0 cs tiles)
    (ht : t ∈ tiles) : IsBoundary cs t.span.start ∧ IsBoundary cs t.span.stop := by
  obtain ⟨pre, rest, rfl, -, -, hspan⟩ := h.exists_split ht
  rw [hspan, Nat.zero_add, Nat.zero_add, List.append_assoc]
  exact ⟨⟨pre, List.prefix_append _ _, rfl⟩,
    ⟨pre ++ t.text, List.append_assoc pre t.text rest ▸ List.prefix_append _ _, rfl⟩⟩

/-- The tokens and the errors of a source, merged by position, are those of its tiles.  The tiles
    are not empty and stand at character boundaries, each behind the one before it, and every byte
    of the source is in one of them; a tile that is neither a token nor an error is skipped.  Each
    is the longest match where it stands, and a closed block comment is a doc comment exactly if a
    star follows its opening. -/
theorem tiles_of_lex (source : String) :
    ∃ tiles : List Tile, Tiles 0 source.toList tiles ∧
      (lex source).lexemes = tiles.filterMap Tile.lexeme? ∧
      (lex source).errors = tiles.filterMap Tile.error? ∧
      (tiles.Pairwise fun a b => a.span.stop ≤ b.span.start) ∧
      (∀ t ∈ tiles, t.span.start < t.span.stop ∧ IsBoundary source.toList t.span.start ∧
        IsBoundary source.toList t.span.stop ∧
        Text.slice source.toList t.span.start t.span.stop = t.text) ∧
      (∀ n < byteLength source.toList, ∃ t ∈ tiles, t.span.start ≤ n ∧ n < t.span.stop) ∧
      (∀ t ∈ tiles, ∃ pre rest, source.toList = pre ++ t.text ++ rest ∧
        t.span.start = byteLength pre ∧ Munches t.text rest t.piece ∧
        ∀ body : List Char, body.IsChain Apart → t.text = blockComment body →
          ((∃ text, t.piece = .token (.doc text)) ↔ body.head? = some '*')) := by
  obtain ⟨tiles, htiles, hlex⟩ := exists_tiles 0 source.toList
  refine ⟨tiles, htiles, congrArg Lexing.lexemes hlex, congrArg Lexing.errors hlex, htiles.pairwise,
    fun t ht => ?_, fun n hn => ?_, fun t ht => ?_⟩
  · obtain ⟨pre, rest, hsource, -, -, hspan⟩ := htiles.exists_split ht
    have hlt := (htiles.start_lt_stop ht).2
    rw [hspan] at hlt ⊢
    rw [Nat.zero_add, Nat.zero_add] at hlt ⊢
    refine ⟨hlt, ⟨pre, ?_, rfl⟩, ⟨pre ++ t.text, ?_, rfl⟩, ?_⟩
    · rw [hsource, List.append_assoc]
      exact List.prefix_append _ _
    · rw [hsource]
      exact List.prefix_append _ _
    · rw [hsource, Text.byteLength_append, Text.slice_append]
  · refine htiles.exists_mem (Nat.zero_le n) ?_
    rw [Nat.zero_add]
    exact hn
  · obtain ⟨pre, rest, hsource, hmunches, -, hspan⟩ := htiles.exists_split ht
    refine ⟨pre, rest, hsource, by rw [hspan, Nat.zero_add], hmunches, fun body hbody htext => ?_⟩
    rw [htext] at hmunches
    exact hmunches.isDoc_iff hbody

end ActorIdl.Lexer
