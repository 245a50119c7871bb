import ActorIdl.Proofs.Token.Spacing
import ActorIdl.Proofs.Token.Tiling
/-! # Doc comments that are made plain ones

    A doc comment is a plain comment of the same length once its second star is a space.  The lexer
    looks at most two characters beyond a piece, so nothing else changes: the tokens of a source in
    which some doc comments are silenced are the tokens of the source without those comments, in the
    same places, and the errors are the same. -/

namespace ActorIdl

namespace Text

/-! ## Blanking stars -/

/-- The text with spaces for its stars at some byte offsets, `pos` being the offset of its start. -/
def blankStars (p : Nat → Bool) (pos : Nat) : List Char → List Char
  | [] => []
  | c :: cs => (if c = '*' ∧ p pos = true then ' ' else c) :: blankStars p (pos + c.utf8Size) cs

variable {p : Nat → Bool} {pos n : Nat}

theorem utf8Size_blank (b : Prop) [Decidable b] (c : Char) :
    (if c = '*' ∧ b then ' ' else c).utf8Size = c.utf8Size := by
  split
  · rename_i h
    rw [h.1]
    rfl
  · rfl

theorem blankStars_append (p : Nat → Bool) (pos : Nat) (cs ds : List Char) :
    blankStars p pos (cs ++ ds) =
      blankStars p pos cs ++ blankStars p (pos + byteLength cs) ds := by
  induction cs generalizing pos with
  | nil => rfl
  | cons c cs ih =>
    rw [List.cons_append, blankStars, blankStars, ih, byteLength, Nat.add_assoc, List.cons_append]

theorem byteLength_blankStars (p : Nat → Bool) (pos : Nat) (cs : List Char) :
    byteLength (blankStars p pos cs) = byteLength cs := by
  induction cs generalizing pos with
  | nil => rfl
  | cons c cs ih => rw [blankStars, byteLength, byteLength, utf8Size_blank, ih]

theorem blankStars_eq_self {cs : List Char}
    (h : ∀ n, pos ≤ n → n < pos + byteLength cs → p n = false) : blankStars p pos cs = cs := by
  induction cs generalizing pos with
  | nil => rfl
  | cons c cs ih =>
    rw [byteLength] at h
    have hpos := c.utf8Size_pos
    rw [blankStars, h pos (Nat.le_refl _) (by omega), ih fun n hn hlt => h n (by omega) (by omega)]
    simp

theorem takeBytes_blankStars {cs : List Char} (h : ∀ m, pos ≤ m → m < pos + n → p m = false) :
    takeBytes n (blankStars p pos cs) = takeBytes n cs := by
  fun_induction takeBytes n cs generalizing pos with
  | case1 => rw [takeBytes]
  | case2 => rfl
  | case3 n c cs ih =>
    have hc := h pos (Nat.le_refl _) (by omega)
    rw [blankStars, takeBytes, utf8Size_blank, hc, ih fun m hm hlt => h m (by omega) (by omega)]
    simp

/-- The text between two offsets is the same if no star is blanked there. -/
theorem slice_blankStars {pre rest : List Char} {stop : Nat}
    (h : ∀ m, byteLength pre ≤ m → m < stop → p m = false) :
    slice (blankStars p 0 (pre ++ rest)) (byteLength pre) stop =
      slice (pre ++ rest) (byteLength pre) stop := by
  have hdrop := dropBytes_append (blankStars p 0 pre) (blankStars p (0 + byteLength pre) rest)
  rw [byteLength_blankStars, ← blankStars_append, Nat.zero_add] at hdrop
  rw [slice, slice, hdrop, dropBytes_append]
  exact takeBytes_blankStars fun m hm hlt => h m hm (by omega)

end Text

/-- The lexing without some of the lexemes. -/
def Lexing.keep (k : Lexeme → Bool) (x : Lexing) : Lexing := ⟨x.lexemes.filter k, x.errors⟩

namespace Lexer

open Text (byteLength blankStars)

variable {c : Char} {ds rest rest' : List Char} {piece : Piece} {pos : Nat}

/-! ## Two characters beyond a piece -/

theorem head?_of_take_eq (h : rest'.take 2 = rest.take 2) : rest'.head? = rest.head? := by
  have := congrArg List.head? h
  rwa [List.head?_take, List.head?_take] at this

theorem take_append_of_take_eq (h : rest'.take 2 = rest.take 2) (ds : List Char) :
    (ds ++ rest').take 2 = (ds ++ rest).take 2 := by
  have hfewer := congrArg (List.take (2 - ds.length)) h
  rw [List.take_take, List.take_take, Nat.min_eq_left (Nat.sub_le _ _)] at hfewer
  rw [List.take_append, List.take_append, hfewer]

theorem takeWhile_lookahead {p : Char → Bool}
    (h : ((ds ++ rest).takeWhile p).length = ds.length) (hrest : rest'.head? = rest.head?) :
    (ds ++ rest').takeWhile p = (ds ++ rest).takeWhile p := by
  have htake := takeWhile_eq_of_length h
  have hall : ∀ d ∈ ds, p d = true := fun d hd => List.mem_takeWhile_imp (htake ▸ hd)
  rw [List.takeWhile_append_of_pos hall, List.append_right_eq_self] at htake
  rw [List.takeWhile_append_of_pos hall, List.takeWhile_append_of_pos hall, htake]
  refine congrArg (ds ++ ·) (takeWhile_eq_nil_of_head fun d hd => ?_)
  -- what follows the match does not go on with it
  obtain ⟨more, rfl⟩ := List.head?_eq_some_iff.mp (hrest ▸ hd)
  rw [List.takeWhile_cons] at htake
  split at htake
  · cases htake
  · exact Bool.eq_false_iff.mpr ‹_›

theorem fraction_lookahead (h : (fraction (c :: (ds ++ rest))).length = ds.length + 1)
    (hrest : rest'.head? = rest.head?) :
    fraction (c :: (ds ++ rest')) = fraction (c :: (ds ++ rest)) := by
  by_cases hc : c = '.'
  · subst hc
    rw [fraction] at h
    split at h
    · cases h
    · rw [fraction, fraction, takeWhile_lookahead (Nat.succ.inj h) hrest]
  · rw [fraction_of_ne hc] at h
    cases h

theorem numeral_eq_nil_lookahead (h : numeral rest = []) (hrest : rest'.take 2 = rest.take 2) :
    numeral rest' = [] := by
  cases rest with
  | nil =>
    obtain rfl : rest' = [] := by simpa using hrest
    exact h
  | cons c cs =>
    obtain ⟨cs', rfl⟩ := List.head?_eq_some_iff.mp (head?_of_take_eq hrest)
    have hnext : cs'.head? = cs.head? := by
      have := congrArg List.head? (List.cons.inj hrest).2
      rwa [List.head?_take, List.head?_take] at this
    rw [numeral_cons] at h ⊢
    split at h
    · cases h
    · rw [if_neg ‹_›]
      -- the first character is no digit, so only a point with a digit behind it would count
      by_cases hc : c = '.'
      · subst hc
        rw [fraction] at h ⊢
        split at h
        · rename_i hnone
          have hlength : (([] ++ cs).takeWhile Char.isDigit).length = ([] : List Char).length := by
            rw [List.nil_append, List.isEmpty_iff.mp hnone]
          have hsame := takeWhile_lookahead hlength hnext
          rw [List.nil_append, List.nil_append] at hsame
          rw [hsame, if_pos hnone]
        · cases h
      · exact fraction_of_ne hc cs'

theorem numeral_lookahead (h : (numeral (ds ++ rest)).length = ds.length)
    (hrest : rest'.take 2 = rest.take 2) : numeral (ds ++ rest') = numeral (ds ++ rest) := by
  induction ds with
  | nil =>
    have hnil := List.length_eq_zero_iff.mp h
    exact (numeral_eq_nil_lookahead hnil hrest).trans hnil.symm
  | cons d ds ih =>
    rw [List.cons_append, numeral_cons] at h ⊢
    rw [List.cons_append, numeral_cons]
    split at h
    · rw [if_pos ‹_›, if_pos ‹_›, ih (Nat.succ.inj h)]
    · rw [if_neg ‹_›, if_neg ‹_›, fraction_lookahead h (head?_of_take_eq hrest)]

theorem stringRun_eq_nil_lookahead (h : stringRun rest = []) (hrest : rest'.take 2 = rest.take 2) :
    stringRun rest' = [] := by
  cases rest with
  | nil =>
    obtain rfl : rest' = [] := by simpa using hrest
    exact h
  | cons c cs =>
    obtain ⟨cs', rfl⟩ := List.head?_eq_some_iff.mp (head?_of_take_eq hrest)
    by_cases hquote : c = '"'
    · rw [hquote, stringRun_quote]
    by_cases hslash : c = '\\'
    · subst hslash
      -- a backslash at the end of the content has a line feed behind it, or nothing
      have hnext : cs'.take 1 = cs.take 1 := (List.cons.inj hrest).2
      rcases cs with _ | ⟨d, cs⟩
      · obtain rfl : cs' = [] := by simpa using hnext
        exact h
      · rcases cs' with _ | ⟨d', cs'⟩
        · cases hnext
        · obtain rfl := (List.cons.inj hnext).1
          by_cases hd : d' = '\n'
          · rw [hd, stringRun, if_neg (by decide), if_pos rfl, if_pos rfl]
          · rw [stringRun_escape hd] at h
            cases h
    · rw [stringRun_plain hquote hslash] at h
      cases h

theorem stringRun_lookahead (h : (stringRun (ds ++ rest)).length = ds.length)
    (hrest : rest'.take 2 = rest.take 2) : stringRun (ds ++ rest') = stringRun (ds ++ rest) := by
  have hrun := eq_of_prefix_append (prefix_stringRun _) h
  have hcontent : IsContent ds := hrun ▸ isContent_stringRun _
  rw [hcontent.stringRun_append, List.append_right_eq_self] at hrun
  rw [hcontent.stringRun_append, hcontent.stringRun_append, hrun,
    stringRun_eq_nil_lookahead hrun hrest]

/-- What is found at the start of a text depends on the piece that is found and on two characters
    behind it. -/
theorem scan_lookahead (h : scan c (ds ++ rest) = (piece, ds.length))
    (hrest : rest'.take 2 = rest.take 2) : scan c (ds ++ rest') = (piece, ds.length) := by
  have hnext := head?_of_take_eq hrest
  have hhead : (ds ++ rest').head? = (ds ++ rest).head? := by
    rw [List.head?_append, List.head?_append, hnext]
  unfold scan at h ⊢
  rw [hhead]
  by_cases hspace : isSpace c = true
  · rw [if_pos hspace] at h ⊢
    rw [takeWhile_lookahead (Prod.mk.inj h).2 hnext, h]
  rw [if_neg hspace] at h ⊢
  by_cases hline : c = '/' ∧ (ds ++ rest).head? = some '/'
  · rw [if_pos hline] at h ⊢
    rw [takeWhile_lookahead (Prod.mk.inj h).2 hnext, h]
  rw [if_neg hline] at h ⊢
  by_cases hopen : c = '/' ∧ (ds ++ rest).head? = some '*'
  · rw [if_pos hopen] at h ⊢
    cases hbody : commentBody ((ds ++ rest).drop 1) with
    | none =>
      -- an open comment goes up to the end
      rw [hbody] at h
      obtain rfl := eq_nil_of_length_append (Prod.mk.inj h).2
      obtain rfl : rest' = [] := by simpa using hrest
      rw [hbody, h]
    | some body =>
      rw [hbody] at h
      have hlength : body.length + 3 = ds.length := by
        dsimp only at h
        split at h <;> exact (Prod.mk.inj h).2
      rw [commentBody_append_congr hbody hlength.le rest', h]
  rw [if_neg hopen] at h ⊢
  by_cases hquote : c = '"'
  · rw [if_pos hquote] at h ⊢
    dsimp only at h ⊢
    by_cases hclose : ((ds ++ rest).drop (stringRun (ds ++ rest)).length).head? = some '"'
    · rw [if_pos hclose] at h
      obtain ⟨hrun, hclose'⟩ := stringRun_append_congr hclose (Prod.mk.inj h).2.le rest'
      rw [hrun, if_pos hclose', h]
    · rw [if_neg hclose] at h
      have hlength := (Prod.mk.inj h).2
      rw [hlength, List.drop_left] at hclose
      rw [stringRun_lookahead hlength hrest, hlength, List.drop_left, hnext, if_neg hclose,
        ← hlength, h, hlength]
  rw [if_neg hquote] at h ⊢
  by_cases hdigit : c.isDigit = true
  · rw [if_pos hdigit] at h ⊢
    rw [numeral_lookahead (Prod.mk.inj h).2 hrest, h]
  rw [if_neg hdigit] at h ⊢
  by_cases hsign : c = '-' ∧ (ds ++ rest).head?.map Char.isDigit = some true
  · rw [if_pos hsign] at h ⊢
    rw [numeral_lookahead (Prod.mk.inj h).2 hrest, h]
  rw [if_neg hsign] at h ⊢
  by_cases hident : isIdentStart c = true
  · rw [if_pos hident] at h ⊢
    rw [takeWhile_lookahead (Prod.mk.inj h).2 hnext, h]
  rw [if_neg hident] at h ⊢
  exact h

/-! ## Silenced doc comments -/

theorem le_start_of_mem {cs : List Char} {l : Lexeme} (h : l ∈ (lexFrom pos cs).lexemes) :
    pos ≤ l.span.start := by
  obtain ⟨before, behind, hls⟩ := List.append_of_mem h
  obtain ⟨pre, c, ds, rest, -, hspan, -⟩ := exists_piece hls
  rw [hspan]
  exact Nat.le_add_right _ _

theorem exists_of_scan_doc {text : String}
    (h : scan c (ds ++ rest) = (.token (.doc text), ds.length)) :
    ∃ body, ('*' :: body).IsChain Apart ∧ c :: ds = blockComment ('*' :: body) := by
  have hfits := (finds_of_scan h fun e he => by cases he).fits
  rw [List.take_left] at hfits
  obtain ⟨hskipped, -⟩ | ⟨t, ht, hmatches⟩ := hfits
  · cases hskipped
  · obtain rfl := Piece.token.inj ht
    generalize c :: ds = chars at hmatches ⊢
    cases hmatches with
    | doc hbody => exact ⟨_, hbody, rfl⟩

theorem byteLength_blockComment (body : List Char) :
    byteLength (blockComment ('*' :: body)) = 3 + byteLength (body ++ ['*', '/']) := by
  show 1 + (1 + (1 + byteLength (body ++ ['*', '/']))) = _
  omega

theorem blankStars_blockComment {p : Nat → Bool} {body : List Char} (hsecond : p (pos + 2) = true)
    (hother : ∀ n, pos ≤ n → n < pos + byteLength (blockComment ('*' :: body)) → n ≠ pos + 2 →
      p n = false) :
    blankStars p pos (blockComment ('*' :: body)) = blockComment (' ' :: body) := by
  rw [byteLength_blockComment] at hother
  have hstar : p (pos + 1) = false := hother _ (by omega) (by omega) (by omega)
  have hbehind : blankStars p (pos + 3) (body ++ ['*', '/']) = body ++ ['*', '/'] :=
    Text.blankStars_eq_self fun n hn hlt => hother n (by omega) (by omega) (by omega)
  show '/' :: (if '*' = '*' ∧ p (pos + 1) = true then ' ' else '*') ::
    (if '*' = '*' ∧ p (pos + 2) = true then ' ' else '*') ::
      blankStars p (pos + 3) (body ++ ['*', '/']) = _
  rw [hstar, hsecond, hbehind]
  rfl

/-- The doc comment with a space for its second star is passed over. -/
theorem lexFrom_silenced {body : List Char} (h : ('*' :: body).IsChain Apart) (rest : List Char) :
    lexFrom pos (blockComment (' ' :: body) ++ rest) =
      lexFrom (pos + byteLength (blockComment ('*' :: body))) rest := by
  have hbody : (' ' :: body).IsChain Apart := by
    refine List.isChain_cons.mpr ⟨fun d _ hapart => ?_, h.tail⟩
    exact absurd hapart.1 (by decide)
  rw [lexFrom_blockComment hbody (by simp)]
  rfl

theorem Piece.keep_before {k : Lexeme → Bool} {span : Span} (x : Lexing)
    (h : ∀ t, piece = .token t → k ⟨t, span⟩ = true) :
    (piece.before span x).keep k = piece.before span (x.keep k) := by
  cases piece with
  | token t => exact congrArg (Lexing.mk · x.errors) (List.filter_cons_of_pos (h t rfl))
  | _ => rfl

theorem Piece.keep_before_of_dropped {k : Lexeme → Bool} {span : Span} {t : Token} (x : Lexing)
    (h : k ⟨t, span⟩ = false) : ((Piece.token t).before span x).keep k = x.keep k :=
  congrArg (Lexing.mk · x.errors) (List.filter_cons_of_neg (by rw [h]; decide))

/-- A star that is blanked is in the first piece, which is a doc comment then, or behind it. -/
theorem mem_before_cases {span : Span} {x : Lexing} {n : Nat}
    (h : ∃ l ∈ (piece.before span x).lexemes, l.token.isDoc = true ∧ n = l.span.start + 2) :
    (∃ text, piece = .token (.doc text) ∧ n = span.start + 2) ∨
      ∃ l ∈ x.lexemes, l.token.isDoc = true ∧ n = l.span.start + 2 := by
  obtain ⟨l, hl, hdoc, hstart⟩ := h
  cases piece with
  | token t =>
    rcases List.mem_cons.mp hl with rfl | hl
    · cases t with
      | doc text => exact .inl ⟨text, rfl, hstart⟩
      | _ => cases hdoc
    · exact .inr ⟨l, hl, hdoc, hstart⟩
  | _ => exact .inr ⟨l, hl, hdoc, hstart⟩

/-- Lexing a text in which the second stars of some doc comments are blanked. -/
theorem lexFrom_blankStars {p : Nat → Bool} (cs : List Char) (pos : Nat)
    (hp : ∀ n, pos ≤ n → p n = true →
      ∃ l ∈ (lexFrom pos cs).lexemes, l.token.isDoc = true ∧ n = l.span.start + 2) :
    lexFrom pos (blankStars p pos cs) =
        (lexFrom pos cs).keep (fun l => !(l.token.isDoc && p (l.span.start + 2))) ∧
      (blankStars p pos cs).take 2 = cs.take 2 := by
  induction cs using piecewise generalizing pos with
  | nil =>
    rw [blankStars, lexFrom]
    exact ⟨rfl, rfl⟩
  | step c ds rest piece hscan ih =>
    rw [lexFrom_piece hscan] at hp ⊢
    rw [Text.blankStars_append]
    have hlong : ∀ text, piece = .token (.doc text) → 2 < byteLength (c :: ds) := by
      rintro text rfl
      obtain ⟨body, -, hbody⟩ := exists_of_scan_doc hscan
      rw [hbody, byteLength_blockComment]
      omega
    obtain ⟨hlex, htake⟩ := ih (pos + byteLength (c :: ds)) fun n hn hpn => by
      rcases mem_before_cases (hp n (by omega) hpn) with ⟨text, hpiece, rfl⟩ | h
      · have := hlong text hpiece
        dsimp only at hn
        omega
      · exact h
    -- in the piece itself nothing but the second star of a doc comment is blanked
    have hinside : ∀ n, pos ≤ n → n < pos + byteLength (c :: ds) → p n = true →
        ∃ text, piece = .token (.doc text) ∧ n = pos + 2 := by
      intro n hn hlt hpn
      rcases mem_before_cases (hp n hn hpn) with h | ⟨l, hl, -, rfl⟩
      · exact h
      · have := le_start_of_mem hl
        omega
    by_cases hsilenced : ∃ text, piece = .token (.doc text) ∧ p (pos + 2) = true
    · obtain ⟨text, rfl, hsecond⟩ := hsilenced
      obtain ⟨body, hchain, hbody⟩ := exists_of_scan_doc hscan
      rw [hbody] at hinside hlex ⊢
      rw [blankStars_blockComment hsecond fun n hn hlt hne => Bool.eq_false_iff.mpr fun hpn =>
        hne (hinside n hn hlt hpn).choose_spec.2, lexFrom_silenced hchain, hlex]
      refine ⟨(Piece.keep_before_of_dropped _ ?_).symm, rfl⟩
      simp [Token.isDoc, hsecond]
    · have hfree : ∀ n, pos ≤ n → n < pos + byteLength (c :: ds) → p n = false := by
        refine fun n hn hlt => Bool.eq_false_iff.mpr fun hpn => hsilenced ?_
        obtain ⟨text, hpiece, rfl⟩ := hinside n hn hlt hpn
        exact ⟨text, hpiece, hpn⟩
      rw [Text.blankStars_eq_self hfree, lexFrom_piece (scan_lookahead hscan htake), hlex]
      refine ⟨(Piece.keep_before _ fun t ht => ?_).symm, take_append_of_take_eq htake _⟩
      cases t with
      | doc text =>
        have hnot : p (pos + 2) = false :=
          Bool.eq_false_iff.mpr fun hpn => hsilenced ⟨text, ht, hpn⟩
        simp [hnot]
      | _ => rfl

end Lexer

/-! ## Sources -/

/-- Two tokens of a source are the same or stand apart. -/
theorem Lexer.apart_of_mem {source : String} {l m : Lexeme} (hl : l ∈ (lex source).lexemes)
    (hm : m ∈ (lex source).lexemes) :
    l = m ∨ l.span.stop ≤ m.span.start ∨ m.span.stop ≤ l.span.start := by
  have hpairwise := (pairwise_lexemes source).1
  have hordered : (lex source).lexemes.Pairwise fun l m =>
      l = m ∨ l.span.stop ≤ m.span.start ∨ m.span.stop ≤ l.span.start :=
    hpairwise.imp fun h => .inr (.inl h)
  exact hordered.forall_of_forall_of_flip (fun _ _ => .inl rfl)
    (hpairwise.imp fun h => .inr (.inr h)) hl hm

/-- The offsets of the second stars of the doc comments that are chosen. -/
def silenced (chosen : Lexeme → Bool) (source : String) (n : Nat) : Bool :=
  (lex source).lexemes.any fun l => l.token.isDoc && chosen l && n == l.span.start + 2

/-- The source with a space for the second star of each of its doc comments that is chosen. -/
def silence (chosen : Lexeme → Bool) (source : String) : String :=
  String.ofList (Text.blankStars (silenced chosen source) 0 source.toList)

theorem silenced_iff {chosen : Lexeme → Bool} {source : String} {n : Nat} :
    silenced chosen source n = true ↔ ∃ l ∈ (lex source).lexemes,
      l.token.isDoc = true ∧ chosen l = true ∧ n = l.span.start + 2 := by
  simp [silenced, and_assoc]

/-- The tokens of the source without the doc comments that are chosen, and its errors. -/
theorem lex_silence (chosen : Lexeme → Bool) (source : String) :
    lex (silence chosen source) =
      (lex source).keep fun l => !(l.token.isDoc && chosen l) := by
  have hblank := Lexer.lexFrom_blankStars (p := silenced chosen source) source.toList 0
    fun n _ hn => by
      obtain ⟨l, hl, hdoc, -, hstart⟩ := silenced_iff.mp hn
      exact ⟨l, hl, hdoc, hstart⟩
  rw [lex, silence, String.toList_ofList, hblank.1]
  refine congrArg (Lexing.mk · (lex source).errors) (List.filter_congr fun l hl => ?_)
  change l ∈ (lex source).lexemes at hl
  cases hdoc : l.token.isDoc with
  | false => rfl
  | true =>
    -- no other doc comment begins where this one does
    have hsame : silenced chosen source (l.span.start + 2) = chosen l := by
      rw [Bool.eq_iff_iff, silenced_iff]
      refine ⟨?_, fun hchosen => ⟨l, hl, hdoc, hchosen, rfl⟩⟩
      rintro ⟨m, hm, -, hchosen, hstart⟩
      have hlt := (Lexer.pairwise_lexemes source).2
      rcases Lexer.apart_of_mem hl hm with rfl | h | h
      · exact hchosen
      · have := hlt l hl
        omega
      · have := hlt m hm
        omega
    rw [hsame]

end ActorIdl
