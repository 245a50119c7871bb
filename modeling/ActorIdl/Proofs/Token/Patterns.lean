import ActorIdl.Proofs.Token.Relexing
/-! # The patterns of the lexer

    What the lexer looks for, as sets of texts: `Matches` relates the texts of each token to the
    token, and `Skips` has the texts that are passed over.  Nothing in them refers to the functions
    that find the longest match.

    Two facts connect them with those functions.  What `scan` finds at the start of a text, other
    than an error, is a text of a pattern (`Finds.fits`), and wherever a pattern matches, `scan`
    finds something that is at least as long (`exists_finds`). -/

namespace ActorIdl.Lexer

/-! ## Numbers, strings and comments -/

/-- One or more digits: `[0-9]+`. -/
def IsDigits (cs : List Char) : Prop := cs ≠ [] ∧ ∀ d ∈ cs, d.isDigit = true

/-- Digits with or without a fraction: `[0-9]+(\.[0-9]+)?`. -/
inductive IsNumeral : List Char → Prop where
  | whole {ds : List Char} (hds : IsDigits ds) : IsNumeral ds
  | point {ds es : List Char} (hds : IsDigits ds) (hes : IsDigits es) : IsNumeral (ds ++ '.' :: es)

/-- A numeral with or without a sign: `-?[0-9]+(\.[0-9]+)?`. -/
inductive IsNumber : List Char → Prop where
  | unsigned {cs : List Char} (hcs : IsNumeral cs) : IsNumber cs
  | negative {cs : List Char} (hcs : IsNumeral cs) : IsNumber ('-' :: cs)

/-- What can stand between the quotes of a string: `([^"\\]|\\.)*`. -/
inductive IsContent : List Char → Prop where
  | nil : IsContent []
  | plain {c : Char} {cs : List Char} (hquote : c ≠ '"') (hslash : c ≠ '\\') (hcs : IsContent cs) :
      IsContent (c :: cs)
  | escape {c : Char} {cs : List Char} (hc : c ≠ '\n') (hcs : IsContent cs) :
      IsContent ('\\' :: c :: cs)

/-- A string with its quotes. -/
def quoted (content : List Char) : List Char := '"' :: (content ++ ['"'])

/-- A block comment with its marks. -/
def blockComment (body : List Char) : List Char := '/' :: '*' :: (body ++ ['*', '/'])

/-! ## Tokens and what is skipped -/

/-- The texts that are read as a token.  A reserved word is spelled like an identifier too. -/
inductive Matches : List Char → Token → Prop where
  | keyword (k : Keyword) : Matches k.text.toList (.keyword k)
  | symbol (s : Symbol) : Matches [s.char] (.symbol s)
  | number {cs : List Char} (hcs : IsNumber cs) : Matches cs (.number (String.ofList cs))
  | string {cs : List Char} (hcs : IsContent cs) : Matches (quoted cs) (.string (String.ofList cs))
  | doc {body : List Char} (hbody : ('*' :: body).IsChain Apart) :
      Matches (blockComment ('*' :: body)) (.doc (String.ofList (DocComment.clean body)))
  | ident {name : String} (hname : IsWord name) : Matches name.toList (.ident name)

/-- The texts that are passed over: white space, a line comment up to the end of the line, and a
    closed block comment that is not a doc comment. -/
inductive Skips : List Char → Prop where
  | space {cs : List Char} (hne : cs ≠ []) (hcs : ∀ c ∈ cs, isSpace c = true) : Skips cs
  | lineComment {body : List Char} (hbody : '\n' ∉ body) : Skips ('/' :: '/' :: body)
  | comment {body : List Char} (hbody : body.IsChain Apart) (hdoc : body.head? ≠ some '*') :
      Skips (blockComment body)

/-- The texts of any pattern. -/
def IsMatch (cs : List Char) : Prop := Skips cs ∨ ∃ t, Matches cs t

/-! ## The longest matches -/

section
variable {cs ds rest : List Char} {p : Char → Bool}

theorem length_le_takeWhile (h : ∀ d ∈ ds, p d = true) (rest : List Char) :
    ds.length ≤ ((ds ++ rest).takeWhile p).length := by
  rw [List.takeWhile_append_of_pos h, List.length_append]
  exact Nat.le_add_right _ _

theorem take_length_eq (h : ds <+: cs) : cs.take ds.length = ds :=
  (List.prefix_iff_eq_take.mp h).symm

/-- Digits up to something else. -/
theorem takeWhile_digits (hds : ∀ d ∈ ds, d.isDigit = true)
    (hrest : ∀ d ∈ rest.head?, d.isDigit = false) : (ds ++ rest).takeWhile Char.isDigit = ds := by
  rw [List.takeWhile_append_of_pos hds, takeWhile_eq_nil_of_head hrest, List.append_nil]

theorem dropWhile_digits (hds : ∀ d ∈ ds, d.isDigit = true)
    (hrest : ∀ d ∈ rest.head?, d.isDigit = false) :
    (ds ++ rest).dropWhile Char.isDigit = rest := by
  have hsplit := List.takeWhile_append_dropWhile (p := Char.isDigit) (l := ds ++ rest)
  rw [takeWhile_digits hds hrest] at hsplit
  exact List.append_cancel_left hsplit

theorem fraction_point (hds : IsDigits ds) (rest : List Char) :
    fraction ('.' :: (ds ++ rest)) = '.' :: (ds ++ rest).takeWhile Char.isDigit := by
  have hne : ((ds ++ rest).takeWhile Char.isDigit).isEmpty = false := by
    have hpos := List.length_pos_of_ne_nil hds.1
    have hle := length_le_takeWhile hds.2 rest
    rw [List.isEmpty_eq_false_iff]
    exact List.ne_nil_of_length_pos (Nat.lt_of_lt_of_le hpos hle)
  rw [fraction, hne]
  rfl

theorem IsNumeral.length_le (h : IsNumeral ds) (rest : List Char) :
    ds.length ≤ (numeral (ds ++ rest)).length := by
  unfold numeral
  cases h with
  | whole hds =>
    have hle := length_le_takeWhile hds.2 rest
    rw [List.length_append]
    omega
  | @point ds es hds hes =>
    have hpoint : ∀ d ∈ ('.' :: (es ++ rest)).head?, d.isDigit = false := by
      rintro d hd
      cases hd
      rfl
    have hle := length_le_takeWhile hes.2 rest
    rw [List.append_assoc, List.cons_append, takeWhile_digits hds.2 hpoint,
      dropWhile_digits hds.2 hpoint, fraction_point hes]
    simp only [List.length_append, List.length_cons]
    omega

theorem IsNumeral.head_isDigit (h : IsNumeral ds) : ∃ c cs, ds = c :: cs ∧ c.isDigit = true := by
  have hdigits : ∀ {es : List Char}, IsDigits es → ∃ c cs, es = c :: cs ∧ c.isDigit = true := by
    intro es hes
    obtain ⟨c, cs, rfl⟩ := List.exists_cons_of_ne_nil hes.1
    exact ⟨c, cs, rfl, hes.2 c List.mem_cons_self⟩
  cases h with
  | whole hds => exact hdigits hds
  | point hds _ =>
    obtain ⟨c, cs, rfl, hc⟩ := hdigits hds
    exact ⟨c, _, rfl, hc⟩

theorem isNumeral_numeral {c : Char} (hc : c.isDigit = true) (cs : List Char) :
    IsNumeral (c :: numeral cs) := by
  have hdigits : IsDigits ((c :: cs).takeWhile Char.isDigit) := by
    refine ⟨?_, fun d hd => List.mem_takeWhile_imp hd⟩
    rw [List.takeWhile_cons, if_pos hc]
    exact List.cons_ne_nil _ _
  have hnumeral : c :: numeral cs = numeral (c :: cs) := by rw [numeral_cons, if_pos hc]
  rw [hnumeral]
  unfold numeral fraction
  split
  · rename_i es _
    split
    · rw [List.append_nil]
      exact .whole hdigits
    · rename_i hne
      exact .point hdigits ⟨fun hnil => hne (by rw [hnil]; rfl), fun d hd => List.mem_takeWhile_imp hd⟩
  · rw [List.append_nil]
    exact .whole hdigits

theorem isContent_stringRun (cs : List Char) : IsContent (stringRun cs) := by
  fun_induction stringRun cs with
  | case1 => exact .nil
  | case2 => exact .nil
  | case3 => exact .nil
  | case4 => exact .nil
  | case5 d ds hd _ ih => exact .escape hd ih
  | case6 c cs hquote hslash ih => exact .plain hquote hslash ih

/-- The content of a string goes on as far as it can. -/
theorem IsContent.stringRun_append (h : IsContent cs) (rest : List Char) :
    stringRun (cs ++ rest) = cs ++ stringRun rest := by
  induction h with
  | nil => rfl
  | plain hquote hslash _ ih =>
    rw [List.cons_append, stringRun_plain hquote hslash, ih, List.cons_append]
  | escape hc _ ih =>
    rw [List.cons_append, List.cons_append, stringRun_escape hc, ih, List.cons_append,
      List.cons_append]

theorem isChain_of_commentBody (h : commentBody cs = none) : cs.IsChain Apart := by
  induction cs with
  | nil => exact .nil
  | cons c cs ih =>
    rw [commentBody] at h
    split at h
    · cases h
    · rename_i hopen
      refine List.isChain_cons.mpr ⟨fun d hd hclose => ?_, ih (Option.map_eq_none_iff.mp h)⟩
      rw [hclose.2] at hd
      exact hopen ⟨hclose.1, hd⟩

end

/-! ## What is found matches -/

variable {c : Char} {cs ds rest : List Char} {t : Token} {n : Nat} {piece : Piece}

theorem take_stringRun (h : (cs.drop (stringRun cs).length).head? = some '"') :
    cs.take ((stringRun cs).length + 1) = stringRun cs ++ ['"'] := by
  rw [List.take_add_one, take_length_eq (prefix_stringRun cs), ← List.head?_drop, h]
  rfl

theorem take_blockComment {body : List Char} (hcs : cs.head? = some '*')
    (hbody : commentBody (cs.drop 1) = some body) :
    body.IsChain Apart ∧ cs.take (body.length + 3) = '*' :: (body ++ ['*', '/']) := by
  obtain ⟨ds, rfl⟩ := List.head?_eq_some_iff.mp hcs
  obtain ⟨hchain, rest, hrest⟩ := commentBody_eq_some hbody
  rw [List.drop_one, List.tail_cons] at hrest
  have hsplit : '*' :: ds = ('*' :: (body ++ ['*', '/'])) ++ rest := by
    rw [hrest, List.cons_append, List.append_assoc]
    rfl
  refine ⟨hchain, ?_⟩
  rw [hsplit]
  exact List.take_left' (by simp)

/-- The word of a text that is spelled like a word. -/
theorem matches_word (hc : isIdentStart c = true) (hcs : ∀ d ∈ cs, isIdentRest d = true) :
    Matches (c :: cs) (word (String.ofList (c :: cs))) := by
  have hword : Matches (String.ofList (c :: cs)).toList (word (String.ofList (c :: cs))) := by
    unfold word
    cases hk : Keyword.ofText? (String.ofList (c :: cs)) with
    | some k =>
      rw [← Keyword.text_of_ofText? hk]
      exact .keyword k
    | none => exact .ident ⟨c, cs, String.toList_ofList, hc, hcs⟩
  rwa [String.toList_ofList] at hword

/-- A piece is a text of the pattern that it is found by. -/
theorem Finds.fits (h : Finds c cs piece n) :
    (piece = .skipped ∧ Skips (c :: cs.take n)) ∨
      ∃ t, piece = .token t ∧ Matches (c :: cs.take n) t := by
  -- what is found is as long as its pattern allows, kind by kind
  cases h with
  | space hc =>
    rw [take_length_eq (List.takeWhile_prefix _)]
    refine .inl ⟨rfl, .space (List.cons_ne_nil _ _) (List.forall_mem_cons.mpr ⟨hc, ?_⟩)⟩
    exact fun d hd => List.mem_takeWhile_imp hd
  | lineComment hc hcs =>
    obtain ⟨ds, rfl⟩ := List.head?_eq_some_iff.mp hcs
    rw [take_length_eq (List.takeWhile_prefix _), List.takeWhile_cons, if_pos (by decide), hc]
    refine .inl ⟨rfl, .lineComment fun hmem => ?_⟩
    exact absurd (List.mem_takeWhile_imp hmem) (by decide)
  | @docComment body hc hcs hbody =>
    obtain ⟨hchain, htake⟩ := take_blockComment hcs hbody
    rw [List.length_cons] at htake
    rw [hc, htake]
    exact .inr ⟨_, rfl, .doc hchain⟩
  | @comment body hc hcs hbody hdoc =>
    obtain ⟨hchain, htake⟩ := take_blockComment hcs hbody
    rw [hc, htake]
    refine .inl ⟨rfl, .comment hchain fun hstar => ?_⟩
    obtain ⟨doc, hdoc'⟩ := List.head?_eq_some_iff.mp hstar
    exact hdoc doc hdoc'
  | string hc hclose =>
    rw [take_stringRun hclose, hc]
    exact .inr ⟨_, rfl, .string (isContent_stringRun cs)⟩
  | number hc =>
    rw [take_length_eq (prefix_numeral cs)]
    exact .inr ⟨_, rfl, .number (.unsigned (isNumeral_numeral hc cs))⟩
  | negative hc hcs =>
    obtain ⟨d, hd, hdigit⟩ := Option.map_eq_some_iff.mp hcs
    obtain ⟨ds, rfl⟩ := List.head?_eq_some_iff.mp hd
    rw [take_length_eq (prefix_numeral _), hc, numeral_cons, if_pos hdigit]
    exact .inr ⟨_, rfl, .number (.negative (isNumeral_numeral hdigit ds))⟩
  | word hc =>
    rw [take_length_eq (List.takeWhile_prefix _)]
    exact .inr ⟨_, rfl, matches_word hc fun d hd => List.mem_takeWhile_imp hd⟩
  | symbol hc =>
    rw [List.take_zero, hc]
    exact .inr ⟨_, rfl, .symbol _⟩

/-! ## What matches is found -/

theorem exists_finds_word {name : String} (hname : IsWord name) (h : name.toList <+: c :: cs) :
    ∃ piece n, Finds c cs piece n ∧ name.toList.length ≤ n + 1 := by
  obtain ⟨d, ds, hchars, hd, hds⟩ := hname
  rw [hchars] at h ⊢
  obtain ⟨rfl, rest, rfl⟩ := List.cons_prefix_cons.mp h
  exact ⟨_, _, .word hd, Nat.succ_le_succ (length_le_takeWhile hds _)⟩

theorem exists_finds_comment {body : List Char} (hbody : body.IsChain Apart)
    (h : blockComment body <+: c :: cs) :
    ∃ piece n, Finds c cs piece n ∧ (blockComment body).length ≤ n + 1 := by
  obtain ⟨rfl, hrest⟩ := List.cons_prefix_cons.mp h
  obtain ⟨rest, rfl⟩ := hrest
  have hfound := commentBody_closed hbody rest
  have hlength : (blockComment body).length = body.length + 4 := by simp [blockComment]
  rw [hlength]
  by_cases hdoc : ∃ doc, body = '*' :: doc
  · obtain ⟨doc, rfl⟩ := hdoc
    exact ⟨_, _, .docComment rfl rfl hfound, by simp⟩
  · exact ⟨_, _, .comment rfl rfl hfound fun doc heq => hdoc ⟨doc, heq⟩, Nat.le_refl _⟩

theorem exists_finds_number (hds : IsNumber ds) (h : ds <+: c :: cs) :
    ∃ piece n, Finds c cs piece n ∧ ds.length ≤ n + 1 := by
  cases hds with
  | unsigned hds =>
    obtain ⟨rest, hrest⟩ := h
    have hlength := hds.length_le rest
    obtain ⟨d, es, rfl, hd⟩ := hds.head_isDigit
    obtain ⟨rfl, rfl⟩ := List.cons.inj hrest
    rw [List.cons_append, numeral_cons, if_pos hd, List.length_cons] at hlength
    exact ⟨_, _, .number hd, hlength⟩
  | negative hds =>
    obtain ⟨rfl, rest, rfl⟩ := List.cons_prefix_cons.mp h
    have hlength := hds.length_le rest
    obtain ⟨d, es, rfl, hd⟩ := hds.head_isDigit
    exact ⟨_, _, .negative rfl (congrArg some hd), Nat.succ_le_succ hlength⟩

/-- Where a pattern matches at the start of a text, something is found that is at least as long. -/
theorem exists_finds (hds : IsMatch ds) (h : ds <+: c :: cs) :
    ∃ piece n, Finds c cs piece n ∧ ds.length ≤ n + 1 := by
  -- the first character tells what is found, and that is at least as long
  rcases hds with hds | ⟨t, hds⟩
  · cases hds with
    | space hne hspace =>
      obtain ⟨d, es, rfl⟩ := List.exists_cons_of_ne_nil hne
      obtain ⟨hd, hes⟩ := List.forall_mem_cons.mp hspace
      obtain ⟨rfl, rest, rfl⟩ := List.cons_prefix_cons.mp h
      exact ⟨_, _, .space hd, Nat.succ_le_succ (length_le_takeWhile hes _)⟩
    | @lineComment body hbody =>
      obtain ⟨rfl, rest, rfl⟩ := List.cons_prefix_cons.mp h
      have hline : ∀ d ∈ '/' :: body, decide (d ≠ '\n') = true := by
        intro d hd
        rw [decide_eq_true_eq]
        rintro rfl
        exact (List.mem_cons.mp hd).elim (fun heq => absurd heq (by decide)) hbody
      exact ⟨_, _, .lineComment rfl rfl, Nat.succ_le_succ (length_le_takeWhile hline _)⟩
    | comment hbody _ => exact exists_finds_comment hbody h
  · cases hds with
    | keyword k => exact exists_finds_word k.isWord h
    | symbol s =>
      obtain ⟨hc, -⟩ := List.cons_prefix_cons.mp h
      exact ⟨_, _, .symbol hc.symm, Nat.le_refl _⟩
    | number hds => exact exists_finds_number hds h
    | @string content hcontent =>
      obtain ⟨rfl, rest, rfl⟩ := List.cons_prefix_cons.mp h
      have hrun : stringRun (content ++ ['"'] ++ rest) = content := by
        rw [List.append_assoc, hcontent.stringRun_append, List.singleton_append, stringRun_quote,
          List.append_nil]
      refine ⟨_, _, .string rfl ?_, ?_⟩
      · rw [hrun, List.append_assoc, List.drop_left]
        rfl
      · rw [hrun, quoted, List.length_cons, List.length_append]
        rfl
    | doc hbody => exact exists_finds_comment hbody h
    | ident hname => exact exists_finds_word hname h

end ActorIdl.Lexer
