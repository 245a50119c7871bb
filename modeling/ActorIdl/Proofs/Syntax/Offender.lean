import ActorIdl.Proofs.Syntax.Nesting
/-! # The token at which a source stops being a sentence

    A source without a tree has exactly one syntax fault.  The fault is at the token behind the
    longest front of the tokens that is made of the first parts of a unit.  Where that front is also
    the longest one that some unit begins with, the fault is at the first token that no unit goes on
    with; a type argument, a bracket, an argument of an annotation in front of a member or something
    in a nested declaration can be missing further on, and the fault is at the start of that
    part. -/

namespace ActorIdl.Syntax

open Grammar (Avoids Begins Starts Begun IsLongest optionalParts singly noToken isMark isWord)

namespace Parser

variable {source : List Char} {tokens : List Lexeme} {m : Nat}

/-! ## Units -/

theorem tracks_imports : (many (nameLine .import_)).Tracks source tokens m
    (List.flatMap (Grammar.NameLine.parts .import_)) (isWord .import_) noToken := by
  have hline : ∀ l : Grammar.NameLine, (l.parts .import_).flatten = l.lexemes .import_ :=
    fun l => Grammar.flatten_singly _
  exact (tracks_nameLine .import_).many
    (fun l _ => by rw [hline]; exact accepts_nameLine .import_ l)
    (fun l => by rw [hline]; exact Grammar.begins_nameLine .import_ l) (fun _ _ => rfl)
    (fun _ ht => ht) (fun _ _ _ => avoids_noToken) fun _ _ => rfl

section
variable (hspelled : ∀ l ∈ tokens, Spelled source l) (hfew : FewDims tokens)
include hspelled hfew

theorem tracks_decl : decl.Tracks source tokens m Grammar.Decl.parts noToken Grammar.startsDecl :=
  fun i p c hi _ => tracks_declWithin hspelled hfew (i.left + 1) i p c hi (Nat.lt_succ_self _)

theorem tracks_decls : (many decl).Tracks source tokens m (List.flatMap Grammar.Decl.parts)
    Grammar.startsDecl Grammar.startsDecl := by
  have hbegins : ∀ d : Grammar.Decl, Begins Grammar.startsDecl d.parts.flatten := fun d => by
    rw [Grammar.Decl.flatten_parts]
    exact Grammar.begins_decl d
  exact (tracks_decl hspelled hfew).many
    (fun d _ => by rw [Grammar.Decl.flatten_parts]; exact accepts_decl d) hbegins
    (fun _ _ => rfl) (fun _ ht => ht) (fun d _ => avoids_behind (hbegins d) fun _ ht => ht)
    fun _ _ => rfl

theorem tracks_unit : unit.Tracks source tokens m Grammar.Source.parts anyToken anyToken := by
  have hline : ∀ k (l : Grammar.NameLine), (l.parts k).flatten = l.lexemes k :=
    fun k l => Grammar.flatten_singly _
  -- from the back: the declarations up to the end of the input
  have hdecls : ∀ (package : Option QualifiedName) (imports : List QualifiedName), (do
      let decls ← many decl
      endOfInput
      return (package, imports, decls)).Tracks source tokens m
        (fun d : List Grammar.Decl × Unit => d.1.flatMap Grammar.Decl.parts ++ [])
        anyToken Grammar.startsDecl := by
    intro package imports
    refine (tracks_decls hspelled hfew).bind (fun ds _ => ?_)
      (fun decls => Tracks.endOfInput.bind_silent fun _ =>
        isSilent_pure (package, imports, decls))
      (fun _ => Nat.le_add_right m _) (fun _ => Grammar.avoids_nil) (fun _ _ _ _ => rfl)
      (fun _ ht => ht) (fun _ ht => ht) (fun _ _ _ => avoids_noToken) fun _ ht => by cases ht
    rw [Grammar.flatten_flatMap Grammar.Decl.flatten_parts]
    exact accepts_decls ds
  -- the imports in front of them
  have himports : ∀ package : Option QualifiedName, (do
      let imports ← many (nameLine .import_)
      let decls ← many decl
      endOfInput
      return (package, imports, decls)).Tracks source tokens m
        (fun d : List Grammar.NameLine × List Grammar.Decl × Unit =>
          d.1.flatMap (Grammar.NameLine.parts .import_) ++ (d.2.1.flatMap Grammar.Decl.parts ++ []))
        anyToken fun t => isWord .import_ t || Grammar.startsDecl t := by
    intro package
    refine tracks_imports.bind (fun ls _ => ?_) (hdecls package) (fun _ => Nat.le_add_right m _)
      (fun d => ?_) (fun _ _ _ _ => rfl) (fun _ _ => rfl) (fun _ ht => by cases ht) (fun ls us => ?_)
      fun t ht => ?_
    · rw [Grammar.flatten_flatMap (hline .import_)]
      exact accepts_imports ls
    · rw [List.append_nil, Grammar.flatten_flatMap Grammar.Decl.flatten_parts]
      exact Grammar.avoids_decls d.1 rfl
    · rw [Grammar.flatten_flatMap (hline .import_)]
      exact avoids_behind_optional (Grammar.starts_flatMap (Grammar.begins_nameLine .import_) ls)
        (fun t ht => by rw [ht, Bool.true_or]) fun t ht => by rw [ht, Bool.or_true]
    · exact Grammar.isWord_eq_false rfl ht
  have hpackage : (optional (nameLine .package_)).Tracks source tokens m
      (optionalParts (Grammar.NameLine.parts .package_)) (isWord .package_) noToken :=
    (tracks_nameLine .package_).optional (isWord .package_) fun l => by
      rw [hline]
      exact Grammar.begins_nameLine .package_ l
  -- the line of the package in front of everything, if it is there
  have hall : (do
      let package ← optional (nameLine .package_)
      let imports ← many (nameLine .import_)
      let decls ← many decl
      endOfInput
      return (package, imports, decls)).Tracks source tokens m
      (fun d : Option Grammar.NameLine × List Grammar.NameLine × List Grammar.Decl × Unit =>
        optionalParts (Grammar.NameLine.parts .package_) d.1 ++
          (d.2.1.flatMap (Grammar.NameLine.parts .import_) ++
            (d.2.2.1.flatMap Grammar.Decl.parts ++ []))) anyToken anyToken := by
    refine hpackage.bind (fun o _ => ?_) himports (fun _ => Nat.le_add_right m _) (fun d => ?_)
      (fun _ _ _ _ => rfl) (fun _ _ => rfl) (fun _ ht => by cases ht) (fun o us => ?_) fun t ht => ?_
    · rw [Grammar.flatten_optionalParts (hline .package_)]
      exact accepts_package o
    · rw [List.append_nil, List.flatten_append, Grammar.flatten_flatMap (hline .import_),
        Grammar.flatten_flatMap Grammar.Decl.flatten_parts]
      exact Grammar.avoids_imports d.1 d.2.1
    · rw [Grammar.flatten_optionalParts (hline .package_)]
      exact avoids_behind_optional (Grammar.starts_optional (Grammar.begins_nameLine .package_) o)
        (fun _ _ => rfl) fun _ _ => rfl
    · rcases Bool.or_eq_true _ _ ▸ ht with ht | ht
      · rw [Grammar.eq_of_isWord ht]
        rfl
      · exact Grammar.isWord_eq_false rfl ht
  refine (hall.spanned.bind_silent fun _ => isSilent_pure _).of_surjective
    (e := fun d : Option Grammar.NameLine × List Grammar.NameLine × List Grammar.Decl × Unit =>
      Grammar.Source.mk d.1 d.2.1 d.2.2.1)
    (fun u => ⟨(u.package, u.imports, u.decls, ()), rfl⟩) fun d => ?_
  simp [Grammar.Source.parts]

end

end Parser

/-! ## Sources without a tree -/

/-- The tokens of a source that the parser gets: those of the lexer, without the doc comments that
    are out of place. -/
def parserTokens (source : String) : List Lexeme := DocComment.attach (lex source).lexemes

/-- Some unit begins with these tokens. -/
def Grammar.BeginsUnit (b : List Lexeme) : Prop :=
  ∃ (d : Grammar.Source) (us : List Lexeme), d.lexemes = b ++ us

theorem Grammar.beginsUnit_of_begun {b : List Lexeme} (h : Begun Grammar.Source.parts b) :
    Grammar.BeginsUnit b := by
  obtain ⟨d, us, hd⟩ := h.exists_append
  exact ⟨d, us, by rw [← hd, Grammar.Source.flatten_parts]⟩

section
variable {source : String} (hunit : ∀ d : Grammar.Source, d.lexemes ≠ parserTokens source)
include hunit

/-- Where no unit has the tokens, the parser fails. -/
theorem exists_pending_of_no_unit :
    ∃ q, Parser.unit (Input.start source.toList (parserTokens source)) none = (none, q) := by
  cases hrun : Parser.unit (Input.start source.toList (parserTokens source)) none with
  | mk r q =>
    cases r with
    | none => exact ⟨q, rfl⟩
    | some r =>
      have hparse : (parse source).unit = some r.1 := by rw [parse_of_run hrun]
      obtain ⟨d, hd, _⟩ := unit_of_parse hparse
      exact absurd hd (hunit d)

/-- What is pending when the parser fails is the only fault next to the lexical errors. -/
theorem parse_of_no_unit : ∃ q,
    Parser.unit (Input.start source.toList (parserTokens source)) none = (none, q) ∧
      parse source = ⟨none, (lex source).errors.map (fun e => ⟨.lexical e.1, e.2⟩) ++
        (q.map (·.fault)).toList⟩ := by
  obtain ⟨q, hq⟩ := exists_pending_of_no_unit hunit
  exact ⟨q, hq, parse_of_failed hq⟩

end

/-- A source that is not a unit has one syntax fault, behind its lexical errors.  It is at the token
    behind the longest front of the source that is made of the first parts of a unit.  That is not
    behind the first token that no unit goes on with, and it is that token exactly if what is in
    front of it is made of first parts of a unit. -/
theorem fault_behind_longest_begun (source : String)
    (hunit : ∀ d : Grammar.Source, d.lexemes ≠ parserTokens source)
    (hdims : FewDims (parserTokens source)) :
    ∃ (k v : Nat) (expected : List Expectation),
      parse source = ⟨none, (lex source).errors.map (fun e => ⟨.lexical e.1, e.2⟩) ++
        [unexpectedAt source.toList ((parserTokens source).drop k) expected]⟩ ∧
      IsLongest (Begun Grammar.Source.parts) (parserTokens source) k ∧
      IsLongest Grammar.BeginsUnit (parserTokens source) v ∧
      k ≤ v ∧ (k = v ↔ Begun Grammar.Source.parts ((parserTokens source).take v)) := by
  obtain ⟨v, hv⟩ := Grammar.exists_isLongest (P := Grammar.BeginsUnit)
    ⟨⟨none, [], []⟩, [], rfl⟩ (parserTokens source)
  obtain ⟨q, hrun, hparse⟩ := parse_of_no_unit hunit
  have hout := Parser.tracks_unit (m := (parserTokens source).length + 1)
    (fun l hl => spelled_of_mem_attach hl) hdims (Input.start source.toList (parserTokens source)) none 0
    ⟨rfl, List.suffix_refl _⟩ (Nat.lt_succ_self _) (Nat.zero_le _) (stands_none rfl)
    fun h => absurd h (Nat.lt_irrefl 0)
  rw [hrun] at hout
  cases hout with
  | failed k longest meets =>
    obtain ⟨f, hf, _, expected, hfault⟩ := meets
    cases hf
    rw [Nat.zero_max] at hfault
    have hle : k ≤ v := longest.mono hv fun _ => Grammar.beginsUnit_of_begun
    refine ⟨k, v, expected, ?_, longest, hv, hle, fun hk => ?_, fun hbegun => Nat.le_antisymm hle ?_⟩
    · rw [hparse, Option.map_some, hfault]
      rfl
    · rw [← hk]
      exact longest.take
    · have hlength := longest.le _ _ (List.take_append_drop v (parserTokens source)).symm hbegun
      rwa [List.length_take, Nat.min_eq_left hv.le_length] at hlength

/-- A few tokens have no type with too many dimensions. -/
theorem fewDims_of_length_le {ts : List Lexeme} (h : ts.length ≤ maxArrayDims) : FewDims ts := by
  intro name args pairs hinfix
  have hlength := hinfix.length_le
  have hpairs : (pairs.flatMap Grammar.pair).length = 2 * pairs.length := by
    simp [List.length_flatMap, Grammar.pair, Nat.mul_comm]
  rw [List.length_append, hpairs] at hlength
  omega

/-- The tokens of a source that is given by its characters. -/
theorem parserTokens_ofList {source : String} {cs : List Char} (h : source = String.ofList cs) :
    parserTokens source = DocComment.attach (Lexer.lexFrom 0 cs).lexemes := by
  rw [h]
  unfold parserTokens lex
  rw [String.toList_ofList]

/-- A method with a type that lacks its second argument. -/
def missingArgument : String := "interface A \x7b B<C, > f(); \x7d"

/-- The same method with a second argument. -/
def givenArgument : String := "interface A \x7b B<C, X> f(); \x7d"

/-- The two sources have the same tokens up to the argument, and only one of them has a tree.  The
    fault of the other one is at the start of the arguments, and no token from the missing argument
    on is there. -/
theorem parse_missingArgument :
    (parse givenArgument).unit.isSome = true ∧ (parse missingArgument).unit.isSome = false ∧
      (parserTokens missingArgument).take 7 = (parserTokens givenArgument).take 7 ∧
      (parserTokens missingArgument).length = 13 ∧ (lex missingArgument).errors = [] ∧
      (parse missingArgument).faults.getLast?.map (·.span) = some ⟨15, 16⟩ ∧
      ∀ v ≤ 13, 7 ≤ v →
        placeAt missingArgument.toList ((parserTokens missingArgument).drop v) ≠ ⟨15, 16⟩ := by
  rw [parse_eq_parseChars (rfl : givenArgument = String.ofList _),
    parse_eq_parseChars (rfl : missingArgument = String.ofList _),
    parserTokens_ofList (rfl : givenArgument = String.ofList _),
    parserTokens_ofList (rfl : missingArgument = String.ofList _), lex,
    (congrArg String.toList (rfl : missingArgument = String.ofList _)).trans String.toList_ofList]
  decide +kernel

theorem no_unit_missingArgument (d : Grammar.Source) : d.lexemes ≠ parserTokens missingArgument := by
  intro hd
  have hnone := parse_missingArgument.2.1
  rw [unit_of_lexemes hd] at hnone
  cases hnone

theorem fewDims_missingArgument : FewDims (parserTokens missingArgument) := by
  obtain ⟨_, _, _, hlength, _⟩ := parse_missingArgument
  refine fewDims_of_length_le ?_
  rw [hlength]
  decide

/-- Up to the missing argument the tokens are those of a unit. -/
theorem beginsUnit_missingArgument :
    Grammar.BeginsUnit ((parserTokens missingArgument).take 7) := by
  obtain ⟨hgiven, _, hsame, _⟩ := parse_missingArgument
  obtain ⟨u, hu⟩ := Option.isSome_iff_exists.mp hgiven
  obtain ⟨d, hd, _⟩ := unit_of_parse hu
  exact ⟨d, (parserTokens givenArgument).drop 7, by rw [hsame, List.take_append_drop]; exact hd⟩

/-- What is reported at the missing argument is not at the end of the longest front. -/
theorem parse_missingArgument_ne {v : Nat} (expected : List Expectation)
    (errors : List SourceFault) (hv : IsLongest Grammar.BeginsUnit (parserTokens missingArgument) v) :
    parse missingArgument ≠ ⟨none, errors ++
      [unexpectedAt missingArgument.toList ((parserTokens missingArgument).drop v) expected]⟩ := by
  intro hparse
  obtain ⟨_, _, _, hlength, _, hspan, hplaces⟩ := parse_missingArgument
  have hlow : 7 ≤ v := by
    have hle := hv.le _ _ (List.take_append_drop 7 _).symm beginsUnit_missingArgument
    rwa [List.length_take, hlength] at hle
  refine hplaces v (hv.le_length.trans_eq hlength) hlow ?_
  rw [hparse, List.getLast?_concat] at hspan
  exact Option.some.inj hspan

theorem fault_behind_longest_begun_missingArgument :
    (∀ d : Grammar.Source, d.lexemes ≠ parserTokens missingArgument) ∧
      FewDims (parserTokens missingArgument) ∧
      ∃ (k v : Nat) (expected : List Expectation),
        parse missingArgument = ⟨none,
          [unexpectedAt missingArgument.toList ((parserTokens missingArgument).drop k) expected]⟩ ∧
        IsLongest (Begun Grammar.Source.parts) (parserTokens missingArgument) k ∧
        IsLongest Grammar.BeginsUnit (parserTokens missingArgument) v ∧ k < v := by
  obtain ⟨_, _, _, _, herrors, _⟩ := parse_missingArgument
  obtain ⟨k, v, expected, hparse, hk, hv, hle, _⟩ :=
    fault_behind_longest_begun missingArgument no_unit_missingArgument fewDims_missingArgument
  refine ⟨no_unit_missingArgument, fewDims_missingArgument, k, v, expected, ?_, hk, hv,
    Nat.lt_of_le_of_ne hle ?_⟩
  · rw [hparse, herrors]
    rfl
  · rintro rfl
    exact parse_missingArgument_ne _ _ hv hparse

/-- The fault is not at the first token that no unit goes on with. -/
theorem fault_not_at_missingArgument :
    (∀ d : Grammar.Source, d.lexemes ≠ parserTokens missingArgument) ∧
      FewDims (parserTokens missingArgument) ∧
      ¬ ∃ (v : Nat) (expected : List Expectation),
        IsLongest Grammar.BeginsUnit (parserTokens missingArgument) v ∧
        parse missingArgument = ⟨none,
          (lex missingArgument).errors.map (fun e => ⟨.lexical e.1, e.2⟩) ++
            [unexpectedAt missingArgument.toList ((parserTokens missingArgument).drop v) expected]⟩ := by
  refine ⟨no_unit_missingArgument, fewDims_missingArgument, ?_⟩
  rintro ⟨v, expected, hv, hparse⟩
  exact parse_missingArgument_ne _ _ hv hparse

end ActorIdl.Syntax
