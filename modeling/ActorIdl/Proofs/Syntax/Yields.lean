import ActorIdl.Proofs.Syntax.Grammar
import ActorIdl.Syntax.Parser
/-! # What a successful parser has read

    `x.Yields source ok D` says of a parser that whenever it succeeds in `source`, its value is
    related by `D` to the lexemes that it has read, provided that all lexemes of the input are `ok`,
    and that it goes on behind them.  The rules follow the combinators, so a fact about the trees of
    the grammar is proved along the grammar: one rule for each combinator, in the order in which
    they stand. -/

namespace ActorIdl.Syntax

/-! ## Inputs behind what has been read -/

namespace Input

/-- The input behind some lexemes, with others to follow. -/
def after (i : Input) (ts us : List Lexeme) : Input :=
  { start i.source us with stop := (ts.getLast?.map (·.span.stop)).getD i.stop }

/-- How many tokens are left is known from the tokens. -/
theorem eq_of_rest_eq {i j : Input} (hsource : i.source = j.source) (hstop : i.stop = j.stop)
    (hrest : i.rest = j.rest) : i = j := by
  obtain ⟨source, stop, rest, left, hleft⟩ := i
  obtain ⟨source', stop', rest', left', hleft'⟩ := j
  cases hsource
  cases hstop
  cases hrest
  rw [← hleft'] at hleft
  cases hleft
  rfl

theorem after_nil (i : Input) : i.after [] i.rest = i := eq_of_rest_eq rfl rfl rfl

theorem after_after (i : Input) (ts us vs ws : List Lexeme) :
    (i.after ts vs).after us ws = i.after (ts ++ us) ws := by
  unfold after
  rw [List.getLast?_append]
  cases us.getLast? <;> rfl

/-- Of what has been read the last lexeme ends where the input goes on. -/
theorem span_after {i : Input} {l : Lexeme} {ls us : List Lexeme} (h : i.rest = l :: ls ++ us) :
    (⟨i.nextSpan.start, (i.after (l :: ls) us).stop⟩ : Span) = spanOf (l :: ls) := by
  have hstart : i.nextSpan = l.span := by rw [nextSpan, h, List.cons_append]
  unfold after spanOf
  rw [hstart, List.getLast?_cons]
  rfl

end Input

namespace Parser

/-- What a parser has read and made of it. -/
def Yields {α : Type} (source : List Char) (ok : Lexeme → Prop) (x : Parser α)
    (D : List Lexeme → α → Prop) : Prop :=
  ∀ i p a j q, i.source = source → (∀ l ∈ i.rest, ok l) → x i p = (some (a, j), q) →
    ∃ ts, i.rest = ts ++ j.rest ∧ j = i.after ts j.rest ∧ D ts a

namespace Yields

variable {α β : Type} {source : List Char} {ok : Lexeme → Prop} {x : Parser α}

theorem mono {D E : List Lexeme → α → Prop} (hx : x.Yields source ok D)
    (h : ∀ ts a, D ts a → E ts a) : x.Yields source ok E := by
  intro i p a j q hsource hok hrun
  obtain ⟨ts, hts, hj, hD⟩ := hx i p a j q hsource hok hrun
  exact ⟨ts, hts, hj, h ts a hD⟩

/-! ## Sequence and choice -/

theorem pure {a : α} {D : List Lexeme → α → Prop} (h : D [] a) :
    (pure a : Parser α).Yields source ok D := by
  rintro i p _ j q _ _ ⟨⟩
  exact ⟨[], rfl, i.after_nil.symm, h⟩

theorem bind {f : α → Parser β} {D : List Lexeme → α → Prop} {E : List Lexeme → β → Prop}
    (hx : x.Yields source ok D)
    (hf : ∀ us a, D us a → (f a).Yields source ok fun vs b => E (us ++ vs) b) :
    (x >>= f).Yields source ok E := by
  intro i p b k q hsource hok hrun
  change Parser.bind x f i p = _ at hrun
  unfold Parser.bind at hrun
  split at hrun
  · rename_i a j q' hx'
    obtain ⟨us, hus, hj, hD⟩ := hx i p a j q' hsource hok hx'
    have hok' : ∀ l ∈ j.rest, ok l := fun l hl => hok l (hus ▸ List.mem_append_right _ hl)
    have hsource' : j.source = source := by rw [hj]; exact hsource
    obtain ⟨vs, hvs, hk, hE⟩ := hf us a hD j q' b k q hsource' hok' hrun
    refine ⟨us ++ vs, by rw [hus, hvs, List.append_assoc], ?_, hE⟩
    rw [hj, Input.after_after] at hk
    exact hk
  · cases hrun

theorem orElse {y : Parser α} {D : List Lexeme → α → Prop} (hx : x.Yields source ok D)
    (hy : y.Yields source ok D) : (x <|> y).Yields source ok D := by
  intro i p a j q hsource hok hrun
  change Parser.orElse x (fun _ => y) i p = _ at hrun
  unfold Parser.orElse at hrun
  split at hrun
  · rename_i r _ hx'
    cases hrun
    exact hx i p a j _ hsource hok hx'
  · exact hy i _ a j q hsource hok hrun

/-! ## Tokens -/

theorem satisfy {what : Expectation} {f : Lexeme → Option α} {D : List Lexeme → α → Prop}
    (h : ∀ l a, ok l → f l = some a → D [l] a) : (satisfy what f).Yields source ok D := by
  intro i p a j q _ hok hrun
  unfold Parser.satisfy at hrun
  split at hrun
  · rename_i b hb
    cases hrun
    obtain ⟨l, hl, hfl⟩ := Option.bind_eq_some_iff.mp hb
    obtain ⟨ls, hls⟩ := List.head?_eq_some_iff.mp hl
    have hspan : i.nextSpan = l.span := by rw [Input.nextSpan, hls]
    refine ⟨[l], ?_, Input.eq_of_rest_eq rfl ?_ rfl, h l a (hok l (List.mem_of_head? hl)) hfl⟩
    · show i.rest = l :: i.rest.tail
      rw [hls, List.tail_cons]
    · exact congrArg Span.stop hspan
  · cases hrun

theorem keyword (k : Keyword) :
    (keyword k).Yields source ok fun ts _ => ∃ span, ts = [Grammar.word k span] := by
  refine satisfy fun l _ _ hl => ⟨l.span, ?_⟩
  split at hl
  · rename_i htoken
    rw [Grammar.word, ← htoken]
  · cases hl

theorem symbol (s : Symbol) :
    (symbol s).Yields source ok fun ts _ => ∃ span, ts = [Grammar.mark s span] := by
  refine satisfy fun l _ _ hl => ⟨l.span, ?_⟩
  split at hl
  · rename_i htoken
    rw [Grammar.mark, ← htoken]
  · cases hl

theorem endOfInput : endOfInput.Yields source ok fun ts _ => ts = [] := by
  intro i p a j q _ _ hrun
  unfold Parser.endOfInput at hrun
  split at hrun
  · cases hrun
    exact ⟨[], rfl, i.after_nil.symm, rfl⟩
  · cases hrun

/-! ## Repetition -/

theorem optional {D : List Lexeme → Option α → Prop} (hx : x.Yields source ok fun ts a => D ts (some a))
    (hnone : D [] none) : (optional x).Yields source ok D := by
  refine orElse (hx.bind fun us a hD => pure ?_) (pure hnone)
  rwa [List.append_nil]

/-- An invariant of a repetition holds of no values and of one more. -/
theorem atMost {D : List Lexeme → α → Prop} {E : List Lexeme → List α → Prop} (hx : x.Yields source ok D)
    (hnil : E [] []) (hcons : ∀ us vs a as, D us a → E vs as → E (us ++ vs) (a :: as)) (n : Nat) :
    (atMost x n).Yields source ok E := by
  induction n with
  | zero => exact pure hnil
  | succ n ih =>
    refine orElse (hx.bind fun us a hD => ih.bind fun vs as hE => pure ?_) (pure hnil)
    rw [List.append_nil]
    exact hcons us vs a as hD hE

theorem many {D : List Lexeme → α → Prop} {E : List Lexeme → List α → Prop} (hx : x.Yields source ok D)
    (hnil : E [] []) (hcons : ∀ us vs a as, D us a → E vs as → E (us ++ vs) (a :: as)) :
    (many x).Yields source ok E :=
  fun i => hx.atMost hnil hcons (i.left + 1) i

theorem between {D : List Lexeme → α → Prop} (left right : Symbol) (hx : x.Yields source ok D) :
    (between left right x).Yields source ok fun ts a => ∃ l us r,
      ts = Grammar.mark left l :: (us ++ [Grammar.mark right r]) ∧ D us a := by
  refine (symbol left).bind ?_
  rintro _ _ ⟨l, rfl⟩
  refine hx.bind fun us a hD => (symbol right).bind ?_
  rintro _ _ ⟨r, rfl⟩
  exact pure ⟨l, us, r, by simp, hD⟩

section
variable {P : α → Prop}

theorem many_all (hx : x.Yields source ok fun _ a => P a) :
    (Parser.many x).Yields source ok fun _ as => ∀ a ∈ as, P a :=
  hx.many (fun _ ha => absurd ha List.not_mem_nil) fun _ _ _ _ ha has =>
    List.forall_mem_cons.mpr ⟨ha, has⟩

theorem sepBy1_all (s : Symbol) (hx : x.Yields source ok fun _ a => P a) :
    (sepBy1 x (Parser.symbol s)).Yields source ok fun _ as => ∀ a ∈ as, P a := by
  have hmore : (Parser.many (do Parser.symbol s; x)).Yields source ok fun _ as => ∀ a ∈ as, P a :=
    ((symbol s).bind fun _ _ _ => hx).many_all
  exact hx.bind fun _ a ha => hmore.bind fun _ as has => pure (List.forall_mem_cons.mpr ⟨ha, has⟩)

theorem sepBy_all (s : Symbol) (hx : x.Yields source ok fun _ a => P a) :
    (sepBy x (Parser.symbol s)).Yields source ok fun _ as => ∀ a ∈ as, P a :=
  (hx.sepBy1_all s).orElse (pure fun _ ha => absurd ha List.not_mem_nil)

theorem between_all (left right : Symbol) (hx : x.Yields source ok fun _ a => P a) :
    (Parser.between left right x).Yields source ok fun _ a => P a :=
  (hx.between left right).mono fun _ _ ⟨_, _, _, _, h⟩ => h

end

/-! ## Spans -/

theorem spanned {D : List Lexeme → α → Prop} (hx : x.Yields source ok D) :
    (spanned x).Yields source ok fun ts r => D ts r.1 ∧ (ts ≠ [] → r.2 = spanOf ts) := by
  intro i p r j q hsource hok hrun
  unfold Parser.spanned at hrun
  split at hrun
  · rename_i a _ _ hx'
    cases hrun
    obtain ⟨ts, hts, hj, hD⟩ := hx i p a j _ hsource hok hx'
    refine ⟨ts, hts, hj, hD, fun hne => ?_⟩
    cases ts with
    | nil => exact absurd rfl hne
    | cons l ls =>
      show (⟨i.nextSpan.start, j.stop⟩ : Span) = _
      rw [hj]
      exact Input.span_after hts
  · cases hrun

theorem sourceText (span : Span) :
    (sourceText span).Yields source ok fun ts a => ts = [] ∧ a = textAt source span := by
  rintro i p _ j q hsource _ ⟨⟩
  exact ⟨[], rfl, i.after_nil.symm, rfl, by rw [hsource, textAt]⟩

theorem checked {check : α → Except Fault β} {spanOf : α → Span} {D : List Lexeme → β → Prop}
    (hx : x.Yields source ok fun ts a => ∀ b, check a = .ok b → D ts b) :
    (checked x check spanOf).Yields source ok D := by
  intro i p b j q hsource hok hrun
  unfold Parser.checked at hrun
  split at hrun
  · cases hrun
  · rename_i a j' q' hx'
    split at hrun
    · rename_i b' hcheck
      cases hrun
      obtain ⟨ts, hts, hj, hD⟩ := hx i none a j q' hsource hok hx'
      exact ⟨ts, hts, hj, hD b hcheck⟩
    · cases hrun

end Yields

end Parser

/-! ## Whole sources

A source has a tree exactly if the parser reads a unit in its lexemes.  Then only lexical errors are
reported, else also the fault that is pending where the parser fails. -/

section
variable {source : String} {u : CompilationUnit} {j : Input} {q : Option Pending}

theorem parse_of_run (h : Parser.unit
      (Input.start source.toList (DocComment.attach (lex source).lexemes)) none = (some (u, j), q)) :
    parse source = ⟨some u, (lex source).errors.map fun e => ⟨.lexical e.1, e.2⟩⟩ := by
  unfold parse parseLexemes
  dsimp only
  rw [h]
  dsimp only
  rw [Option.toList_none, List.append_nil]

theorem parse_of_failed (h : Parser.unit
      (Input.start source.toList (DocComment.attach (lex source).lexemes)) none = (none, q)) :
    parse source = ⟨none, (lex source).errors.map (fun e => ⟨.lexical e.1, e.2⟩) ++
      (q.map (·.fault)).toList⟩ := by
  unfold parse parseLexemes
  dsimp only
  rw [h]

theorem exists_run_of_unit (h : (parse source).unit = some u) : ∃ j q, Parser.unit
    (Input.start source.toList (DocComment.attach (lex source).lexemes)) none = (some (u, j), q) := by
  cases hrun : Parser.unit (Input.start source.toList (DocComment.attach (lex source).lexemes)) none with
  | mk r q =>
    cases r with
    | none =>
      rw [parse_of_failed hrun] at h
      cases h
    | some r =>
      rw [parse_of_run hrun] at h
      cases h
      exact ⟨r.2, q, rfl⟩

end

end ActorIdl.Syntax
