import ActorIdl.Proofs.Syntax.Derives
/-! # Where a parser looks for faults

    What is pending is at the end of the source, or at a token that could not be read, or at a type
    with too many dimensions.  All of these are places of tokens: `IsBlamable source tokens span`
    says that a span is the end of the source or the span of some tokens that follow each other.
    `x.Blames source tokens` says that `x` leaves nothing pending at any other place, and there is
    one rule for each combinator and one statement for each production. -/

namespace ActorIdl.Syntax

/-- The end of a source, or the place of some of its tokens. -/
inductive IsBlamable (source : List Char) (tokens : List Lexeme) : Span → Prop where
  | endOfInput : IsBlamable source tokens ⟨Text.byteLength source, Text.byteLength source⟩
  | tokens {ts : List Lexeme} (hne : ts ≠ []) (hts : ts <:+: tokens) :
      IsBlamable source tokens (spanOf ts)

/-- An input that goes on within some tokens. -/
structure Input.GoesOn (source : List Char) (tokens : List Lexeme) (i : Input) : Prop where
  source_eq : i.source = source
  rest : i.rest <:+ tokens

theorem Input.GoesOn.isBlamable {source : List Char} {tokens : List Lexeme} {i : Input}
    (h : i.GoesOn source tokens) : IsBlamable source tokens i.nextSpan := by
  unfold Input.nextSpan
  cases hrest : i.rest with
  | nil =>
    dsimp only
    rw [h.source_eq]
    exact .endOfInput
  | cons l ls =>
    have hone : [l] <:+: tokens := by
      have hprefix : [l] <+: i.rest := hrest ▸ ⟨ls, rfl⟩
      exact hprefix.isInfix.trans h.rest.isInfix
    exact .tokens (List.cons_ne_nil _ _) hone

namespace Parser

/-- Nothing but blamable places is pending after a parser if nothing else was pending before. -/
def Blames (source : List Char) (tokens : List Lexeme) {α : Type} (x : Parser α) : Prop :=
  ∀ i p, i.GoesOn source tokens → (∀ f ∈ p, IsBlamable source tokens f.fault.span) →
    (∀ f ∈ (x i p).2, IsBlamable source tokens f.fault.span) ∧
      ∀ a j, (x i p).1 = some (a, j) → j.GoesOn source tokens

namespace Blames

variable {source : List Char} {tokens : List Lexeme} {α β : Type} {x : Parser α}

theorem add {p : Option Pending} {left : Nat} {new : SourceFault}
    (hp : ∀ f ∈ p, IsBlamable source tokens f.fault.span)
    (hnew : IsBlamable source tokens new.span) :
    ∀ f ∈ Pending.add p left new, IsBlamable source tokens f.fault.span := by
  intro f hf
  unfold Pending.add at hf
  -- whatever is kept has the span of the fault before or of the new one
  split at hf
  · cases Option.mem_some.mp hf
    exact hnew
  · rename_i old
    have hold := hp old rfl
    split at hf
    · cases Option.mem_some.mp hf
      exact hnew
    · split at hf
      · cases Option.mem_some.mp hf
        exact hold
      · cases Option.mem_some.mp hf
        exact hold

/-! ## Combinators -/

theorem pure (a : α) : (pure a : Parser α).Blames source tokens := by
  intro i p hi hp
  refine ⟨hp, ?_⟩
  rintro _ _ ⟨⟩
  exact hi

theorem bind {f : α → Parser β} (hx : x.Blames source tokens) (hf : ∀ a, (f a).Blames source tokens) :
    (x >>= f).Blames source tokens := by
  intro i p hi hp
  obtain ⟨hq, hj⟩ := hx i p hi hp
  change (∀ f' ∈ (Parser.bind x f i p).2, _) ∧ ∀ b k, (Parser.bind x f i p).1 = some (b, k) → _
  unfold Parser.bind
  cases hrun : x i p with
  | mk result q =>
    rw [hrun] at hq hj
    cases result with
    | none => exact ⟨hq, fun _ _ hnone => by cases hnone⟩
    | some r => exact hf r.1 r.2 q (hj r.1 r.2 rfl) hq

theorem orElse {y : Parser α} (hx : x.Blames source tokens) (hy : y.Blames source tokens) :
    (x <|> y).Blames source tokens := by
  intro i p hi hp
  obtain ⟨hq, hj⟩ := hx i p hi hp
  change (∀ f' ∈ (Parser.orElse x (fun _ => y) i p).2, _) ∧
    ∀ b k, (Parser.orElse x (fun _ => y) i p).1 = some (b, k) → _
  unfold Parser.orElse
  cases hrun : x i p with
  | mk result q =>
    rw [hrun] at hq hj
    cases result with
    | none => exact hy i q hi hq
    | some r => exact ⟨hq, hj⟩

theorem satisfy (what : Expectation) (f : Lexeme → Option α) :
    (satisfy what f).Blames source tokens := by
  intro i p hi hp
  unfold Parser.satisfy
  split
  · refine ⟨hp, ?_⟩
    rintro _ _ ⟨⟩
    exact ⟨hi.source_eq, (List.tail_suffix _).trans hi.rest⟩
  · exact ⟨add hp hi.isBlamable, fun _ _ hnone => by cases hnone⟩

theorem endOfInput : endOfInput.Blames source tokens := by
  intro i p hi hp
  unfold Parser.endOfInput
  split
  · refine ⟨hp, ?_⟩
    rintro _ _ ⟨⟩
    exact hi
  · exact ⟨add hp hi.isBlamable, fun _ _ hnone => by cases hnone⟩

theorem spanned (hx : x.Blames source tokens) : (spanned x).Blames source tokens := by
  intro i p hi hp
  obtain ⟨hq, hj⟩ := hx i p hi hp
  unfold Parser.spanned
  cases hrun : x i p with
  | mk result q =>
    rw [hrun] at hq hj
    cases result with
    | none => exact ⟨hq, fun _ _ hnone => by cases hnone⟩
    | some r =>
      refine ⟨hq, ?_⟩
      rintro _ _ ⟨⟩
      exact hj r.1 r.2 rfl

theorem sourceText (span : Span) : (sourceText span).Blames source tokens := by
  intro i p hi hp
  refine ⟨hp, ?_⟩
  rintro _ _ ⟨⟩
  exact hi

/-- A check blames the tokens of the value, so the value must say where it was read. -/
theorem checked {check : α → Except Fault β} {span : α → Span} {ok : Lexeme → Prop}
    (hok : ∀ l ∈ tokens, ok l) (hx : x.Blames source tokens)
    (hspan : x.Yields source ok fun ts a => ts ≠ [] ∧ span a = spanOf ts) :
    (checked x check span).Blames source tokens := by
  intro i p hi hp
  obtain ⟨hq, hj⟩ := hx i none hi (fun _ hf => absurd hf (Option.not_mem_none _))
  unfold Parser.checked
  cases hrun : x i none with
  | mk result q =>
    rw [hrun] at hq hj
    cases result with
    | none => exact ⟨hq, fun _ _ hnone => by cases hnone⟩
    | some r =>
      obtain ⟨a, j⟩ := r
      obtain ⟨ts, hts, -, hne, hvalue⟩ :=
        hspan i none a j q hi.source_eq (fun l hl => hok l (hi.rest.subset hl)) hrun
      have hinfix' : ts <:+: tokens := (hts ▸ (List.prefix_append ts j.rest).isInfix).trans hi.rest.isInfix
      dsimp only
      cases check a with
      -- a failed check blames all that has been read, and that is not nothing
      | error fault =>
        exact ⟨add hp (hvalue ▸ .tokens hne hinfix'), fun _ _ hnone => by cases hnone⟩
      -- what was pending inside is added again, which keeps its span
      | ok b =>
        refine ⟨?_, fun _ _ hsome => ?_⟩
        · cases q with
          | none => exact hp
          | some inner => exact add hp (hq inner rfl)
        · cases hsome
          exact hj a j rfl

theorem keyword (k : Keyword) : (keyword k).Blames source tokens := satisfy _ _

theorem symbol (s : Symbol) : (symbol s).Blames source tokens := satisfy _ _

theorem optional (hx : x.Blames source tokens) : (optional x).Blames source tokens :=
  (hx.bind fun _ => pure _).orElse (pure none)

theorem atMost (hx : x.Blames source tokens) (n : Nat) : (atMost x n).Blames source tokens := by
  induction n with
  | zero => exact pure []
  | succ n ih => exact (hx.bind fun _ => ih.bind fun _ => pure _).orElse (pure [])

theorem many (hx : x.Blames source tokens) : (many x).Blames source tokens :=
  fun i => hx.atMost (i.left + 1) i

theorem sepBy1 (hx : x.Blames source tokens) (s : Symbol) :
    (sepBy1 x (Parser.symbol s)).Blames source tokens :=
  hx.bind fun _ => ((symbol s).bind fun _ => hx).many.bind fun _ => pure _

theorem sepBy (hx : x.Blames source tokens) (s : Symbol) :
    (sepBy x (Parser.symbol s)).Blames source tokens := (hx.sepBy1 s).orElse (pure [])

theorem between (left right : Symbol) (hx : x.Blames source tokens) :
    (between left right x).Blames source tokens :=
  (symbol left).bind fun _ => hx.bind fun _ => (symbol right).bind fun _ => pure _

end Blames

/-! ## Productions -/

section
variable {source : List Char} {tokens : List Lexeme}

theorem blames_ident : ident.Blames source tokens := .satisfy _ _

theorem blames_qualified : qualified.Blames source tokens := by
  have hmore : (do symbol .dot; segment).Blames source tokens :=
    (Blames.symbol .dot).bind fun _ => .satisfy _ _
  exact (blames_ident.bind fun _ => hmore.many.bind fun _ => .pure _).spanned.bind fun _ => .pure _

theorem blames_typeWithin (hspelled : ∀ l ∈ tokens, Spelled source l) (n : Nat) :
    (typeWithin n).Blames source tokens := by
  induction n with
  | zero =>
    intro i p _ hp
    exact ⟨hp, fun _ _ hnone => by cases hnone⟩
  | succ n ih =>
    have hbrackets : brackets.Blames source tokens :=
      (Blames.symbol .leftBracket).bind fun _ => .symbol .rightBracket
    refine Blames.checked hspelled (Blames.bind (Blames.spanned ?_) fun _ => .pure _) ?_
    · exact blames_qualified.bind fun _ => ((ih.sepBy1 .comma).between .less .greater).optional.bind
        fun _ => hbrackets.many.bind fun _ => .pure _
    · -- the span of the type is that of its tokens, however many brackets there are
      refine (yields_typeParts (derives_typeWithin n)).spanned.bind ?_
      rintro ts ⟨_, span⟩ ⟨⟨name, args, pairs, hts, _⟩, hspan⟩
      have hne : ts ≠ [] := by
        rw [hts, List.append_assoc]
        exact List.append_ne_nil_of_left_ne_nil (List.cons_ne_nil _ _) _
      refine .pure ?_
      rw [List.append_nil]
      exact ⟨hne, hspan hne⟩

section
variable (hspelled : ∀ l ∈ tokens, Spelled source l)
include hspelled

theorem blames_type : type.Blames source tokens :=
  fun i => blames_typeWithin hspelled (i.left + 1) i

theorem blames_clause (k : Keyword) : (clause k).Blames source tokens :=
  ((Blames.keyword k).bind fun _ => (blames_type hspelled).sepBy1 .comma).optional.bind
    fun _ => .pure _

end

theorem blames_annotationUse : annotationUse.Blames source tokens := by
  have hargument : argument.Blames source tokens :=
    ((Blames.satisfy _ _).orElse (blames_qualified.bind fun _ => .pure _)).spanned.bind
      fun _ => .sourceText _
  exact ((Blames.symbol .atSign).bind fun _ => blames_qualified.bind fun _ =>
    ((hargument.sepBy .comma).between .leftParen .rightParen).optional.bind
      fun _ => .pure _).spanned.bind fun _ => .pure _

theorem blames_header : header.Blames source tokens :=
  (Blames.satisfy _ _).optional.bind fun _ => blames_annotationUse.many.bind fun _ => .pure _

section
variable (hspelled : ∀ l ∈ tokens, Spelled source l)
include hspelled

theorem blames_method : method.Blames source tokens := by
  have hparam : param.Blames source tokens :=
    ((blames_type hspelled).bind fun _ => blames_ident.bind fun _ => .pure _).spanned.bind
      fun _ => .pure _
  exact (blames_header.bind fun _ => (blames_type hspelled).bind fun _ => blames_ident.bind fun _ =>
    ((hparam.sepBy .comma).between .leftParen .rightParen).bind fun _ =>
      (Blames.symbol .semi).bind fun _ => .pure _).spanned.bind fun _ => .pure _

theorem blames_declWithin (n : Nat) : (declWithin n).Blames source tokens := by
  induction n with
  | zero =>
    intro i p _ hp
    exact ⟨hp, fun _ _ hnone => by cases hnone⟩
  | succ n ih =>
    -- the declarations in the body are nested one level less deep
    have hmember : ((do let d ← declWithin n; return d.toMember) <|>
        (do let m ← method; return .method m) : Parser Member).Blames source tokens :=
      (ih.bind fun _ => .pure _).orElse ((blames_method hspelled).bind fun _ => .pure _)
    have hbody := (hmember.many.between .leftBrace .rightBrace).orElse
      ((Blames.symbol .semi).bind fun _ => .pure [])
    exact (blames_header.bind fun _ => (Blames.keyword _).optional.bind fun _ =>
      (Blames.satisfy _ _).bind fun _ => blames_ident.bind fun _ =>
      (blames_clause hspelled _).bind fun _ => (blames_clause hspelled _).bind fun _ =>
      hbody.bind fun _ => .pure _).spanned.bind fun _ => .pure _

theorem blames_unit : unit.Blames source tokens := by
  have hline : ∀ k, (nameLine k).Blames source tokens := fun k =>
    (Blames.keyword k).bind fun _ => blames_qualified.bind fun _ =>
      (Blames.symbol .semi).bind fun _ => .pure _
  have hdecl : decl.Blames source tokens := fun i => blames_declWithin hspelled (i.left + 1) i
  exact ((hline _).optional.bind fun _ => (hline _).many.bind fun _ => hdecl.many.bind fun _ =>
    Blames.endOfInput.bind fun _ => .pure _).spanned.bind fun _ => .pure _

end

end

end Parser

end ActorIdl.Syntax
