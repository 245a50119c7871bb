import ActorIdl.Proofs.Syntax.Tracks
/-! # Types and headers are read as far as possible

    Every front of a type that consists of whole parts is a type again, and every such front of what
    stands before a member is a header again.  So it matters which of them the parser reads:
    `x.Covers source m lexemes` says that wherever something that `x` derives stands in front of the
    input, `x` succeeds and reads at least as much. -/

namespace ActorIdl.Syntax.Parser

open Grammar (Avoids Begins Starts Begun mark noToken isMark optionalParts dotted pair)

variable {α β δ δ₁ δ₂ : Type} {source : List Char} {m : Nat} {x : Parser α} {f : α → Parser β}
  {lexemes : δ → List Lexeme} {lexemes₁ : δ₁ → List Lexeme} {lexemes₂ : δ₂ → List Lexeme}
  {stop first : Token → Bool} {D : List Lexeme → α → Prop}

/-- Reads at least what it derives, whatever follows. -/
def Covers (x : Parser α) (source : List Char) (m : Nat) (lexemes : δ → List Lexeme) : Prop :=
  ∀ i p d us, i.source = source → (∀ l ∈ i.rest, Spelled source l) → i.left < m →
    i.tokens = tokens (lexemes d ++ us) → ∃ a j q, x i p = (some (a, j), q) ∧ j.left ≤ us.length

theorem left_of_tokens_eq {i : Input} {us : List Lexeme} (h : i.tokens = tokens us) :
    i.left = us.length := by
  rw [i.left_eq_length, h, tokens, List.length_map]

/-- What is left when some lexemes have been read. -/
theorem Yields.goes_on (hx : x.Yields source (Spelled source) D) {i j : Input} {p q : Option Pending}
    {a : α} (hsource : i.source = source) (hspelled : ∀ l ∈ i.rest, Spelled source l)
    (hrun : x i p = (some (a, j), q)) :
    j.source = source ∧ (∀ l ∈ j.rest, Spelled source l) ∧ j.left ≤ i.left := by
  obtain ⟨ts, hts, hj, _⟩ := hx i p a j q hsource hspelled hrun
  refine ⟨hj ▸ hsource, fun l hl => hspelled l (hts ▸ List.mem_append_right ts hl), ?_⟩
  rw [i.left_eq, j.left_eq, hts, List.length_append]
  exact Nat.le_add_left _ _

namespace Covers

theorem of_accepts (hx : ∀ d, x.Accepts (lexemes d) noToken) : x.Covers source m lexemes := by
  intro i p d us _ _ _ htokens
  obtain ⟨a, j, q, hrun, hj, _⟩ := hx d us avoids_noToken i p (htokens.trans (tokens_append _ _))
  exact ⟨a, j, q, hrun, (left_of_tokens_eq hj).le⟩

theorem of_surjective {e : δ₁ → δ} (hx : x.Covers source m lexemes₁) (he : Function.Surjective e)
    (hlexemes : ∀ d, lexemes (e d) = lexemes₁ d) : x.Covers source m lexemes := by
  intro i p d us hsource hspelled hleft htokens
  obtain ⟨d, rfl⟩ := he d
  exact hx i p d us hsource hspelled hleft (hlexemes d ▸ htokens)

theorem bind_silent (hx : x.Covers source m lexemes) (hf : ∀ a, (f a).IsSilent) :
    (x >>= f).Covers source m lexemes := by
  intro i p d us hsource hspelled hleft htokens
  obtain ⟨a, j, q, hrun, hj⟩ := hx i p d us hsource hspelled hleft htokens
  obtain ⟨b, hb⟩ := hf a j q
  refine ⟨b, j, q, ?_, hj⟩
  change Parser.bind x f i p = _
  rw [Parser.bind, hrun]
  exact hb

theorem spanned (hx : x.Covers source m lexemes) : (spanned x).Covers source m lexemes := by
  intro i p d us hsource hspelled hleft htokens
  obtain ⟨a, j, q, hrun, hj⟩ := hx i p d us hsource hspelled hleft htokens
  refine ⟨(a, ⟨i.nextSpan.start, j.stop⟩), j, q, ?_, hj⟩
  rw [Parser.spanned, hrun]

/-- If the second one is not empty then the first one is read exactly. -/
theorem bind (first : Token → Bool) (hx : x.Covers source m lexemes₁)
    (hyields : x.Yields source (Spelled source) D)
    (haccepts : ∀ d, (lexemes₁ d).length < m → x.Accepts (lexemes₁ d) stop)
    (hf : ∀ a, (f a).Covers source m lexemes₂) (hstarts : ∀ d, Starts first (lexemes₂ d))
    (hnext : ∀ t, first t = true → stop t = false) :
    (x >>= f).Covers source m fun d : δ₁ × δ₂ => lexemes₁ d.1 ++ lexemes₂ d.2 := by
  intro i p d us hsource hspelled hleft htokens
  rw [List.append_assoc] at htokens
  obtain ⟨a, j, q, hrun, hj⟩ := hx i p d.1 _ hsource hspelled hleft htokens
  obtain ⟨hsource', hspelled', hleft'⟩ := hyields.goes_on hsource hspelled hrun
  -- without a second part whatever is left will do, and a second part begins with a token the first
  -- parser stops at
  have hrest : ∃ vs, j.tokens = tokens (lexemes₂ d.2 ++ vs) ∧ vs.length ≤ us.length := by
    rcases hstarts d.2 with hnil | hbegins
    · rw [hnil, List.nil_append] at hj
      exact ⟨j.rest, by rw [hnil]; rfl, j.left_eq ▸ hj⟩
    · -- the number of lexemes left bounds the first part, which is therefore read exactly
      have hlength : (lexemes₁ d.1).length < m := by
        rw [left_of_tokens_eq htokens, List.length_append] at hleft
        omega
      obtain ⟨a', j', q', hrun', hj', _⟩ := haccepts d.1 hlength _
        ((hbegins.append us).avoids hnext) i p (htokens.trans (tokens_append _ _))
      rw [hrun] at hrun'
      cases hrun'
      exact ⟨us, hj', Nat.le_refl _⟩
  obtain ⟨vs, hvs, hle⟩ := hrest
  obtain ⟨b, k, r, hrun', hk⟩ := hf a j q d.2 vs hsource' hspelled' (hleft'.trans_lt hleft) hvs
  refine ⟨b, k, r, ?_, hk.trans hle⟩
  change Parser.bind x f i p = _
  rw [Parser.bind, hrun]
  exact hrun'

theorem optional (hx : ∀ d, lexemes d ≠ [] → (lexemes d).length < m → x.Accepts (lexemes d) noToken)
    (hyields : x.Yields source (Spelled source) D) : (optional x).Covers source m lexemes := by
  intro i p d us hsource hspelled hleft htokens
  -- nothing has to be read, and if something is then less is left
  by_cases hnil : lexemes d = []
  · rw [hnil, List.nil_append] at htokens
    change ∃ a j q, Parser.orElse (Parser.bind x fun a => Parser.pure (some a))
      (fun _ => Parser.pure none) i p = (some (a, j), q) ∧ j.left ≤ us.length
    unfold Parser.orElse Parser.bind
    rw [← left_of_tokens_eq htokens]
    cases hrun : x i p with
    | mk r q =>
      cases r with
      | none => exact ⟨none, i, q, rfl, Nat.le_refl _⟩
      | some r => exact ⟨some r.1, r.2, q, rfl, (hyields.goes_on hsource hspelled hrun).2.2⟩
  · have hlength : (lexemes d).length < m := by
      rw [left_of_tokens_eq htokens, List.length_append] at hleft
      omega
    obtain ⟨a, j, q, hrun, hj, _⟩ := (hx d hnil hlength us avoids_noToken).optional_some i p
      (htokens.trans (tokens_append _ _))
    exact ⟨a, j, q, hrun, (left_of_tokens_eq hj).le⟩

section
variable (hx : x.Covers source m lexemes) (hyields : x.Yields source (Spelled source) D)
  (haccepts : ∀ d, (lexemes d).length < m → x.Accepts (lexemes d) stop)
  (hfirst : ∀ d, Begins first (lexemes d)) (hnext : ∀ t, first t = true → stop t = false)
include hx hyields haccepts hfirst hnext

/-- Items are read one by one, so long as they are not more than the bound. -/
theorem atMost (n : Nat) {i : Input} (p : Option Pending) {ds : List δ} {us : List Lexeme}
    (hsource : i.source = source) (hspelled : ∀ l ∈ i.rest, Spelled source l) (hleft : i.left < m)
    (htokens : i.tokens = tokens (ds.flatMap lexemes ++ us)) (hn : ds ≠ [] → i.left < n) :
    ∃ as j q, atMost x n i p = (some (as, j), q) ∧ j.left ≤ us.length := by
  induction n generalizing i p ds us with
  | zero =>
    have hnil : ds = [] := by
      by_contra hne
      exact Nat.not_lt_zero _ (hn hne)
    subst hnil
    exact ⟨[], i, p, rfl, (left_of_tokens_eq htokens).le⟩
  | succ n ih =>
    have hmore : ∀ {a j q as k r}, x i p = (some (a, j), q) → Parser.atMost x n j q = (some (as, k), r) →
        Parser.atMost x (n + 1) i p = (some (a :: as, k), r) := by
      intro a j q as k r hrun hrun'
      change Parser.orElse (Parser.bind x fun a => Parser.bind (Parser.atMost x n) fun as =>
        Parser.pure (a :: as)) (fun _ => Parser.pure []) i p = _
      simp only [Parser.orElse, Parser.bind, hrun, hrun', Parser.pure]
    -- no item has to be read any more
    have hnil : ∀ {j : Input} (q : Option Pending), j.source = source →
        (∀ l ∈ j.rest, Spelled source l) → j.left < m →
          ∃ as k r, Parser.atMost x n j q = (some (as, k), r) ∧ k.left ≤ j.left := by
      intro j q hsource' hspelled' hleft'
      rw [j.left_eq]
      exact @ih j q [] j.rest hsource' hspelled' hleft' rfl fun hne => absurd rfl hne
    cases ds with
    | nil =>
      have hle := left_of_tokens_eq htokens
      cases hrun : x i p with
      | mk r q =>
        cases r with
        | none =>
          refine ⟨[], i, q, ?_, hle.le⟩
          change Parser.orElse (Parser.bind x fun a => Parser.bind (Parser.atMost x n) fun as =>
            Parser.pure (a :: as)) (fun _ => Parser.pure []) i p = _
          simp only [Parser.orElse, Parser.bind, hrun, Parser.pure]
        | some r =>
          obtain ⟨a, j⟩ := r
          obtain ⟨hsource', hspelled', hleft'⟩ := hyields.goes_on hsource hspelled hrun
          obtain ⟨as, k, r, hrun', hk⟩ := hnil q hsource' hspelled' (hleft'.trans_lt hleft)
          exact ⟨a :: as, k, r, hmore hrun hrun', (hk.trans hleft').trans hle.le⟩
    | cons d ds =>
      rw [List.flatMap_cons, List.append_assoc] at htokens
      obtain ⟨a, j, q, hrun, hj⟩ := hx i p d _ hsource hspelled hleft htokens
      obtain ⟨hsource', hspelled', hleft'⟩ := hyields.goes_on hsource hspelled hrun
      cases ds with
      | nil =>
        obtain ⟨as, k, r, hrun', hk⟩ := hnil q hsource' hspelled' (hleft'.trans_lt hleft)
        exact ⟨a :: as, k, r, hmore hrun hrun', hk.trans hj⟩
      | cons d' ds =>
        have hlength := left_of_tokens_eq htokens
        rw [List.length_append] at hlength
        have hpos := List.length_pos_of_ne_nil (hfirst d).ne_nil
        have hbegins : Begins first ((d' :: ds).flatMap lexemes ++ us) := by
          rw [List.flatMap_cons, List.append_assoc]
          exact (hfirst d').append _
        obtain ⟨a', j', q', hrun', hj', _⟩ := haccepts d (by omega) _ (hbegins.avoids hnext) i p
          (htokens.trans (tokens_append _ _))
        rw [hrun] at hrun'
        cases hrun'
        have hbound := hn (List.cons_ne_nil _ _)
        have hshorter := left_of_tokens_eq hj'
        obtain ⟨as, k, r, hrun', hk⟩ := ih q hsource' hspelled' (hleft'.trans_lt hleft) hj'
          fun _ => by omega
        exact ⟨a :: as, k, r, hmore hrun hrun', hk⟩

theorem many : (many x).Covers source m (List.flatMap lexemes) :=
  fun i p _ _ hsource hspelled hleft htokens =>
    hx.atMost hyields haccepts hfirst hnext (i.left + 1) p hsource hspelled hleft htokens
      fun _ => Nat.lt_succ_self _

end

end Covers

/-! ## Productions -/

theorem covers_dotted : (many (do symbol .dot; segment)).Covers source m
    fun tail : List (Span × Grammar.Segment) => tail.flatMap dotted := by
  have hmore : (do symbol .dot; segment).Yields source (Spelled source) fun _ _ => True :=
    (Yields.symbol .dot).bind fun _ _ _ => derives_segment.mono fun _ _ _ => trivial
  exact (Covers.of_accepts accepts_dotted).many hmore (fun s _ => accepts_dotted s)
    Grammar.begins_dotted fun _ _ => rfl

theorem covers_qualified : qualified.Covers source m Grammar.Qualified.lexemes := by
  have hparts : (do
      let head ← ident
      let tail ← Parser.many (do symbol .dot; segment)
      return (head, tail)).Covers source m
        fun d : Grammar.Ident × List (Span × Grammar.Segment) => [d.1.lexeme] ++ d.2.flatMap dotted :=
    (Covers.of_accepts accepts_ident).bind (isMark .dot) derives_ident (fun n _ => accepts_ident n)
      (fun _ => covers_dotted.bind_silent fun _ => isSilent_pure _)
      (Grammar.starts_flatMap Grammar.begins_dotted) fun _ _ => rfl
  exact (hparts.spanned.bind_silent fun r => isSilent_pure _).of_surjective
    (e := fun d : Grammar.Ident × List (Span × Grammar.Segment) => Grammar.Qualified.mk d.1 d.2)
    (fun q => ⟨(q.head, q.tail), rfl⟩) fun _ => rfl

/-- A type with any number of dimensions. -/
theorem covers_typeParts (n : Nat) :
    (typeParts n).Covers source (n + 1)
      fun d : Grammar.Qualified × Grammar.TypeArgs × List (Span × Span) =>
        d.1.lexemes ++ (d.2.1.lexemes ++ d.2.2.flatMap pair) := by
  have hpair : ∀ b : Span × Span, Begins (isMark .leftBracket) (pair b) := fun _ => .cons _ rfl
  have hdims : (many brackets).Covers source (n + 1)
      fun dims : List (Span × Span) => dims.flatMap pair :=
    (Covers.of_accepts accepts_brackets).many derives_brackets (fun b _ => accepts_brackets b) hpair
      fun _ _ => rfl
  -- arguments are the only part that nests, with one level less
  have hargs : (typeArgsWithin n).Covers source (n + 1) Grammar.TypeArgs.lexemes :=
    Covers.optional (fun a hne hlength => accepts_typeArgs a n (Nat.le_of_lt_succ hlength) hne)
      ((derives_typeWithin n).sepBy1.between .less .greater)
  have hmore : ∀ name, (do
      let args ← typeArgsWithin n
      let dims ← many brackets
      return (name, args.getD [], dims.length) :
        Parser (QualifiedName × List TypeExpr × Nat)).Covers source (n + 1)
          fun d : Grammar.TypeArgs × List (Span × Span) => d.1.lexemes ++ d.2.flatMap pair :=
    fun name => hargs.bind (isMark .leftBracket) (yields_typeArgs (derives_typeWithin n))
      (fun a hlength => accepts_typeArgsWithin (accepts_typeArgs a n (Nat.le_of_lt_succ hlength)))
      (fun _ => hdims.bind_silent fun _ => isSilent_pure _) (Grammar.starts_flatMap hpair)
      (Grammar.class_of_isMark rfl)
  -- after the name only `<` or `[` can begin the rest, and both end a qualified name
  refine covers_qualified.bind (fun t => isMark .less t || isMark .leftBracket t) derives_qualified
    (fun q _ => accepts_qualified q) hmore (fun d => ?_) fun t ht => ?_
  · rcases Grammar.starts_typeArgs d.1 with hnil | hbegins
    · rw [hnil, List.nil_append]
      exact (Grammar.starts_flatMap hpair d.2).imp_right fun h => h.mono fun t ht => by
        rw [ht, Bool.or_true]
    · exact .inr ((hbegins.append _).mono fun t ht => by rw [ht, Bool.true_or])
  · rcases Bool.or_eq_true _ _ ▸ ht with h | h <;> exact Grammar.class_of_isMark rfl t h

theorem covers_annotationUse : annotationUse.Covers source m Grammar.AnnotationUse.lexemes := by
  have hargs : (optional (between .leftParen .rightParen (sepBy argument (symbol .comma)))).Covers
      source m (Grammar.optional Grammar.Arguments.lexemes) := by
    refine Covers.optional (fun o hne _ => ?_) (derives_argument.sepBy.between .leftParen .rightParen)
    cases o with
    | none => exact absurd rfl hne
    | some args => exact accepts_arguments args
  have hmore : (do
      let name ← qualified
      let args ← optional (between .leftParen .rightParen (sepBy argument (symbol .comma)))
      return (name, args.getD [])).Covers source m
        fun d : Grammar.Qualified × Option Grammar.Arguments =>
          d.1.lexemes ++ Grammar.optional Grammar.Arguments.lexemes d.2 :=
    covers_qualified.bind (isMark .leftParen) derives_qualified (fun q _ => accepts_qualified q)
      (fun _ => hargs.bind_silent fun _ => isSilent_pure _)
      (Grammar.starts_optional Grammar.begins_arguments) (Grammar.class_of_isMark rfl)
  -- the name is what always stands behind the sign
  have hparts : (do
      symbol .atSign
      let name ← qualified
      let args ← optional (between .leftParen .rightParen (sepBy argument (symbol .comma)))
      return (name, args.getD [])).Covers source m
        fun d : Span × Grammar.Qualified × Option Grammar.Arguments => [mark .atSign d.1] ++
          (d.2.1.lexemes ++ Grammar.optional Grammar.Arguments.lexemes d.2.2) :=
    (Covers.of_accepts (Accepts.symbol .atSign)).bind Grammar.startsType (Yields.symbol .atSign)
      (fun span _ => Accepts.symbol .atSign span) (fun _ => hmore)
      (fun d => .inr ((Grammar.begins_qualified d.1).append _)) fun _ _ => rfl
  exact (hparts.spanned.bind_silent fun r => isSilent_pure _).of_surjective
    (e := fun d : Span × Grammar.Qualified × Option Grammar.Arguments =>
      Grammar.AnnotationUse.mk d.1 d.2.1 d.2.2)
    (fun a => ⟨(a.sign, a.name, a.args), rfl⟩) fun _ => rfl

theorem covers_header : header.Covers source m Grammar.Header.lexemes := by
  have hyields : doc.Yields source (Spelled source) fun _ _ => True :=
    Yields.satisfy fun _ _ _ _ => trivial
  have hdoc : (optional doc).Covers source m
      (Grammar.optional fun d : Grammar.Doc => [d.lexeme]) := by
    refine Covers.optional (fun o hne _ => ?_) hyields
    cases o with
    | none => exact absurd rfl hne
    | some d => exact Accepts.satisfy fun l hl => ⟨d.text, by rw [hl]; rfl⟩
  have hannotations : (many annotationUse).Covers source m
      (List.flatMap Grammar.AnnotationUse.lexemes) :=
    covers_annotationUse.many derives_annotationUse (fun a _ => accepts_annotationUse a)
      Grammar.begins_annotationUse (Grammar.class_of_isMark rfl)
  have hyields' : (optional doc).Yields source (Spelled source) fun _ _ => True :=
    Yields.optional hyields trivial
  have hparts : header.Covers source m fun d : Option Grammar.Doc × List Grammar.AnnotationUse =>
      Grammar.optional (fun d : Grammar.Doc => [d.lexeme]) d.1 ++
        d.2.flatMap Grammar.AnnotationUse.lexemes :=
    -- an annotation begins with a sign and so ends the documentation
    hdoc.bind (isMark .atSign) hyields' (fun d _ => accepts_doc d)
      (fun _ => hannotations.bind_silent fun _ => isSilent_pure _)
      (Grammar.starts_flatMap Grammar.begins_annotationUse) (Grammar.class_of_isMark rfl)
  exact hparts.of_surjective
    (e := fun d : Option Grammar.Doc × List Grammar.AnnotationUse => Grammar.Header.mk d.1 d.2)
    (fun h => ⟨(h.doc, h.annotations), rfl⟩) fun _ => rfl

/-! ## Whole parts -/

section
open Grammar

theorem flatten_take_dotted (n : Nat) (tail : List (Span × Segment)) (more : List (List Lexeme)) :
    ((tail.map dotted ++ more).take n).flatten =
      (tail.take n).flatMap dotted ++ (more.take (n - tail.length)).flatten := by
  rw [List.take_append, List.flatten_append, List.length_map, ← List.map_take, List.flatMap_def]

/-- The first parts of a type are a type. -/
theorem typeUse_of_begun {b : List Lexeme} (h : Begun TypeUse.parts b) (hb : b ≠ []) :
    ∃ t : TypeUse, b = t.lexemes := by
  obtain ⟨⟨⟨head, tail⟩, args, ⟨brackets, few⟩⟩, n, rfl⟩ := h
  cases n with
  | zero => exact absurd rfl hb
  | succ n =>
    rw [TypeUse.parts, List.take_succ_cons, List.flatten_cons, flatten_take_dotted]
    cases hn : n - tail.length with
    | zero =>
      -- the dotted name is cut short, and nothing follows it
      refine ⟨.mk ⟨head, tail.take n⟩ .absent ⟨[], Nat.zero_le _⟩, ?_⟩
      rw [List.take_zero, List.flatten_nil, List.append_nil, TypeUse.lexemes, TypeArgs.lexemes,
        List.append_nil]
      show _ = Qualified.lexemes _ ++ []
      rw [List.append_nil]
      rfl
    | succ k =>
      have htail : tail.take n = tail := List.take_of_length_le (by omega)
      -- the name is whole, so only the dimensions can be cut short
      refine ⟨.mk ⟨head, tail⟩ args ⟨brackets.take k, ?_⟩, ?_⟩
      · rw [List.length_take]
        exact (Nat.min_le_right _ _).trans few
      · rw [htail, List.take_succ_cons, List.flatten_cons, ← List.map_take, ← List.flatMap_def,
          TypeUse.lexemes, List.append_assoc]
        rfl

/-- The first parts of an annotation are an annotation. -/
theorem annotationUse_of_begun {b : List Lexeme} (h : Begun AnnotationUse.parts b) (hb : b ≠ []) :
    ∃ a : AnnotationUse, b = a.lexemes := by
  obtain ⟨⟨sign, ⟨head, tail⟩, args⟩, n, rfl⟩ := h
  cases n with
  | zero => exact absurd rfl hb
  | succ n =>
    rw [AnnotationUse.parts, List.take_succ_cons, List.flatten_cons, flatten_take_dotted]
    cases hn : n - tail.length with
    | zero =>
      -- the dotted name is cut short
      refine ⟨⟨sign, ⟨head, tail.take n⟩, none⟩, ?_⟩
      rw [List.take_zero, List.flatten_nil, List.append_nil, AnnotationUse.lexemes, Grammar.optional,
        List.append_nil]
      rfl
    | succ k =>
      -- the name is whole, and the arguments behind it are one part
      have htail : tail.take n = tail := List.take_of_length_le (by omega)
      refine ⟨⟨sign, ⟨head, tail⟩, args⟩, ?_⟩
      rw [htail, List.take_succ_cons, List.take_nil, List.flatten_cons, List.flatten_nil,
        List.append_nil]
      rfl

/-- The first parts of what stands in front of a member can stand there. -/
theorem header_of_begun {b : List Lexeme} (h : Begun Header.parts b) : ∃ h : Header, b = h.lexemes := by
  have hpair : Begun (fun d : Option Doc × List AnnotationUse =>
      optionalParts (fun d => [[d.lexeme]]) d.1 ++ d.2.flatMap AnnotationUse.parts) b :=
    (begun_of_surjective (e := fun d : Option Doc × List AnnotationUse => Header.mk d.1 d.2)
      (fun h => ⟨(h.doc, h.annotations), rfl⟩) fun _ => rfl).mp h
  rcases begun_append.mp hpair with hdoc | ⟨doc, b', hannotations, rfl⟩
  · -- at most the documentation has begun
    rcases begun_optionalParts.mp hdoc with rfl | ⟨d, n, rfl⟩
    · exact ⟨⟨none, []⟩, rfl⟩
    · cases n with
      | zero => exact ⟨⟨none, []⟩, rfl⟩
      | succ n =>
        rw [List.take_succ_cons, List.take_nil]
        exact ⟨⟨some d, []⟩, rfl⟩
  · -- behind the whole documentation some annotations and the beginning of one more
    obtain ⟨annotations, c, rfl, hc⟩ := exists_flatMap_of_begun hannotations
    have hdoc : (optionalParts (fun d : Doc => [[d.lexeme]]) doc).flatten =
        Grammar.optional (fun d => [d.lexeme]) doc := flatten_optionalParts (fun _ => rfl) doc
    rw [hdoc, flatten_flatMap AnnotationUse.flatten_parts]
    by_cases hnil : c = []
    · exact ⟨⟨doc, annotations⟩, by rw [hnil, List.append_nil]; rfl⟩
    · -- the beginning of an annotation is an annotation itself
      obtain ⟨a, rfl⟩ := annotationUse_of_begun hc hnil
      refine ⟨⟨doc, annotations ++ [a]⟩, ?_⟩
      rw [Header.lexemes, List.flatMap_append, List.flatMap_singleton]

end

end ActorIdl.Syntax.Parser
