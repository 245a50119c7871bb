import ActorIdl.Proofs.Syntax.Headway
/-! # How far members and declarations get

    A member is tried as a nested declaration first.  If that fails, what it has pending is kept
    through the header that is read again, and the type behind the header forgets it.  So of a
    member that is not a method nothing is reported behind its header, and a nested declaration is
    one part: it is read as a whole, or the fault is at the token behind its header.

    `tracks_declWithin` is by induction on how deep declarations nest. -/

namespace ActorIdl.Syntax

open Grammar (Avoids Begins Starts Listed Begun IsLongest optionalParts singly mark word noToken isMark
  isWord)

namespace Parser

variable {α : Type} {source : List Char} {tokens : List Lexeme} {m n c : Nat}

/-! ## Members -/

section
open Grammar

/-- Of a member a header is begun, or it is a whole declaration, or a method of which more is begun
    than its header. -/
theorem member_of_begun {b : List Lexeme} (h : Begun Member.parts b) :
    (∃ x : Header, b = x.lexemes) ∨ (∃ d : Grammar.Decl, b = d.lexemes) ∨
      ∃ (x : Header) (c : List Lexeme), Begun Core.parts c ∧ c ≠ [] ∧ b = x.lexemes ++ c := by
  obtain ⟨member, n, rfl⟩ := h
  cases member with
  | decl head body =>
    rw [Member.parts, List.take_append, List.flatten_append]
    rcases Nat.le_total n head.header.parts.length with hn | hn
    · -- the count ends within the header
      rw [Nat.sub_eq_zero_of_le hn, List.take_zero, List.flatten_nil, List.append_nil]
      exact .inl (header_of_begun ⟨_, n, rfl⟩)
    · rw [List.take_of_length_le hn, Header.flatten_parts]
      -- behind its header a declaration is one part, begun as a whole or not at all
      cases n - head.header.parts.length with
      | zero => exact .inl ⟨head.header, List.append_nil _⟩
      | succ k =>
        refine .inr (.inl ⟨⟨head, body⟩, ?_⟩)
        rw [List.take_succ_cons, List.take_nil, Grammar.Decl.lexemes, Head.lexemes_eq_core]
        simp
  | method m =>
    rw [Member.parts, List.take_append, List.flatten_append]
    rcases Nat.le_total n m.header.parts.length with hn | hn
    · rw [Nat.sub_eq_zero_of_le hn, List.take_zero, List.flatten_nil, List.append_nil]
      exact .inl (header_of_begun ⟨_, n, rfl⟩)
    · rw [List.take_of_length_le hn, Header.flatten_parts]
      -- a method has parts of its own behind its header
      by_cases hnil : (m.coreParts.take (n - m.header.parts.length)).flatten = []
      · rw [hnil]
        exact .inl ⟨m.header, List.append_nil _⟩
      · have hcore : m.coreParts = Core.parts (m.returnType, m.name, (m.left, m.params, m.right), m.semi) :=
          coreParts_toMethod m.header (m.returnType, m.name, (m.left, m.params, m.right), m.semi)
        have hbegun : Begun Core.parts (m.coreParts.take (n - m.header.parts.length)).flatten :=
          ⟨_, _, by rw [hcore]⟩
        exact .inr (.inr ⟨m.header, _, hbegun, hnil, rfl⟩)

theorem begun_core {x : Header} {c : List Lexeme} (hc : Begun Core.parts c) :
    Begun Member.parts (x.lexemes ++ c) := by
  obtain ⟨d, k, rfl⟩ := hc
  refine ⟨.method (Core.toMethod x d), x.parts.length + k, ?_⟩
  show _ = ((x.parts ++ (Core.toMethod x d).coreParts).take _).flatten
  rw [coreParts_toMethod, List.take_length_add_append, List.flatten_append, Header.flatten_parts]

end

/-- A header is read as far as possible, and exactly if something else than a header follows. -/
theorem reads_header {i j : Input} {p q : Option Pending} {above : Option String × List AnnotationExpr}
    (hsource : i.source = source) (hspelled : ∀ l ∈ i.rest, Spelled source l)
    (hrun : header i p = (some (above, j), q)) (x : Grammar.Header) (us : List Lexeme)
    (hrest : i.rest = x.lexemes ++ us) :
    j.left ≤ us.length ∧ (Avoids Grammar.continuesHeader us → j.left = us.length) := by
  have htokens : i.tokens = Parser.tokens (x.lexemes ++ us) := congrArg Parser.tokens hrest
  constructor
  · obtain ⟨_, j', _, hrun', hle⟩ := covers_header i p x us hsource hspelled (Nat.lt_succ_self _) htokens
    rw [hrun] at hrun'
    cases hrun'
    exact hle
  · intro hus
    obtain ⟨_, j', _, hrun', hj, _⟩ := accepts_header x us hus i p (htokens.trans (tokens_append _ _))
    rw [hrun] at hrun'
    cases hrun'
    exact left_of_tokens_eq hj

/-- There is always a header, be it empty. -/
theorem exists_header {i : Input} (p : Option Pending) (hsource : i.source = source)
    (hspelled : ∀ l ∈ i.rest, Spelled source l) :
    ∃ above j q, header i p = (some (above, j), q) := by
  obtain ⟨above, j, q, hrun, _⟩ := covers_header i p ⟨none, []⟩ i.rest hsource hspelled
    (Nat.lt_succ_self _) rfl
  exact ⟨above, j, q, hrun⟩

/-- Behind one header either a declaration goes on or a method. -/
theorem header_apart {x y : Grammar.Header} {us vs : List Lexeme} (hus : Begins Grammar.startsType us)
    (hvs : Begins Grammar.startsHead vs) : x.lexemes ++ us ≠ y.lexemes ++ vs := by
  intro h
  obtain ⟨_, rfl⟩ := Grammar.unique_header x y us vs (hus.avoids Grammar.startsType_continuesHeader)
    (hvs.avoids Grammar.startsHead_continuesHeader) h
  exact hvs.not_avoids (hus.avoids Grammar.startsType_startsHead)

theorem begins_headCore (h : Grammar.Head) : Begins Grammar.startsHead h.core :=
  Grammar.begins_kind h.abstractWord h.kind h.kindSpan _

theorem Begun.begins_core {c : List Lexeme} (hc : Begun Core.parts c) (hne : c ≠ []) :
    Begins Grammar.startsType c := Grammar.Begun.begins hc Parser.begins_core hne

section
variable {i : Input} (hsource : i.source = source) (hspelled : ∀ l ∈ i.rest, Spelled source l)
include hsource hspelled

/-- A nested declaration is the longest front of a member if it is there. -/
theorem isLongest_of_decl {d : Grammar.Decl} {us : List Lexeme} (hrest : i.rest = d.lexemes ++ us) :
    IsLongest (Begun Grammar.Member.parts) i.rest d.lexemes.length := by
  have hhead : i.rest = d.head.header.lexemes ++ (d.head.core ++ (d.body.lexemes ++ us)) := by
    rw [hrest, Grammar.Decl.lexemes, Grammar.Head.lexemes_eq_core, List.append_assoc, List.append_assoc]
  have hbegins := (begins_headCore d.head).append (d.body.lexemes ++ us)
  have hlength := congrArg List.length hhead
  rw [hrest] at hlength
  simp only [List.length_append] at hlength
  have hmember : (Grammar.Member.decl d.head d.body).parts.flatten = d.lexemes := by
    rw [Grammar.Member.flatten_parts, Grammar.Member.lexemes]
    rfl
  refine ⟨⟨d.lexemes, us, hrest, rfl, hmember ▸ Grammar.begun_flatten _⟩, fun b vs hb hbegun => ?_⟩
  rcases member_of_begun hbegun with ⟨x, rfl⟩ | ⟨d', rfl⟩ | ⟨x, c, hc, hne, rfl⟩
  · -- a header reaches no further than the one that was read
    obtain ⟨above, j, q, hrun⟩ := exists_header none hsource hspelled
    have hle := (reads_header hsource hspelled hrun x vs hb).1
    have hexact := (reads_header hsource hspelled hrun _ _ hhead).2
      (hbegins.avoids Grammar.startsHead_continuesHeader)
    have hlength' := congrArg List.length (hrest.symm.trans hb)
    simp only [List.length_append] at hlength' hexact
    omega
  · -- the grammar reads one declaration there, this one
    obtain ⟨rfl, _⟩ := Grammar.unique_decl d d' us vs avoids_noToken avoids_noToken (hrest.symm.trans hb)
    exact Nat.le_refl _
  · -- a method goes on behind its header as no declaration does
    rw [hhead, List.append_assoc] at hb
    exact absurd hb.symm (header_apart ((Begun.begins_core hc hne).append vs) hbegins)

/-- If no nested declaration is there, then it is a header and as much as there is of a method. -/
theorem isLongest_of_method {j : Input} {p q : Option Pending}
    {above : Option String × List AnnotationExpr} {x : Grammar.Header} {k : Nat}
    (hrun : header i p = (some (above, j), q)) (hrest : i.rest = x.lexemes ++ j.rest)
    (hdecl : ∀ (d : Grammar.Decl) us, i.rest ≠ d.lexemes ++ us)
    (hcore : IsLongest (Begun Core.parts) j.rest k) :
    IsLongest (Begun Grammar.Member.parts) i.rest (x.lexemes.length + k) := by
  constructor
  · obtain ⟨c, us, hc, rfl, hbegun⟩ := hcore.reached
    exact ⟨x.lexemes ++ c, us, by rw [hrest, hc, List.append_assoc], List.length_append, begun_core hbegun⟩
  · intro b us hb hbegun
    have hlength := congrArg List.length (hrest.symm.trans hb)
    rw [List.length_append, List.length_append, ← j.left_eq] at hlength
    rcases member_of_begun hbegun with ⟨y, rfl⟩ | ⟨d, rfl⟩ | ⟨y, c, hc, hne, rfl⟩
    · have hle := (reads_header hsource hspelled hrun y us hb).1
      omega
    · exact absurd hb (hdecl d us)
    · rw [List.append_assoc] at hb
      -- a method that is begun there has the header that was read, so its core is begun behind it
      have hexact := (reads_header hsource hspelled hrun y (c ++ us) hb).2
        (((Begun.begins_core hc hne).append us).avoids Grammar.startsType_continuesHeader)
      have hsame : j.rest = c ++ us := by
        rw [j.left_eq] at hexact
        exact (List.append_inj' (hrest.symm.trans hb) hexact).2
      have hle := hcore.le c us hsame hc
      rw [List.length_append] at hlength ⊢
      rw [hexact, List.length_append] at hlength
      omega

end

/-- Of a declaration no more is begun than the header if a method goes on behind it. -/
theorem le_length_of_begun_decl {x : Grammar.Header} {b us vs : List Lexeme}
    (hb : Begun Grammar.Decl.parts b) (hus : Begins Grammar.startsType us)
    (h : x.lexemes ++ us = b ++ vs) : b.length ≤ x.lexemes.length := by
  by_contra hlt
  obtain ⟨d, ws, hd⟩ := hb.exists_append
  rw [Grammar.Decl.flatten_parts, Grammar.Decl.lexemes, Grammar.Head.lexemes_eq_core,
    List.append_assoc] at hd
  rcases List.append_eq_append_iff.mp h with ⟨c, rfl, rfl⟩ | ⟨c, hx, _⟩
  · rw [List.length_append] at hlt
    -- behind the header a declaration goes on with one of its words, and `us` with a type
    have hne : c ≠ [] := by
      rintro rfl
      exact hlt (by simp)
    have hbegins : Begins Grammar.startsType (c ++ ws) := by
      cases c with
      | nil => exact absurd rfl hne
      | cons l c =>
        obtain ⟨l', ls, hl, htype⟩ := hus
        cases (List.cons.inj hl).1
        exact .cons _ htype
    rw [List.append_assoc] at hd
    exact header_apart hbegins ((begins_headCore d.head).append _) hd.symm
  · rw [hx, List.length_append] at hlt
    omega

/-- What is pending behind a method is what was pending behind its last part. -/
theorem run_method {i j : Input} {p q : Option Pending} {above : Option String × List AnnotationExpr}
    (hrun : header i p = (some (above, j), q)) :
    ((do let m ← method; return Member.method m : Parser Member) i p).1.map (·.2) =
        (methodCore above j q).1.map (·.2) ∧
      ((do let m ← method; return Member.method m : Parser Member) i p).2 = (methodCore above j q).2 := by
  have hmethod : method i p = Parser.bind (Parser.spanned (Parser.bind header methodCore))
      (fun r => Parser.pure ⟨r.1.2.2.2.1, r.1.1, r.1.2.1, r.1.2.2.1, r.1.2.2.2.2, r.2⟩) i p := rfl
  change (Parser.bind method (fun m => Parser.pure (Member.method m)) i p).1.map (·.2) = _ ∧
    (Parser.bind method (fun m => Parser.pure (Member.method m)) i p).2 = _
  unfold Parser.bind at hmethod ⊢
  rw [hmethod]
  unfold Parser.spanned
  dsimp only
  rw [hrun]
  dsimp only
  cases methodCore above j q with
  | mk r s => cases r <;> exact ⟨rfl, rfl⟩

section
variable (hspelled : ∀ l ∈ tokens, Spelled source l) (hfew : FewDims tokens)
include hspelled hfew

/-- Behind the header of a method nothing further on is pending, or the type forgets it. -/
theorem outcome_methodCore (above : Option String × List AnnotationExpr) {j : Input}
    {q : Option Pending} (hj : j.GoesOn source tokens)
    (hq : Begins Grammar.startsType j.rest → Stands source q j.rest 0) :
    Outcome source Core.parts noToken j.rest 0 (methodCore above j q) := by
  by_cases hfirst : Begins Grammar.startsType j.rest
  · exact tracks_methodCore hspelled hfew above j q 0 hj (Nat.lt_succ_self _) (Nat.zero_le _)
      (hq hfirst) fun h => absurd h (Nat.lt_irrefl 0)
  · obtain ⟨r, hrun, hr⟩ := meets_of_type q hj (Grammar.avoids_of_not_begins hfirst)
    have hfailed : methodCore above j q = (none, r) := by
      change Parser.bind type _ j q = _
      rw [Parser.bind, hrun]
    rw [hfailed]
    refine .failed 0 ⟨⟨[], j.rest, rfl, rfl, Grammar.begun_nil⟩, fun c us hc hbegun => ?_⟩ hr
    by_contra hpos
    have hne : c ≠ [] := List.ne_nil_of_length_pos (Nat.pos_of_ne_zero fun h => hpos h.le)
    exact hfirst (hc ▸ (Begun.begins_core hbegun hne).append us)

omit hspelled hfew in
/-- How a method ends is how it ends behind its header. -/
theorem outcome_behind_header {x : Grammar.Header} {us : List Lexeme}
    {run : Option (α × Input) × Option Pending}
    (h : Outcome source Core.parts noToken us 0 run)
    (hlongest : ∀ k, IsLongest (Begun Core.parts) us k →
      IsLongest (Begun Grammar.Member.parts) (x.lexemes ++ us) (x.lexemes.length + k)) :
    Outcome source Grammar.Member.parts noToken (x.lexemes ++ us) 0 run := by
  cases h with
  | failed k longest meets =>
    refine .failed _ (hlongest k longest) ?_
    rw [Nat.zero_max] at meets ⊢
    rwa [List.drop_append, List.drop_of_length_le (Nat.le_add_right _ _), List.nil_append,
      Nat.add_sub_cancel_left]
  | passed d k longest rest source_eq stands begins =>
    -- the header and the core that was read are those of a method
    have hmethod : (Grammar.Member.method (Core.toMethod x d)).parts.flatten =
        x.lexemes ++ (Core.parts d).flatten := by
      rw [Grammar.Member.parts, coreParts_toMethod, List.flatten_append]
      exact congrArg (· ++ _) (Grammar.Header.flatten_parts x)
    refine .passed (.method (Core.toMethod x d)) _ (hlongest k longest) ?_ source_eq ?_ fun hlt => ?_
    · rw [hmethod, List.append_assoc, ← rest]
    · rw [hmethod, List.length_append, Nat.zero_max, Nat.add_sub_add_left]
      rwa [Nat.zero_max] at stands
    · rw [hmethod, List.length_append] at hlt
      exact begins (Nat.lt_of_add_lt_add_left hlt)

theorem tracks_memberWithin
    (hdecl : (declWithin n).Tracks source tokens n Grammar.Decl.parts noToken Grammar.startsDecl) :
    (memberWithin n).Tracks source tokens n Grammar.Member.parts noToken anyToken := by
  intro i p c hi hleft hc hp hreset
  obtain rfl := eq_zero_of_anyToken hc hreset
  have hspelled' : ∀ l ∈ i.rest, Spelled source l := fun l hl => hspelled l (hi.rest.subset hl)
  have hout := hdecl i p 0 hi hleft hc hp fun h => absurd h (Nat.lt_irrefl 0)
  change Outcome source _ _ i.rest 0
    (Parser.orElse (Parser.bind (declWithin n) fun d => Parser.pure d.toMember)
      (fun _ => (do let m ← method; return Member.method m : Parser Member)) i p)
  unfold Parser.orElse Parser.bind
  generalize hrun : declWithin n i p = run at hout
  cases hout with
  | @passed a j q d k longest rest source_eq stands begins =>
    dsimp only
    have hk : k ≤ d.parts.flatten.length := by
      by_contra hlt
      obtain ⟨_, _, _, hno⟩ := begins (Nat.lt_of_not_le hlt)
      cases hno
    have hmember : (Grammar.Member.decl d.head d.body).parts.flatten = d.parts.flatten := by
      rw [Grammar.Member.flatten_parts, Grammar.Decl.flatten_parts, Grammar.Member.lexemes]
      rfl
    have hlongest : IsLongest (Begun Grammar.Member.parts) i.rest d.parts.flatten.length := by
      rw [Grammar.Decl.flatten_parts] at rest ⊢
      exact isLongest_of_decl hi.source_eq hspelled' rest
    refine .passed (.decl d.head d.body) _ hlongest (hmember ▸ rest) source_eq ?_ fun hlt => ?_
    · rw [hmember, Nat.zero_max, Nat.sub_self]
      rwa [Nat.zero_max, Nat.sub_eq_zero_of_le hk] at stands
    · rw [hmember] at hlt
      exact absurd hlt (Nat.lt_irrefl _)
  | @failed q k longest meets =>
    dsimp only
    have hk : k ≤ i.left := i.left_eq ▸ longest.le_length
    rw [Nat.zero_max] at meets
    obtain ⟨above, j, q', hheader⟩ := exists_header q hi.source_eq hspelled'
    have hout := tracks_header i q k hi hleft hk meets.stands fun _ => avoids_noToken
    rw [hheader] at hout
    cases hout with
    | passed x k' longest' rest source_eq stands begins =>
      rw [Grammar.flatten_singly] at rest stands begins
      have hj : j.GoesOn source tokens :=
        ⟨source_eq, (rest ▸ List.suffix_append _ j.rest).trans hi.rest⟩
      -- if a method goes on here, then the declaration got no further
      have hq : Begins Grammar.startsType j.rest → Stands source q' j.rest 0 := by
        intro htype
        have hheader' : k' ≤ x.lexemes.length := by
          by_contra hlt
          exact (begins (Nat.lt_of_not_le hlt)).not_avoids
            (htype.avoids Grammar.startsType_continuesHeader)
        have hdecl' : k ≤ x.lexemes.length := by
          obtain ⟨b, us, hb, rfl, hbegun⟩ := longest.reached
          exact le_length_of_begun_decl hbegun htype (rest.symm.trans hb)
        rwa [Nat.sub_eq_zero_of_le (Nat.max_le.mpr ⟨hdecl', hheader'⟩)] at stands
      have hnone : ∀ (d : Grammar.Decl) us, i.rest ≠ d.lexemes ++ us := by
        intro d us hd
        have hlength : d.lexemes.length ≤ n := by
          rw [i.left_eq, hd, List.length_append] at hleft
          omega
        obtain ⟨_, _, _, hsome, _⟩ := accepts_decl_of_body hlength (accepts_bodyWithin d.body) us
          avoids_noToken i p ((congrArg Parser.tokens hd).trans (tokens_append _ _))
        rw [hrun] at hsome
        cases hsome
      have hlongest := fun k₂ (hk₂ : IsLongest (Begun Core.parts) j.rest k₂) =>
        isLongest_of_method hi.source_eq hspelled' hheader rest hnone hk₂
      have hcore := outcome_behind_header (outcome_methodCore hspelled hfew above hj hq) fun k₂ hk₂ =>
        rest ▸ hlongest k₂ hk₂
      obtain ⟨hvalue, hpending⟩ := run_method hheader
      rw [← rest] at hcore
      have hsame : (methodCore above j q').2 =
          ((do let m ← method; return Member.method m : Parser Member) i q).2 := hpending.symm
      exact Outcome.map (hsame ▸ hcore) hvalue.symm

/-! ## Declarations -/

omit hspelled hfew in
theorem tracks_body (hmember : (memberWithin n).Tracks source tokens n Grammar.Member.parts noToken
    anyToken) :
    (body (memberWithin n)).Tracks source tokens n Grammar.Body.parts noToken (isMark .leftBrace) := by
  have hbegins : ∀ m : Grammar.Member, Begins Grammar.startsMember m.parts.flatten := fun m => by
    rw [Grammar.Member.flatten_parts]
    exact Grammar.begins_member m
  -- the members begin with tokens that the closing brace is not
  have hmany : (many (memberWithin n)).Tracks source tokens n (List.flatMap Grammar.Member.parts)
      Grammar.startsMember anyToken :=
    hmember.many (fun m hlength => by
        rw [Grammar.Member.flatten_parts] at hlength ⊢
        exact accepts_member m n hlength.le)
      hbegins (fun _ _ => rfl) (fun _ ht => ht)
      (fun m _ => avoids_behind (hbegins m) fun _ _ => rfl) fun _ _ => rfl
  have hbraces : (between .leftBrace .rightBrace (many (memberWithin n))).Tracks source tokens n
      (fun d : Span × List Grammar.Member × Span => [mark .leftBrace d.1] ::
        (d.2.1.flatMap Grammar.Member.parts ++ [[mark .rightBrace d.2.2]]))
      noToken (isMark .leftBrace) := by
    refine hmany.between (fun ms hlength => ?_) rfl
      fun span us h => absurd h (Begins.cons us rfl).not_avoids
    rw [Grammar.flatten_flatMap Grammar.Member.flatten_parts] at hlength ⊢
    rw [← Grammar.allLexemes_eq] at hlength
    exact Accepts.many Grammar.begins_member (fun _ _ => rfl) (needs_memberWithin n)
      (accepts_members ms n hlength.le)
  have hsemi : (do symbol .semi; return [] : Parser (List Member)).Tracks source tokens n
      (fun span => [[mark .semi span]]) noToken noToken :=
    (Tracks.symbol .semi).bind_silent fun _ => isSilent_pure []
  -- the first mark tells the two kinds of body apart
  refine (hbraces.orElse (isMark .leftBrace) (isMark .semi) hsemi (fun _ => .cons _ rfl)
    (fun _ => .cons _ rfl) (Grammar.class_of_isMark rfl)).of_surjective
    (e := Sum.elim (fun d => .braces d.1 d.2.1 d.2.2) .semicolon) (fun b => ?_) fun d => ?_
  · cases b with
    | semicolon semi => exact ⟨.inr semi, rfl⟩
    | braces left members right => exact ⟨.inl (left, members, right), rfl⟩
  · rcases d with d | d <;> rfl

end

/-- What is read of a declaration behind its name. -/
def declTail (n : Nat) (make : List TypeExpr → List TypeExpr → Span → DeclHead) :
    Parser ((Span → DeclHead) × List Member) := do
  let extended ← clause .extends_
  let implemented ← clause .implements_
  let members ← body (memberWithin n)
  return (make extended implemented, members)

/-- What is read of a declaration behind its header. -/
def declCore (n : Nat) (above : Option String × List AnnotationExpr) :
    Parser ((Span → DeclHead) × List Member) := do
  let isAbstract ← optional (keyword .abstract_)
  let kind ← kind
  let name ← ident
  declTail n (DeclHead.mk kind name above.1 above.2 isAbstract.isSome)

/-- The words that say what is declared. -/
def startsKind : Token → Bool
  | .keyword .interface_ | .keyword .class_ | .keyword .annotation_ => true
  | _ => false

theorem startsKind_startsHead (t : Token) (h : startsKind t = true) :
    Grammar.startsHead t = true := by
  cases t with
  | keyword k => cases k <;> first | rfl | cases h
  | _ => cases h

theorem startsKind_kindWord (k : DeclKind) : startsKind (.keyword (Grammar.kindWord k)) = true := by
  cases k <;> rfl

theorem tracks_kind : kind.Tracks source tokens m
    (fun d : DeclKind × Span => [[word (Grammar.kindWord d.1) d.2]]) noToken noToken := by
  refine Tracks.satisfy (fun d => ⟨d.1, ?_⟩) fun l a ha => ⟨(a, l.span), ?_⟩
  · obtain ⟨k, span⟩ := d
    cases k <;> rfl
  · obtain ⟨token, span⟩ := l
    cases token with
    | keyword k => cases k <;> cases ha <;> rfl
    | _ => cases ha

/-- The parts of a declaration behind its name. -/
def tailParts (d : Option Grammar.Clause × Option Grammar.Clause × Grammar.Body) :
    List (List Lexeme) :=
  optionalParts (Grammar.Clause.parts .extends_) d.1 ++
    (optionalParts (Grammar.Clause.parts .implements_) d.2.1 ++ d.2.2.parts)

section
variable (hspelled : ∀ l ∈ tokens, Spelled source l) (hfew : FewDims tokens)
include hspelled hfew

theorem tracks_declTail (hmember : (memberWithin n).Tracks source tokens n Grammar.Member.parts
    noToken anyToken) (make : List TypeExpr → List TypeExpr → Span → DeclHead) :
    (declTail n make).Tracks source tokens n tailParts noToken anyToken := by
  have hclause : ∀ k (c : Option Grammar.Clause),
      (optionalParts (Grammar.Clause.parts k) c).flatten =
        Grammar.optional (Grammar.Clause.lexemes k) c :=
    fun k => Grammar.flatten_optionalParts (Grammar.Clause.flatten_parts k)
  have hbody : ∀ b : Grammar.Body,
      Avoids Grammar.continuesHead b.parts.flatten ∧ b.parts.flatten ≠ [] := fun b => by
    constructor
    · rw [Grammar.Body.flatten_parts, ← List.append_nil b.lexemes]
      exact Grammar.avoids_body b []
    · cases b <;> exact List.cons_ne_nil _ _
  -- the second clause with the body, whatever the first one was
  have himplemented : ∀ extended : List TypeExpr, (do
      let implemented ← clause .implements_
      let members ← body (memberWithin n)
      return (make extended implemented, members) : Parser ((Span → DeclHead) × List Member)).Tracks
        source tokens n (fun d : Option Grammar.Clause × Grammar.Body =>
          optionalParts (Grammar.Clause.parts .implements_) d.1 ++ d.2.parts) noToken
        fun t => isWord .implements_ t || isMark .leftBrace t := by
    intro extended
    refine (tracks_clause hspelled hfew .implements_).bind
      (fun c _ => by rw [hclause]; exact accepts_clause .implements_ c)
      (fun implemented => (tracks_body hmember).bind_silent fun members =>
        isSilent_pure (make extended implemented, members))
      (fun _ => Nat.le_add_right n _) (fun b => Grammar.avoids_implemented (hbody b).1)
      (fun b _ hnil _ => absurd hnil (hbody b).2) (fun _ ht => ht) (fun t ht => by rw [ht, Bool.true_or])
      (fun c us => ?_) (Grammar.class_of_isMark rfl)
    rw [hclause]
    exact avoids_behind_optional (Grammar.starts_optional (Grammar.begins_clause .implements_) c)
      (fun t ht => by rw [ht, Bool.true_or]) fun t ht => by rw [ht, Bool.or_true]
  -- the first clause in front of them
  refine (tracks_clause hspelled hfew .extends_).bind
    (fun c _ => by rw [hclause]; exact accepts_clause .extends_ c) himplemented
    (fun _ => Nat.le_add_right n _) (fun d => ?_) (fun d t hnil _ => ?_) (fun _ ht => ht)
    (fun _ _ => rfl) (fun c us h => ?_) fun t ht => ?_
  · rw [List.flatten_append, hclause]
    exact Grammar.avoids_clauses d.1 (hbody d.2).1
  · rw [List.flatten_append, List.append_eq_nil_iff] at hnil
    exact absurd hnil.2 (hbody d.2).2
  · rw [hclause] at h
    exact avoids_behind_optional (Grammar.starts_optional (Grammar.begins_clause .extends_) c)
      (fun _ _ => rfl) (fun _ _ => rfl) h
  · rcases Bool.or_eq_true _ _ ▸ ht with ht | ht
    · rw [Grammar.eq_of_isWord ht]
      rfl
    · rw [Grammar.eq_of_isMark ht]
      rfl

/-- What a derivation of a declaration has behind its header. -/
abbrev DeclCore : Type := Option Span × (DeclKind × Span) × Grammar.Ident ×
  Option Grammar.Clause × Option Grammar.Clause × Grammar.Body

/-- The parts of a declaration behind its header. -/
def DeclCore.parts (d : DeclCore) : List (List Lexeme) :=
  optionalParts (fun span => [[word .abstract_ span]]) d.1 ++
    [word (Grammar.kindWord d.2.1.1) d.2.1.2] :: [d.2.2.1.lexeme] :: tailParts d.2.2.2

/-- A declaration with this header. -/
def DeclCore.toDecl (h : Grammar.Header) (d : DeclCore) : Grammar.Decl :=
  ⟨⟨h, d.1, d.2.1.1, d.2.1.2, d.2.2.1, d.2.2.2.1, d.2.2.2.2.1⟩, d.2.2.2.2.2⟩

omit hspelled hfew in
theorem begins_declCore (d : DeclCore) : Begins Grammar.startsHead (DeclCore.parts d).flatten := by
  obtain ⟨abstractWord, kind, d⟩ := d
  cases abstractWord with
  | none => exact .cons _ (startsKind_startsHead _ (startsKind_kindWord kind.1))
  | some span => exact .cons _ rfl

theorem tracks_declCore (hmember : (memberWithin n).Tracks source tokens n Grammar.Member.parts
    noToken anyToken) (above : Option String × List AnnotationExpr) :
    (declCore n above).Tracks source tokens (n + 1) DeclCore.parts noToken Grammar.startsHead := by
  -- the name with what is behind it, nested one level less
  have hname : ∀ isAbstract kind, (do
      let name ← ident
      declTail n (DeclHead.mk kind name above.1 above.2 isAbstract)).Tracks source tokens n
        (fun d : Grammar.Ident × Option Grammar.Clause × Option Grammar.Clause × Grammar.Body =>
          [d.1.lexeme] :: tailParts d.2) noToken Grammar.startsType :=
    fun isAbstract kind => Tracks.cons tracks_ident accepts_ident
      (fun name => tracks_declTail hspelled hfew hmember (DeclHead.mk kind name above.1 above.2 isAbstract))
      (Nat.le_succ n) fun _ _ h => absurd h (Begins.cons _ rfl).not_avoids
  -- the word in front of the name
  have hkind : ∀ isAbstract, (do
      let kind ← kind
      let name ← ident
      declTail n (DeclHead.mk kind name above.1 above.2 isAbstract)).Tracks source tokens (n + 1)
        (fun d : (DeclKind × Span) × Grammar.Ident × Option Grammar.Clause × Option Grammar.Clause ×
            Grammar.Body => [word (Grammar.kindWord d.1.1) d.1.2] :: [d.2.1.lexeme] :: tailParts d.2.2)
        noToken startsKind :=
    fun isAbstract => Tracks.cons tracks_kind (fun d => accepts_kind d.1 d.2) (hname isAbstract)
      (Nat.le_refl _) fun d _ h =>
        absurd h (Begins.cons _ (startsKind_kindWord d.1)).not_avoids
  have habstract : ∀ span : Option Span,
      (optionalParts (fun span => [[word .abstract_ span]]) span).flatten =
        Grammar.optional (fun span => [word .abstract_ span]) span :=
    Grammar.flatten_optionalParts fun _ => rfl
  have hword : (keyword .abstract_).Tracks source tokens (n + 1)
      (fun span => [[word .abstract_ span]]) noToken noToken := Tracks.keyword .abstract_
  -- and the word in front of that one, which may be absent
  refine (hword.optional (isWord .abstract_) fun _ => .cons _ (decide_eq_true rfl)).bind
    (fun span _ => ?_) (fun isAbstract => hkind isAbstract.isSome) (fun _ => Nat.le_add_right _ _)
    (fun d => Grammar.avoids_cons _ ?_) (fun _ _ hnil => by cases hnil) (fun _ ht => ht)
    (fun _ ht => by cases ht) (fun span us => ?_) fun t ht => ?_
  · rw [habstract]
    exact Accepts.optional (Needs.keyword .abstract_) (Accepts.keyword .abstract_) span
  · cases d.1.1 <;> rfl
  · have hstarts : Starts (isWord .abstract_)
        (Grammar.optional (fun span => [word .abstract_ span]) span) :=
      Grammar.starts_optional (fun _ => .cons _ (decide_eq_true rfl)) span
    rw [habstract]
    exact avoids_behind_optional hstarts (fun t ht => by rw [Grammar.eq_of_isWord ht]; rfl)
      startsKind_startsHead
  · cases t with
    | keyword k => cases k <;> first | rfl | cases ht
    | _ => cases ht

theorem tracks_declWithin (n : Nat) :
    (declWithin n).Tracks source tokens n Grammar.Decl.parts noToken Grammar.startsDecl := by
  induction n with
  | zero => exact fun i _ _ _ hleft => absurd hleft (Nat.not_lt_zero _)
  | succ n ih =>
    -- the members of a declaration nest one level less
    have hcore := tracks_declCore hspelled hfew (tracks_memberWithin hspelled hfew ih)
    have hparts : (header >>= declCore n).Tracks source tokens (n + 1)
        (fun d : Grammar.Header × DeclCore => singly d.1.lexemes ++ DeclCore.parts d.2) noToken
        Grammar.startsDecl := by
      refine tracks_header.bind (fun h _ => ?_) hcore (fun _ => Nat.le_add_right _ _) (fun d => ?_)
        (fun d _ hnil => ?_) (fun _ ht => ht) (fun _ ht => by cases ht) (fun h us => ?_)
        Grammar.startsHead_continuesHeader
      · rw [Grammar.flatten_singly]
        exact accepts_header h
      · exact (begins_declCore d).avoids Grammar.startsHead_continuesHeader
      · exact absurd hnil (begins_declCore d).ne_nil
      · rw [Grammar.flatten_singly]
        exact avoids_behind_optional (Grammar.starts_header h)
          (fun t ht => by rw [Grammar.startsDecl, ht, Bool.true_or])
          fun t ht => by rw [Grammar.startsDecl, ht, Bool.or_true]
    refine (hparts.spanned.bind_silent fun r => isSilent_pure _).of_surjective
      (e := fun d : Grammar.Header × DeclCore => DeclCore.toDecl d.1 d.2)
      (fun d => ?_) fun d => ?_
    · obtain ⟨⟨h, abstractWord, kind, kindSpan, name, extended, implemented⟩, b⟩ := d
      exact ⟨(h, abstractWord, (kind, kindSpan), name, extended, implemented, b), rfl⟩
    · simp [DeclCore.toDecl, DeclCore.parts, tailParts, Grammar.Decl.parts, Grammar.Head.parts]

end

end Parser

end ActorIdl.Syntax
