import ActorIdl.Proofs.Syntax.Covers
import ActorIdl.Proofs.Syntax.Sentences
/-! # How far the parts of a declaration get

    Names, annotations, headers, types, methods, clauses and lines with a name, each with the rule
    of its combinator.  A type is where faults are lost: it forgets what was pending, and what was
    pending inside it when it succeeds is pending at its start.  So it is one part up to where it
    can end, and nothing further on may be pending before it (`anyToken` resets).

    Types with too many dimensions are left out: they fail for another reason than a token. -/

namespace ActorIdl.Syntax

open Grammar (Avoids Begins Starts Listed Begun IsLongest optionalParts singly mark word noToken isMark
  isWord)

/-- No type among these tokens has too many dimensions. -/
def FewDims (ts : List Lexeme) : Prop :=
  ∀ (name : Grammar.Qualified) (args : Grammar.TypeArgs) (pairs : List (Span × Span)),
    name.lexemes ++ args.lexemes ++ pairs.flatMap Grammar.pair <:+: ts → pairs.length ≤ maxArrayDims

/-- Every token. -/
def anyToken (_ : Token) : Bool := true

/-- A string or a number. -/
def isLiteral : Token → Bool
  | .string _ | .number _ => true
  | _ => false

namespace Parser

variable {α : Type} {source : List Char} {tokens : List Lexeme} {m n c : Nat}

/-- Before something that can forget what is pending, nothing may be ahead. -/
theorem eq_zero_of_anyToken {i : Input} (hc : c ≤ i.left) (h : 0 < c → Avoids anyToken i.rest) :
    c = 0 := by
  by_contra hne
  have hpos := Nat.pos_of_ne_zero hne
  have havoids := h hpos
  rw [i.left_eq] at hc
  cases hrest : i.rest with
  | nil =>
    rw [hrest, List.length_nil] at hc
    omega
  | cons l ls =>
    rw [hrest] at havoids
    exact absurd (havoids l rfl) Bool.noConfusion

/-- Behind something that a parser has to begin with there is nothing to be kept. -/
theorem avoids_behind {first resets resets' : Token → Bool} {ls us : List Lexeme}
    (hbegins : Begins first ls) (hfirst : ∀ t, first t = true → resets t = true)
    (h : Avoids resets (ls ++ us)) : Avoids resets' us :=
  absurd h ((hbegins.append us).mono hfirst).not_avoids

/-- Something that may be absent, and that a parser may begin with. -/
theorem avoids_behind_optional {first resets resets' : Token → Bool} {ls us : List Lexeme}
    (hstarts : Starts first ls) (hfirst : ∀ t, first t = true → resets t = true)
    (hresets : ∀ t, resets' t = true → resets t = true) (h : Avoids resets (ls ++ us)) :
    Avoids resets' us := by
  rcases hstarts with rfl | hbegins
  · exact Avoids.mono h hresets
  · exact avoids_behind hbegins hfirst h

/-! ## Names -/

theorem tracks_ident : ident.Tracks source tokens m (fun x : Grammar.Ident => [[x.lexeme]]) noToken
    noToken := by
  refine Tracks.satisfy (fun _ => ⟨_, rfl⟩) fun l a ha => ?_
  obtain ⟨token, span⟩ := l
  cases token with
  | ident name => exact ⟨⟨name, span⟩, rfl⟩
  | _ => cases ha

theorem tracks_segment : segment.Tracks source tokens m (fun s : Grammar.Segment => [[s.lexeme]])
    noToken noToken := by
  refine Tracks.satisfy (fun s => ?_) fun l a ha => ?_
  · cases s with
    | ident x => exact ⟨_, rfl⟩
    | keyword k span => exact ⟨_, rfl⟩
  · obtain ⟨token, span⟩ := l
    cases token with
    | ident name => exact ⟨.ident ⟨name, span⟩, rfl⟩
    | keyword k => exact ⟨.keyword k span, rfl⟩
    | _ => cases ha

theorem tracks_qualified : qualified.Tracks source tokens m
    (fun q : Grammar.Qualified => singly q.lexemes) (isMark .dot) noToken := by
  -- a dot and the name behind it are parts of their own
  have hmore : (do symbol .dot; segment).Tracks source tokens m
      (fun s : Span × Grammar.Segment => [[mark .dot s.1], [s.2.lexeme]]) noToken noToken :=
    Tracks.cons (Tracks.symbol .dot) (Accepts.symbol .dot) (fun _ => tracks_segment) (Nat.le_succ m)
      fun _ _ _ => avoids_noToken
  have htail : (many (do symbol .dot; segment)).Tracks source tokens m
      (List.flatMap fun s : Span × Grammar.Segment => [[mark .dot s.1], [s.2.lexeme]]) (isMark .dot)
      noToken :=
    hmore.many (fun s _ => accepts_dotted s) Grammar.begins_dotted (fun _ _ => rfl) (fun _ ht => ht)
      (fun _ _ _ => avoids_noToken) fun _ _ => rfl
  have hparts : (do
      let head ← ident
      let tail ← many (do symbol .dot; segment)
      return (head, tail)).Tracks source tokens m
        (fun d : Grammar.Ident × List (Span × Grammar.Segment) => [d.1.lexeme] ::
          d.2.flatMap fun s : Span × Grammar.Segment => [[mark .dot s.1], [s.2.lexeme]])
        (isMark .dot) noToken :=
    Tracks.cons tracks_ident accepts_ident
      (fun head => htail.bind_silent fun tail => isSilent_pure (head, tail)) (Nat.le_succ m)
      fun _ _ _ => avoids_noToken
  refine (hparts.spanned.bind_silent fun r => isSilent_pure _).of_surjective
    (e := fun d : Grammar.Ident × List (Span × Grammar.Segment) => Grammar.Qualified.mk d.1 d.2)
    (fun q => ⟨(q.head, q.tail), rfl⟩) fun d => ?_
  exact congrArg (List.cons _) (Grammar.singly_flatMap _ d.2)

/-! ## Annotations and headers -/

theorem tracks_argument : argument.Tracks source tokens m
    (fun a : Grammar.Argument => singly a.lexemes) (isMark .dot) noToken := by
  let lexeme : (String × Span) ⊕ (String × Span) → Lexeme :=
    Sum.elim (fun d => ⟨.string d.1, d.2⟩) fun d => ⟨.number d.1, d.2⟩
  have hliteral : literal.Tracks source tokens m (fun d => [[lexeme d]]) (isMark .dot) noToken := by
    refine Tracks.satisfy (fun d => ?_) fun l a ha => ?_
    · rcases d with d | d <;> exact ⟨(), rfl⟩
    · obtain ⟨token, span⟩ := l
      cases token with
      | string value => exact ⟨.inl (value, span), rfl⟩
      | number text => exact ⟨.inr (text, span), rfl⟩
      | _ => cases ha
  have hname : (do let _ ← qualified; return ()).Tracks source tokens m
      (fun q : Grammar.Qualified => singly q.lexemes) (isMark .dot) noToken :=
    tracks_qualified.bind_silent fun _ => isSilent_pure ()
  -- a literal and a name begin with tokens of different kinds
  have hread := hliteral.orElse isLiteral Grammar.startsType hname (fun d => ?_) (fun q => ?_)
    fun t ht => ?_
  · refine (hread.spanned.bind_silent fun r => isSilent_sourceText r.2).of_surjective
      (e := Sum.elim (Sum.elim (fun d => .string d.1 d.2) fun d => .number d.1 d.2) .name)
      (fun a => ?_) fun d => ?_
    · cases a with
      | string value span => exact ⟨.inl (.inl (value, span)), rfl⟩
      | number text span => exact ⟨.inl (.inr (text, span)), rfl⟩
      | name q => exact ⟨.inr q, rfl⟩
    · rcases d with (d | d) | q <;> rfl
  · rcases d with d | d <;> exact .cons _ rfl
  · rw [Grammar.flatten_singly]
    exact Grammar.begins_qualified q
  · cases t with
    | ident name => rfl
    | _ => cases ht

theorem tracks_arguments :
    (between .leftParen .rightParen (sepBy argument (symbol .comma))).Tracks source tokens m
      (fun args : Grammar.Arguments => singly args.lexemes) noToken noToken := by
  have hflatten : ∀ a : Grammar.Argument, (singly a.lexemes).flatten = a.lexemes :=
    fun a => Grammar.flatten_singly _
  have hlisted : (sepBy1 argument (symbol .comma)).Tracks source tokens m
      (Listed.parts fun a : Grammar.Argument => singly a.lexemes)
      (fun t => isMark .dot t || isMark .comma t) noToken :=
    tracks_argument.sepBy1 (fun a _ => by rw [hflatten]; exact accepts_argument a) noToken rfl
      (fun _ ht => ht)
      (fun _ _ _ => avoids_noToken) (fun _ ht => by cases ht)
      fun _ _ _ _ => ⟨avoids_noToken, avoids_noToken⟩
  -- between the parentheses stands a list or nothing
  have hlist := hlisted.orElse_silent Grammar.startsArgument (isSilent_pure []) fun l => by
    rw [Grammar.flatten_listed hflatten]
    exact Grammar.begins_listed Grammar.begins_argument l
  refine (hlist.between (fun o _ => ?_) rfl fun _ _ _ => avoids_noToken).of_surjective
    (e := fun d : Span × Option (Listed Grammar.Argument) × Span => Grammar.Arguments.mk d.1 d.2.1 d.2.2)
    (fun a => ⟨(a.left, a.args, a.right), rfl⟩) fun d => ?_
  · rw [Grammar.flatten_optionalParts (Grammar.flatten_listed hflatten)]
    exact Accepts.sepBy needs_argument rfl accepts_argument o
  · show singly (mark .leftParen d.1 :: (_ ++ [mark .rightParen d.2.2])) = _
    rw [singly, List.map_cons]
    refine congrArg (List.cons _) ?_
    show singly _ = _
    rw [Grammar.singly_append, Grammar.singly_optional]
    congr 2
    exact funext (Grammar.singly_listed _)

theorem tracks_annotationUse : annotationUse.Tracks source tokens m
    (fun a : Grammar.AnnotationUse => singly a.lexemes) Grammar.continuesAnnotation noToken := by
  have hargs : (optional (between .leftParen .rightParen (sepBy argument (symbol .comma)))).Tracks
      source tokens m (optionalParts fun args : Grammar.Arguments => singly args.lexemes)
      (isMark .leftParen) noToken :=
    tracks_arguments.optional (isMark .leftParen) fun args => by
      rw [Grammar.flatten_singly]
      exact Grammar.begins_arguments args
  -- arguments never go on with the name in front of them
  have hfollow : ∀ args : Option Grammar.Arguments, Avoids (isMark .dot)
      (optionalParts (fun args : Grammar.Arguments => singly args.lexemes) args).flatten := by
    intro args
    rw [Grammar.flatten_optionalParts fun _ => Grammar.flatten_singly _,
      ← List.append_nil (Grammar.optional _ _)]
    exact (Grammar.starts_optional Grammar.begins_arguments args).avoids_append
      (Grammar.class_of_isMark rfl) Grammar.avoids_nil
  have hmore : (do
      let name ← qualified
      let args ← optional (between .leftParen .rightParen (sepBy argument (symbol .comma)))
      return (name, args.getD [])).Tracks source tokens m
        (fun d : Grammar.Qualified × Option Grammar.Arguments => singly d.1.lexemes ++
          optionalParts (fun args : Grammar.Arguments => singly args.lexemes) d.2)
        Grammar.continuesAnnotation noToken :=
    tracks_qualified.bind (fun q _ => by rw [Grammar.flatten_singly]; exact accepts_qualified q)
      (fun name => hargs.bind_silent fun args => isSilent_pure (name, args.getD []))
      (fun _ => Nat.le_add_right m _) hfollow
      (fun _ t _ ht => Grammar.class_of_isMark rfl t ht)
      (Grammar.class_of_isMark rfl) (fun _ ht => ht)
      (fun _ _ _ => avoids_noToken) fun _ ht => by cases ht
  -- the sign is a part of its own in front of the name and the arguments
  have hparts : (do
      symbol .atSign
      let name ← qualified
      let args ← optional (between .leftParen .rightParen (sepBy argument (symbol .comma)))
      return (name, args.getD [])).Tracks source tokens m
        (fun d : Span × Grammar.Qualified × Option Grammar.Arguments => [mark .atSign d.1] ::
          (singly d.2.1.lexemes ++
            optionalParts (fun args : Grammar.Arguments => singly args.lexemes) d.2.2))
        Grammar.continuesAnnotation noToken :=
    Tracks.cons (Tracks.symbol .atSign) (Accepts.symbol .atSign) (fun _ => hmore) (Nat.le_succ m)
      fun _ _ _ => avoids_noToken
  refine (hparts.spanned.bind_silent fun r => isSilent_pure _).of_surjective
    (e := fun d : Span × Grammar.Qualified × Option Grammar.Arguments =>
      Grammar.AnnotationUse.mk d.1 d.2.1 d.2.2)
    (fun a => ⟨(a.sign, a.name, a.args), rfl⟩) fun d => ?_
  refine congrArg (List.cons _) ?_
  show singly _ = _
  rw [Grammar.singly_append, Grammar.singly_optional]

theorem tracks_header : header.Tracks source tokens m (fun h : Grammar.Header => singly h.lexemes)
    Grammar.continuesHeader noToken := by
  have hdoc : doc.Tracks source tokens m (fun d : Grammar.Doc => [[d.lexeme]]) noToken noToken := by
    refine Tracks.satisfy (fun d => ⟨_, rfl⟩) fun l a ha => ?_
    obtain ⟨token, span⟩ := l
    cases token with
    | doc text => exact ⟨⟨text, span⟩, rfl⟩
    | _ => cases ha
  have hflatten : ∀ a : Grammar.AnnotationUse, (singly a.lexemes).flatten = a.lexemes :=
    fun a => Grammar.flatten_singly _
  have hannotations : (many annotationUse).Tracks source tokens m
      (List.flatMap fun a : Grammar.AnnotationUse => singly a.lexemes)
      (fun t => Grammar.continuesAnnotation t || isMark .atSign t) noToken :=
    tracks_annotationUse.many (fun a _ => by rw [hflatten]; exact accepts_annotationUse a)
      (fun a => by rw [hflatten]; exact Grammar.begins_annotationUse a)
      (Grammar.class_of_isMark rfl) (fun _ ht => ht)
      (fun _ _ _ => avoids_noToken) fun _ ht => by cases ht
  have hdocPart : ∀ d : Option Grammar.Doc,
      (optionalParts (fun d : Grammar.Doc => [[d.lexeme]]) d).flatten =
        Grammar.optional (fun d => [d.lexeme]) d := Grammar.flatten_optionalParts fun _ => rfl
  -- no annotation begins like a doc comment
  have hfollow : ∀ as : List Grammar.AnnotationUse,
      Avoids Grammar.isDoc (as.flatMap fun a => singly a.lexemes).flatten := by
    intro as
    rw [Grammar.flatten_flatMap hflatten, ← List.append_nil (List.flatMap _ _)]
    exact (Grammar.starts_flatMap Grammar.begins_annotationUse as).avoids_append
      (Grammar.class_of_isMark rfl) Grammar.avoids_nil
  have hparts : header.Tracks source tokens m
      (fun d : Option Grammar.Doc × List Grammar.AnnotationUse =>
        optionalParts (fun d => [[d.lexeme]]) d.1 ++ d.2.flatMap fun a => singly a.lexemes)
      Grammar.continuesHeader noToken :=
    (hdoc.optional Grammar.isDoc Grammar.begins_doc).bind
      (fun d _ => by rw [hdocPart]; exact accepts_doc d)
      (fun text => hannotations.bind_silent fun annotations => isSilent_pure (text, annotations))
      (fun _ => Nat.le_add_right m _) hfollow
      (fun _ t _ ht => Grammar.isDoc_continuesHeader t ht)
      (fun t ht => by
        rw [Grammar.continuesHeader]
        rcases Bool.or_eq_true _ _ ▸ ht with h | h
        · rw [h, Bool.true_or]
        · rw [Grammar.eq_of_isMark h]
          rfl)
      (fun _ ht => ht) (fun _ _ _ => avoids_noToken) fun _ ht => by cases ht
  refine hparts.of_surjective
    (e := fun d : Option Grammar.Doc × List Grammar.AnnotationUse => Grammar.Header.mk d.1 d.2)
    (fun h => ⟨(h.doc, h.annotations), rfl⟩) fun d => ?_
  show singly (_ ++ _) = _
  rw [Grammar.singly_append, Grammar.singly_optional, Grammar.singly_flatMap]
  rfl

/-! ## Types -/

theorem checked_of_none {β γ : Type} {x : Parser β} {check : β → Except Fault γ} {span : β → Span}
    {i : Input} {p q : Option Pending} (hrun : x i none = (none, q)) :
    checked x check span i p = (none, q) := by
  unfold checked
  rw [hrun]

/-- Where no identifier is, a type fails and forgets what was pending. -/
theorem meets_of_type {i : Input} (p : Option Pending) (hi : i.GoesOn source tokens)
    (hfirst : Avoids Grammar.startsType i.rest) :
    ∃ q, type i p = (none, q) ∧ Meets source q i.rest := by
  -- how the name ends when nothing is pending in front of it
  have hout := tracks_qualified (m := i.left + 1) i none 0 hi (Nat.lt_succ_self _) (Nat.zero_le _)
    (stands_none rfl) fun h => absurd h (Nat.lt_irrefl 0)
  cases hrun : qualified i none with
  | mk r q =>
    rw [hrun] at hout
    cases hout with
    | failed k longest meets =>
      obtain ⟨b, us, hb, rfl, hbegun⟩ := longest.reached
      -- a name that had begun would begin the rest with a token of a type
      have hnil : b = [] := by
        by_contra hne
        have hqualified : ∀ q : Grammar.Qualified,
            Begins Grammar.startsType (singly q.lexemes).flatten := fun q => by
          rw [Grammar.flatten_singly]
          exact Grammar.begins_qualified q
        exact ((hbegun.begins hqualified hne).append us).not_avoids (hb ▸ hfirst)
      subst hnil
      refine ⟨q, checked_of_none ?_, meets⟩
      change Parser.bind (Parser.spanned (Parser.bind qualified _)) _ i none = _
      simp only [Parser.bind, Parser.spanned, hrun]
    | passed d k longest rest source_eq stands begins =>
      -- a name that was read would do the same
      rw [Grammar.flatten_singly] at rest
      rw [rest] at hfirst
      exact absurd hfirst ((Grammar.begins_qualified d).append _).not_avoids

/-- What was pending inside a type is pending at its start. -/
theorem checked_of_ok {β γ : Type} {x : Parser β} {check : β → Except Fault γ} {span : β → Span}
    {i j : Input} {p q : Option Pending} {a : β} {b : γ} (hrun : x i none = (some (a, j), q))
    (hcheck : check a = .ok b) : checked x check span i p =
      (some (b, j), q.elim p fun inner => Pending.add p i.left inner.fault) := by
  unfold checked
  rw [hrun]
  dsimp only
  rw [hcheck]
  cases q <;> rfl

theorem type_of_parts {i j : Input} {p q : Option Pending} {r : QualifiedName × List TypeExpr × Nat}
    (hrun : typeParts i.left i none = (some (r, j), q)) (hdims : r.2.2 ≤ maxArrayDims) :
    ∃ t, type i p = (some (t, j), q.elim p fun inner => Pending.add p i.left inner.fault) := by
  have hcheck : checkDims (.mk r.1 r.2.1 r.2.2 ⟨i.nextSpan.start, j.stop⟩) = .ok _ := if_pos hdims
  refine ⟨_, checked_of_ok ?_ hcheck⟩
  change Parser.bind (Parser.spanned (typeParts i.left)) _ i none = _
  unfold Parser.bind Parser.spanned
  rw [hrun]
  rfl

section
variable (hspelled : ∀ l ∈ tokens, Spelled source l) (hfew : FewDims tokens)
include hspelled hfew

theorem tracks_type : type.Tracks source tokens m Grammar.TypeUse.parts Grammar.continuesType
    anyToken := by
  intro i p c hi hleft hc hp hreset
  obtain rfl := eq_zero_of_anyToken hc hreset
  have hspelled' : ∀ l ∈ i.rest, Spelled source l := fun l hl => hspelled l (hi.rest.subset hl)
  by_cases hfirst : Begins Grammar.startsType i.rest
  · -- a name alone is a type, so the parser reads some type
    have hread : ∃ (d : Grammar.Qualified × Grammar.TypeArgs × List (Span × Span)) (us : List Lexeme),
        i.rest = (d.1.lexemes ++ (d.2.1.lexemes ++ d.2.2.flatMap Grammar.pair)) ++ us := by
      obtain ⟨⟨token, span⟩, ls, hls, htoken⟩ := hfirst
      cases token with
      | ident name =>
        refine ⟨(⟨⟨name, span⟩, []⟩, .absent, []), ls, hls.trans ?_⟩
        rw [Grammar.TypeArgs.lexemes]
        rfl
      | _ => cases htoken
    have hcovers := fun d us (hrest : i.rest = _ ++ us) =>
      covers_typeParts i.left i none d us hi.source_eq hspelled' (Nat.lt_succ_self _)
        (congrArg Parser.tokens hrest)
    obtain ⟨d₀, us₀, hread⟩ := hread
    obtain ⟨r, j, q, hrun, -⟩ := hcovers d₀ us₀ hread
    obtain ⟨ts, hts, hj, name, args, pairs, hlexemes, rfl⟩ :=
      yields_typeParts (derives_typeWithin i.left) i none r j q hi.source_eq hspelled' hrun
    have hdims : pairs.length ≤ maxArrayDims := by
      refine hfew name args pairs (List.IsInfix.trans ?_ hi.rest.isInfix)
      rw [hts, hlexemes]
      exact (List.prefix_append _ j.rest).isInfix
    obtain ⟨t, ht⟩ := type_of_parts (p := p) hrun hdims
    rw [ht]
    have hparts : (Grammar.TypeUse.mk name args ⟨pairs, hdims⟩).parts.flatten = ts := by
      rw [Grammar.TypeUse.flatten_parts, Grammar.TypeUse.lexemes]
      exact hlexemes.symm
    have hne : ts ≠ [] := by
      rw [← hparts, Grammar.TypeUse.flatten_parts]
      exact (Grammar.begins_typeUse _).ne_nil
    refine .passed (.mk name args ⟨pairs, hdims⟩) ts.length ⟨?_, fun b us hb hbegun => ?_⟩
      (hparts.symm ▸ hts) (hj ▸ hi.source_eq) ?_
      fun hlt => absurd hlt (by rw [hparts]; exact Nat.lt_irrefl _)
    · exact ⟨ts, j.rest, hts, rfl, hparts ▸ Grammar.begun_flatten _⟩
    · -- what is begun is a type, and the parser reads at least as much
      by_cases hnil : b = []
      · rw [hnil]
        exact Nat.zero_le _
      · obtain ⟨⟨name', args', dims'⟩, htype⟩ := typeUse_of_begun hbegun hnil
        rw [Grammar.TypeUse.lexemes, List.append_assoc] at htype
        obtain ⟨_, j', _, hrun', hle⟩ := hcovers (name', args', dims'.brackets) us
          (hb.trans (congrArg (· ++ us) htype))
        rw [hrun] at hrun'
        cases hrun'
        have hlength := congrArg List.length (hts.symm.trans hb)
        rw [List.length_append, List.length_append, ← j.left_eq] at hlength
        omega
    · rw [hparts, Nat.zero_max, Nat.sub_self]
      cases q with
      | none =>
        rw [hts] at hp
        exact Nat.zero_sub ts.length ▸ hp.skip
      | some inner =>
        have hadd := Stands.add_before (hts ▸ hp) (Nat.zero_le _) hne inner.fault
        rw [← hts, ← i.left_eq, Nat.zero_sub] at hadd
        exact hadd
  · have hfirst := Grammar.avoids_of_not_begins hfirst
    obtain ⟨q, hrun, hq⟩ := meets_of_type p hi hfirst
    rw [hrun]
    refine .failed 0 ⟨⟨[], i.rest, rfl, rfl, Grammar.begun_nil⟩, fun b us hb hbegun => ?_⟩ hq
    by_contra hpos
    have hne : b ≠ [] := List.ne_nil_of_length_pos (Nat.pos_of_ne_zero fun h => hpos h.le)
    have htype : ∀ t : Grammar.TypeUse, Begins Grammar.startsType t.parts.flatten := fun t => by
      rw [Grammar.TypeUse.flatten_parts]
      exact Grammar.begins_typeUse t
    exact ((hbegun.begins htype hne).append us).not_avoids (hb ▸ hfirst)

end

/-! ## Methods -/

/-- The parts of parameters with the parentheses around them. -/
def paramsParts (d : Span × Option (Listed Grammar.Param) × Span) : List (List Lexeme) :=
  [mark .leftParen d.1] ::
    (optionalParts (Listed.parts Grammar.Param.parts) d.2.1 ++ [[mark .rightParen d.2.2]])

theorem accepts_params (d : Span × Option (Listed Grammar.Param) × Span) :
    (between .leftParen .rightParen (sepBy param (symbol .comma))).Accepts (paramsParts d).flatten
      noToken := by
  rw [paramsParts, List.flatten_cons, List.flatten_append,
    Grammar.flatten_optionalParts (Grammar.flatten_listed Grammar.Param.flatten_parts)]
  exact (Accepts.sepBy needs_param rfl accepts_param d.2.1).between d.1 d.2.2 rfl

section
variable (hspelled : ∀ l ∈ tokens, Spelled source l) (hfew : FewDims tokens)
include hspelled hfew

theorem tracks_param : param.Tracks source tokens m Grammar.Param.parts noToken anyToken := by
  have hparts : (do
      let type ← type
      let name ← ident
      return (type, name)).Tracks source tokens m
        (fun d : Grammar.TypeUse × Grammar.Ident => d.1.parts ++ [[d.2.lexeme]]) noToken anyToken :=
    (tracks_type hspelled hfew).bind
      (fun t _ => by rw [Grammar.TypeUse.flatten_parts]; exact accepts_type t)
      (fun t => tracks_ident.bind_silent fun name => isSilent_pure (t, name))
      (fun _ => Nat.le_add_right m _) (fun _ => Grammar.avoids_cons _ rfl)
      (fun _ _ hnil => by cases hnil) (fun _ ht => ht) (fun _ ht => ht)
      (fun _ _ _ => avoids_noToken) fun _ ht => by cases ht
  exact (hparts.spanned.bind_silent fun r => isSilent_pure _).of_surjective
    (e := fun d : Grammar.TypeUse × Grammar.Ident => Grammar.Param.mk d.1 d.2)
    (fun p => ⟨(p.type, p.name), rfl⟩) fun _ => rfl

theorem tracks_params :
    (between .leftParen .rightParen (sepBy param (symbol .comma))).Tracks source tokens m paramsParts
      noToken (isMark .leftParen) := by
  have hlisted : (sepBy1 param (symbol .comma)).Tracks source tokens m
      (Listed.parts Grammar.Param.parts) (isMark .comma) anyToken :=
    (tracks_param hspelled hfew).sepBy1
      (fun p _ => by rw [Grammar.Param.flatten_parts]; exact accepts_param p) (isMark .comma) rfl
      (fun _ ht => ht)
      (fun p us => by
        rw [Grammar.Param.flatten_parts]
        exact avoids_behind (Grammar.begins_param p) fun _ _ => rfl)
      (fun _ _ => rfl)
      fun span us h => absurd h (Begins.cons us rfl).not_avoids
  refine (hlisted.orElse_silent Grammar.startsType (isSilent_pure []) fun l => ?_).between
    (fun o _ => ?_) rfl
      fun span us h => absurd h (Begins.cons us rfl).not_avoids
  · rw [Grammar.flatten_listed Grammar.Param.flatten_parts]
    exact Grammar.begins_listed Grammar.begins_param l
  · rw [Grammar.flatten_optionalParts (Grammar.flatten_listed Grammar.Param.flatten_parts)]
    exact Accepts.sepBy needs_param rfl accepts_param o

end

/-- What follows the header of a method. -/
abbrev Core : Type :=
  Grammar.TypeUse × Grammar.Ident × (Span × Option (Listed Grammar.Param) × Span) × Span

/-- The parts of a method behind its header. -/
def Core.parts (d : Core) : List (List Lexeme) :=
  d.1.parts ++ [d.2.1.lexeme] :: (paramsParts d.2.2.1 ++ [[mark .semi d.2.2.2]])

/-- A method with this header. -/
def Core.toMethod (h : Grammar.Header) (d : Core) : Grammar.Method :=
  ⟨h, d.1, d.2.1, d.2.2.1.1, d.2.2.1.2.1, d.2.2.1.2.2, d.2.2.2⟩

theorem coreParts_toMethod (h : Grammar.Header) (d : Core) :
    (Core.toMethod h d).coreParts = Core.parts d := by
  simp [Core.parts, paramsParts, Core.toMethod, Grammar.Method.coreParts]

theorem begins_core (d : Core) : Begins Grammar.startsType (Core.parts d).flatten := by
  rw [Core.parts, List.flatten_append, Grammar.TypeUse.flatten_parts]
  exact (Grammar.begins_typeUse d.1).append _

/-- What is read behind the header of a method. -/
def methodCore (above : Option String × List AnnotationExpr) :
    Parser (Option String × List AnnotationExpr × TypeExpr × Name × List Param) := do
  let returnType ← type
  let name ← ident
  let params ← between .leftParen .rightParen (sepBy param (symbol .comma))
  symbol .semi
  return (above.1, above.2, returnType, name, params)

section
variable (hspelled : ∀ l ∈ tokens, Spelled source l) (hfew : FewDims tokens)
include hspelled hfew

theorem tracks_methodCore (above : Option String × List AnnotationExpr) :
    (methodCore above).Tracks source tokens m Core.parts noToken anyToken := by
  -- the parameters and the semicolon behind them, whatever type and name stand in front
  have hclose : ∀ (returnType : TypeExpr) (name : Name), (do
      let params ← between .leftParen .rightParen (sepBy param (symbol .comma))
      symbol .semi
      return (above.1, above.2, returnType, name, params) : Parser (Option String ×
        List AnnotationExpr × TypeExpr × Name × List Param)).Tracks source tokens m
          (fun d : (Span × Option (Listed Grammar.Param) × Span) × Span =>
            paramsParts d.1 ++ [[mark .semi d.2]]) noToken (isMark .leftParen) :=
    fun returnType name => (tracks_params hspelled hfew).bind (fun d _ => accepts_params d)
      (fun params => (Tracks.symbol .semi).bind_silent fun _ =>
        isSilent_pure (above.1, above.2, returnType, name, params))
      (fun _ => Nat.le_add_right m _) (fun _ _ _ => rfl) (fun _ _ _ ht => by cases ht)
      (fun _ ht => ht) (fun _ ht => ht) (fun _ _ _ => avoids_noToken) fun _ _ => rfl
  -- the name in front of them
  have hname : ∀ returnType : TypeExpr, (do
      let name ← ident
      let params ← between .leftParen .rightParen (sepBy param (symbol .comma))
      symbol .semi
      return (above.1, above.2, returnType, name, params) : Parser (Option String ×
        List AnnotationExpr × TypeExpr × Name × List Param)).Tracks source tokens m
          (fun d : Grammar.Ident × (Span × Option (Listed Grammar.Param) × Span) × Span =>
            [d.1.lexeme] :: (paramsParts d.2.1 ++ [[mark .semi d.2.2]])) noToken Grammar.startsType :=
    fun returnType => Tracks.cons tracks_ident accepts_ident (hclose returnType) (Nat.le_succ m)
      fun _ _ h => absurd h (Begins.cons _ rfl).not_avoids
  exact (tracks_type hspelled hfew).bind
    (fun t _ => by rw [Grammar.TypeUse.flatten_parts]; exact accepts_type t) hname
    (fun _ => Nat.le_add_right m _) (fun _ => Grammar.avoids_cons _ rfl)
    (fun _ _ hnil => by cases hnil) (fun _ ht => ht) (fun _ ht => ht)
    (fun t us => by
      rw [Grammar.TypeUse.flatten_parts]
      exact avoids_behind (Grammar.begins_typeUse t) fun _ _ => rfl)
    fun t ht => by
      cases t with
      | ident name => rfl
      | _ => cases ht

/-! ## Clauses -/

theorem tracks_types : types.Tracks source tokens m (Listed.parts Grammar.TypeUse.parts)
    Grammar.continuesTypes anyToken := by
  refine (tracks_type hspelled hfew).sepBy1 (fun t _ => ?_) (isMark .comma) rfl (fun _ ht => ht)
    (fun t us => ?_) (Grammar.class_of_isMark rfl)
    fun span us h => absurd h (Begins.cons us rfl).not_avoids
  · rw [Grammar.TypeUse.flatten_parts]
    exact accepts_type t
  · rw [Grammar.TypeUse.flatten_parts]
    exact avoids_behind (Grammar.begins_typeUse t) fun _ _ => rfl

theorem tracks_clause (k : Keyword) : (clause k).Tracks source tokens m
    (optionalParts (Grammar.Clause.parts k)) (fun t => Grammar.continuesTypes t || isWord k t)
    (isWord k) := by
  have hparts : (do keyword k; types).Tracks source tokens m
      (fun d : Span × Listed Grammar.TypeUse => [word k d.1] :: d.2.parts Grammar.TypeUse.parts)
      Grammar.continuesTypes (isWord k) :=
    Tracks.cons (Tracks.keyword k) (Accepts.keyword k) (fun _ => tracks_types hspelled hfew)
      (Nat.le_succ m) fun _ _ h => absurd h (Begins.cons _ (decide_eq_true rfl)).not_avoids
  have hclause : (do keyword k; types).Tracks source tokens m (Grammar.Clause.parts k)
      Grammar.continuesTypes (isWord k) :=
    hparts.of_surjective (e := fun d : Span × Listed Grammar.TypeUse => Grammar.Clause.mk d.1 d.2)
      (fun c => ⟨(c.word, c.types), rfl⟩) fun _ => rfl
  refine (hclause.optional (isWord k) fun c => ?_).bind_silent fun listed => isSilent_pure (listed.getD [])
  rw [Grammar.Clause.flatten_parts]
  exact Grammar.begins_clause k c

end

/-! ## Lines with a name -/

theorem tracks_nameLine (k : Keyword) :
    (nameLine k).Tracks source tokens m (Grammar.NameLine.parts k) noToken noToken := by
  have hmore : (do
      let name ← qualified
      symbol .semi
      return name).Tracks source tokens m (fun d : Grammar.Qualified × Span =>
        singly d.1.lexemes ++ [[mark .semi d.2]]) noToken noToken :=
    tracks_qualified.bind (fun q _ => by rw [Grammar.flatten_singly]; exact accepts_qualified q)
      (fun name => (Tracks.symbol .semi).bind_silent fun _ => isSilent_pure name)
      (fun _ => Nat.le_add_right m _) (fun _ => Grammar.avoids_cons _ rfl)
      (fun _ _ hnil => by cases hnil) (fun _ ht => ht) (fun _ ht => ht)
      (fun _ _ _ => avoids_noToken) fun _ ht => by cases ht
  have hparts : (nameLine k).Tracks source tokens m (fun d : Span × Grammar.Qualified × Span =>
      [word k d.1] :: (singly d.2.1.lexemes ++ [[mark .semi d.2.2]])) noToken noToken :=
    Tracks.cons (Tracks.keyword k) (Accepts.keyword k) (fun _ => hmore) (Nat.le_succ m)
      fun _ _ _ => avoids_noToken
  refine hparts.of_surjective
    (e := fun d : Span × Grammar.Qualified × Span => Grammar.NameLine.mk d.1 d.2.1 d.2.2)
    (fun l => ⟨(l.word, l.name, l.semi), rfl⟩) fun d => ?_
  exact congrArg (List.cons _) (Grammar.singly_append _ [mark .semi d.2.2])

end Parser

end ActorIdl.Syntax
