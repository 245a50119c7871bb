import ActorIdl.Proofs.Syntax.Grammar
/-! # The grammar is unambiguous

    Two derivations that derive the same lexemes are the same.  This is proved along the grammar in
    a stronger form: where the lexemes of two derivations stand in front of others and the texts as
    a whole agree, the derivations agree and so does what follows them, provided that what follows
    does not begin with a token that could continue them.  Each production has its own class of such
    tokens, and in every place of the grammar only tokens outside that class can follow.

    It takes one token to tell the alternatives of the grammar apart, except for declarations and
    methods, which can begin with the same doc comment and annotations. -/

namespace ActorIdl.Syntax.Grammar

/-! ## Classes of tokens -/

/-- The lexemes begin with a token of a class. -/
def Begins (first : Token → Bool) (ts : List Lexeme) : Prop :=
  ∃ l ls, ts = l :: ls ∧ first l.token = true

/-- The lexemes do not begin with a token of a class. -/
def Avoids (class_ : Token → Bool) (ts : List Lexeme) : Prop :=
  ∀ l ∈ ts.head?, class_ l.token = false

/-- No token. -/
def noToken (_ : Token) : Bool := false

/-- This punctuation mark only. -/
def isMark (s : Symbol) (t : Token) : Bool := t = .symbol s

/-- This reserved word only. -/
def isWord (k : Keyword) (t : Token) : Bool := t = .keyword k

/-- The marks that a type can go on with. -/
def continuesType : Token → Bool
  | .symbol .dot | .symbol .less | .symbol .leftBracket => true
  | _ => false

/-- The marks that a list of types can go on with. -/
def continuesTypes (t : Token) : Bool := continuesType t || isMark .comma t

/-- The marks that an annotation can go on with. -/
def continuesAnnotation : Token → Bool
  | .symbol .dot | .symbol .leftParen => true
  | _ => false

/-- What a type or a parameter begins with. -/
def startsType : Token → Bool
  | .ident _ => true
  | _ => false

/-- What an argument of an annotation begins with. -/
def startsArgument : Token → Bool
  | .ident _ | .string _ | .number _ => true
  | _ => false

/-- A doc comment. -/
def isDoc : Token → Bool
  | .doc _ => true
  | _ => false

/-- What a header begins with, if it is not empty. -/
def startsHeader : Token → Bool
  | .doc _ | .symbol .atSign => true
  | _ => false

/-- What a header can go on with. -/
def continuesHeader (t : Token) : Bool := continuesAnnotation t || startsHeader t

/-- What a declaration goes on with behind its header. -/
def startsHead : Token → Bool
  | .keyword .abstract_ | .keyword .interface_ | .keyword .class_ | .keyword .annotation_ => true
  | _ => false

/-- What a declaration begins with. -/
def startsDecl (t : Token) : Bool := startsHeader t || startsHead t

/-- What a member begins with. -/
def startsMember (t : Token) : Bool := startsDecl t || startsType t

theorem avoids_nil {class_ : Token → Bool} : Avoids class_ [] := fun _ hl => by cases hl

theorem avoids_cons {class_ : Token → Bool} {l : Lexeme} (ls : List Lexeme)
    (h : class_ l.token = false) : Avoids class_ (l :: ls) := by
  intro l' hl
  cases hl
  exact h

theorem avoids_or {class_ class' : Token → Bool} {ts : List Lexeme} :
    Avoids (fun t => class_ t || class' t) ts ↔ Avoids class_ ts ∧ Avoids class' ts := by
  simp only [Avoids, Bool.or_eq_false_iff]
  exact ⟨fun h => ⟨fun l hl => (h l hl).1, fun l hl => (h l hl).2⟩,
    fun h l hl => ⟨h.1 l hl, h.2 l hl⟩⟩

theorem eq_of_isWord {k : Keyword} {t : Token} (h : isWord k t = true) : t = .keyword k :=
  of_decide_eq_true h

theorem isWord_eq_false {k : Keyword} {first : Token → Bool} (hk : first (.keyword k) = false)
    {t : Token} (ht : first t = true) : isWord k t = false := by
  refine decide_eq_false fun heq => ?_
  rw [heq, hk] at ht
  cases ht

theorem apart_symm {class_ class' : Token → Bool} (h : ∀ t, class_ t = true → class' t = false)
    (t : Token) (ht : class' t = true) : class_ t = false := by
  refine Bool.eq_false_iff.mpr fun hclass => ?_
  rw [h t hclass] at ht
  cases ht

theorem eq_of_isMark {s : Symbol} {t : Token} (h : isMark s t = true) : t = .symbol s :=
  of_decide_eq_true h

/-- A class of tokens says of every token that is a mark what it says of the mark. -/
theorem class_of_isMark {s : Symbol} {class_ : Token → Bool} {b : Bool} (h : class_ (.symbol s) = b) :
    ∀ t, isMark s t = true → class_ t = b := fun t ht => by rw [eq_of_isMark ht, h]

theorem mark_inj {s : Symbol} {a b : Span} : mark s a = mark s b ↔ a = b := by simp [mark]

theorem word_inj {k : Keyword} {a b : Span} : word k a = word k b ↔ a = b := by simp [word]

theorem Avoids.mono {class_ class' : Token → Bool} {ts : List Lexeme} (h : Avoids class_ ts)
    (hsub : ∀ t, class' t = true → class_ t = true) : Avoids class' ts := by
  intro l hl
  cases hclass : class' l.token with
  | false => rfl
  | true => rw [← hclass, ← h l hl, hsub _ hclass, hclass]

theorem Avoids.mark {class_ : Token → Bool} {ts : List Lexeme} {s : Symbol}
    (h : Avoids class_ ts) (hs : class_ (.symbol s) = true) : Avoids (isMark s) ts :=
  h.mono (class_of_isMark hs)

namespace Begins

variable {first class_ : Token → Bool} {ts us : List Lexeme}

theorem cons {l : Lexeme} (ls : List Lexeme) (h : first l.token = true) : Begins first (l :: ls) :=
  ⟨l, ls, rfl, h⟩

theorem append (h : Begins first ts) (us : List Lexeme) : Begins first (ts ++ us) := by
  obtain ⟨l, ls, rfl, hl⟩ := h
  exact ⟨l, ls ++ us, rfl, hl⟩

theorem mono (h : Begins first ts) (hsub : ∀ t, first t = true → class_ t = true) :
    Begins class_ ts := by
  obtain ⟨l, ls, rfl, hl⟩ := h
  exact ⟨l, ls, rfl, hsub _ hl⟩

theorem ne_nil (h : Begins first ts) : ts ≠ [] := by
  obtain ⟨l, ls, rfl, _⟩ := h
  exact List.cons_ne_nil l ls

theorem avoids (h : Begins first ts) (hne : ∀ t, first t = true → class_ t = false) :
    Avoids class_ ts := by
  obtain ⟨l, ls, rfl, hl⟩ := h
  exact avoids_cons ls (hne _ hl)

/-- What begins with a token of a class is not what avoids it. -/
theorem not_avoids (h : Begins first ts) : ¬ Avoids first ts := by
  obtain ⟨l, ls, rfl, hl⟩ := h
  intro hav
  rw [hav l rfl] at hl
  cases hl

end Begins

theorem avoids_of_not_begins {first : Token → Bool} {ts : List Lexeme} (h : ¬ Begins first ts) :
    Avoids first ts := by
  intro l hl
  obtain ⟨ls, rfl⟩ := List.head?_eq_some_iff.mp hl
  exact Bool.eq_false_iff.mpr fun hfirst => h (.cons ls hfirst)

/-- The lexemes begin with a token of a class, if there are any. -/
def Starts (first : Token → Bool) (ts : List Lexeme) : Prop := ts = [] ∨ Begins first ts

theorem Starts.avoids_append {first class_ : Token → Bool} {ts us : List Lexeme}
    (h : Starts first ts) (hne : ∀ t, first t = true → class_ t = false) (hus : Avoids class_ us) :
    Avoids class_ (ts ++ us) := by
  rcases h with rfl | h
  · exact hus
  · exact (h.append us).avoids hne

theorem starts_optional {α : Type} {lexemes : α → List Lexeme} {first : Token → Bool}
    (h : ∀ a, Begins first (lexemes a)) (o : Option α) : Starts first (optional lexemes o) := by
  cases o with
  | none => exact .inl rfl
  | some a => exact .inr (h a)

theorem starts_flatMap {α : Type} {lexemes : α → List Lexeme} {first : Token → Bool}
    (h : ∀ a, Begins first (lexemes a)) (as : List α) : Starts first (as.flatMap lexemes) := by
  cases as with
  | nil => exact .inl rfl
  | cons a as =>
    rw [List.flatMap_cons]
    exact .inr ((h a).append _)

theorem isDoc_continuesHeader (t : Token) (h : isDoc t = true) : continuesHeader t = true := by
  cases t with
  | doc text => rfl
  | _ => cases h

theorem startsType_continuesHeader (t : Token) (h : startsType t = true) :
    continuesHeader t = false := by
  cases t with
  | ident name => rfl
  | _ => cases h

theorem startsType_startsHead (t : Token) (h : startsType t = true) : startsHead t = false := by
  cases t with
  | ident name => rfl
  | _ => cases h

/-! ## Unique decomposition -/

section
variable {α : Type} {lexemes : α → List Lexeme} {stop stop' first : Token → Bool}

/-- Where the lexemes of `a` are followed by no token of the class `stop`, the text tells `a` and
    what follows it. -/
def Unique (lexemes : α → List Lexeme) (stop : Token → Bool) (a : α) : Prop :=
  ∀ b us vs, Avoids stop us → Avoids stop vs → lexemes a ++ us = lexemes b ++ vs → a = b ∧ us = vs

/-- An optional part begins with a token that cannot stand there if the part is absent. -/
theorem unique_optional (hfirst : ∀ a, Begins first (lexemes a)) {o : Option α}
    (ho : ∀ a, Unique lexemes stop a) :
    Unique (optional lexemes) (fun t => stop t || first t) o := by
  intro o' us vs hus hvs h
  obtain ⟨hus, hus'⟩ := avoids_or.mp hus
  obtain ⟨hvs, hvs'⟩ := avoids_or.mp hvs
  cases o with
  | none =>
    cases o' with
    | none => exact ⟨rfl, h⟩
    | some b =>
      have h : us = lexemes b ++ vs := h
      exact absurd hus' (h ▸ (hfirst b).append vs).not_avoids
  | some a =>
    cases o' with
    | none =>
      have h : lexemes a ++ us = vs := h
      exact absurd hvs' (h ▸ (hfirst a).append us).not_avoids
    | some b =>
      obtain ⟨rfl, hrest⟩ := ho a b us vs hus hvs h
      exact ⟨rfl, hrest⟩

/-- A repetition goes on as long as there are tokens that its items begin with. -/
theorem unique_flatMap (hfirst : ∀ a, Begins first (lexemes a))
    (hnext : ∀ t, first t = true → stop t = false) {as : List α}
    (has : ∀ a ∈ as, Unique lexemes stop a) :
    Unique (List.flatMap lexemes) (fun t => stop t || first t) as := by
  intro bs us vs hus hvs h
  obtain ⟨hus, hus'⟩ := avoids_or.mp hus
  obtain ⟨hvs, hvs'⟩ := avoids_or.mp hvs
  induction as generalizing bs with
  | nil =>
    cases bs with
    | nil => exact ⟨rfl, h⟩
    | cons b bs =>
      have h : us = (lexemes b ++ bs.flatMap lexemes) ++ vs := h
      rw [List.append_assoc] at h
      exact absurd hus' (h ▸ (hfirst b).append _).not_avoids
  | cons a as ih =>
    obtain ⟨ha, has⟩ := List.forall_mem_cons.mp has
    rw [List.flatMap_cons, List.append_assoc] at h
    cases bs with
    | nil =>
      have h : lexemes a ++ (as.flatMap lexemes ++ us) = vs := h
      exact absurd hvs' (h ▸ (hfirst a).append _).not_avoids
    | cons b bs =>
      rw [List.flatMap_cons, List.append_assoc] at h
      -- what follows an item is a further item or what follows the last one
      obtain ⟨rfl, hmore⟩ := ha b _ _ ((starts_flatMap hfirst as).avoids_append hnext hus)
        ((starts_flatMap hfirst bs).avoids_append hnext hvs) h
      obtain ⟨rfl, hrest⟩ := ih has bs hmore
      exact ⟨rfl, hrest⟩

theorem begins_further (item : Span × α) :
    Begins (isMark .comma) (mark .comma item.1 :: lexemes item.2) := .cons _ rfl

theorem unique_further (hnext : stop (.symbol .comma) = false) {items : List (Span × α)}
    (hitems : ∀ item ∈ items, Unique lexemes stop item.2) :
    Unique (further lexemes) (fun t => stop t || isMark .comma t) items := by
  refine unique_flatMap begins_further (class_of_isMark hnext) fun item hitem => ?_
  rintro ⟨comma, b⟩ us vs hus hvs h
  obtain ⟨hcomma, h⟩ := List.cons.inj h
  obtain ⟨hitem, hrest⟩ := hitems item hitem b us vs hus hvs h
  exact ⟨Prod.ext (mark_inj.mp hcomma) hitem, hrest⟩

theorem unique_listed (hnext : stop (.symbol .comma) = false) {l : Listed α}
    (h : ∀ a, Unique lexemes stop a) :
    Unique (Listed.lexemes lexemes) (fun t => stop t || isMark .comma t) l := by
  rintro ⟨first', more'⟩ us vs hus hvs heq
  obtain ⟨first, more⟩ := l
  rw [Listed.lexemes, Listed.lexemes, List.append_assoc, List.append_assoc] at heq
  have hstarts : ∀ (items : List (Span × α)) {ts},
      Avoids (fun t => stop t || isMark .comma t) ts → Avoids stop (further lexemes items ++ ts) :=
    fun items _ hts => (starts_flatMap begins_further items).avoids_append
      (class_of_isMark hnext) (avoids_or.mp hts).1
  obtain ⟨rfl, hmore⟩ := h first first' _ _ (hstarts more hus) (hstarts more' hvs) heq
  obtain ⟨rfl, hrest⟩ := unique_further hnext (fun item _ => h item.2) more' us vs hus hvs hmore
  exact ⟨rfl, hrest⟩

end

/-! ## Names -/

theorem lexeme_ident_inj {x y : Ident} : x.lexeme = y.lexeme ↔ x = y := by
  cases x
  cases y
  simp [Ident.lexeme]

theorem lexeme_segment_inj {x y : Segment} : x.lexeme = y.lexeme ↔ x = y := by
  cases x <;> cases y
  · exact lexeme_ident_inj.trans (by simp)
  all_goals simp [Segment.lexeme, Ident.lexeme, word]

theorem begins_qualified (q : Qualified) : Begins startsType q.lexemes := .cons _ rfl

theorem begins_dotted (s : Span × Segment) :
    Begins (isMark .dot) [mark .dot s.1, s.2.lexeme] := .cons _ rfl

theorem unique_qualified (q : Qualified) : Unique Qualified.lexemes (isMark .dot) q := by
  rintro ⟨head', tail'⟩ us vs hus hvs h
  obtain ⟨head, tail⟩ := q
  obtain ⟨hhead, h⟩ := List.cons.inj h
  have hdotted : ∀ s : Span × Segment,
      Unique (fun s : Span × Segment => [mark .dot s.1, s.2.lexeme]) noToken s := by
    rintro ⟨dot, segment⟩ ⟨dot', segment'⟩ us vs _ _ h
    obtain ⟨hdot, h⟩ := List.cons.inj h
    obtain ⟨hsegment, h⟩ := List.cons.inj h
    exact ⟨Prod.ext (mark_inj.mp hdot) (lexeme_segment_inj.mp hsegment), h⟩
  obtain rfl : head = head' := lexeme_ident_inj.mp hhead
  obtain ⟨rfl, hrest⟩ := unique_flatMap begins_dotted (fun _ _ => rfl) (fun s _ => hdotted s) tail'
    us vs hus hvs h
  exact ⟨rfl, hrest⟩

/-! ## Types -/

theorem unique_dims (d : Dims) : Unique Dims.lexemes (isMark .leftBracket) d := by
  rintro ⟨brackets', _⟩ us vs hus hvs h
  obtain ⟨brackets, _⟩ := d
  have hpair : ∀ b : Span × Span,
      Unique (fun b : Span × Span => [mark .leftBracket b.1, mark .rightBracket b.2]) noToken b := by
    rintro ⟨left, right⟩ ⟨left', right'⟩ us vs _ _ h
    obtain ⟨hleft, h⟩ := List.cons.inj h
    obtain ⟨hright, h⟩ := List.cons.inj h
    exact ⟨Prod.ext (mark_inj.mp hleft) (mark_inj.mp hright), h⟩
  obtain ⟨rfl, hrest⟩ := unique_flatMap (fun _ => .cons _ rfl)
    (fun _ _ => rfl) (fun b _ => hpair b) brackets' us vs hus hvs h
  exact ⟨rfl, hrest⟩

theorem starts_dims (d : Dims) : Starts (isMark .leftBracket) d.lexemes :=
  starts_flatMap (fun _ => .cons _ rfl) _

theorem starts_typeArgs (a : TypeArgs) : Starts (isMark .less) a.lexemes := by
  cases a with
  | absent => exact .inl (by rw [TypeArgs.lexemes])
  | listed =>
    rw [TypeArgs.lexemes]
    exact .inr (.cons _ rfl)

theorem furtherLexemes_eq (more : List (Span × TypeUse)) :
    TypeUse.furtherLexemes more = further TypeUse.lexemes more := by
  induction more with
  | nil => rfl
  | cons item more ih =>
    rw [TypeUse.furtherLexemes, ih]
    rfl

theorem begins_typeUse (t : TypeUse) : Begins startsType t.lexemes := by
  cases t with
  | mk name args dims =>
    rw [TypeUse.lexemes, List.append_assoc]
    exact (begins_qualified name).append _

/-- Behind the name of a type only its own arguments and dimensions begin with their marks. -/
theorem avoids_dims (d : Dims) {class_ : Token → Bool} {ts : List Lexeme}
    (hclass : class_ (.symbol .leftBracket) = false) (hts : Avoids class_ ts) :
    Avoids class_ (d.lexemes ++ ts) :=
  (starts_dims d).avoids_append (class_of_isMark hclass) hts

theorem avoids_args_dims (a : TypeArgs) (d : Dims) {class_ : Token → Bool} {ts : List Lexeme}
    (hless : class_ (.symbol .less) = false) (hbracket : class_ (.symbol .leftBracket) = false)
    (hts : Avoids class_ ts) : Avoids class_ (a.lexemes ++ (d.lexemes ++ ts)) :=
  (starts_typeArgs a).avoids_append (class_of_isMark hless)
    (avoids_dims d hbracket hts)

mutual

theorem unique_typeUse (t : TypeUse) : Unique TypeUse.lexemes continuesType t :=
  match t with
  | .mk name args dims => by
    rintro ⟨name', args', dims'⟩ us vs hus hvs h
    simp only [TypeUse.lexemes, List.append_assoc] at h
    obtain ⟨rfl, hargs⟩ := unique_qualified name name' _ _
      (avoids_args_dims args dims rfl rfl (hus.mark rfl))
      (avoids_args_dims args' dims' rfl rfl (hvs.mark rfl)) h
    obtain ⟨rfl, hdims⟩ := unique_typeArgs args args' _ _ (avoids_dims dims rfl (hus.mark rfl))
      (avoids_dims dims' rfl (hvs.mark rfl)) hargs
    obtain ⟨rfl, hrest⟩ := unique_dims dims dims' us vs (hus.mark rfl) (hvs.mark rfl) hdims
    exact ⟨rfl, hrest⟩

theorem unique_typeArgs (a : TypeArgs) : Unique TypeArgs.lexemes (isMark .less) a :=
  match a with
  | .absent => by
    rintro (_ | ⟨less', first', more', greater'⟩) us vs hus hvs h
    · exact ⟨rfl, h⟩
    · -- what follows would begin with the bracket
      have h : us = TypeArgs.lexemes _ ++ vs := h
      rw [TypeArgs.lexemes] at h
      exact absurd hus (h ▸ Begins.cons _ rfl : Begins (isMark .less) us).not_avoids
  | .listed less first more greater => by
    rintro (_ | ⟨less', first', more', greater'⟩) us vs hus hvs h
    · have h : TypeArgs.lexemes _ ++ us = vs := h
      rw [TypeArgs.lexemes] at h
      exact absurd hvs (h ▸ Begins.cons _ rfl : Begins (isMark .less) vs).not_avoids
    · simp only [TypeArgs.lexemes, List.cons_append, List.append_assoc, furtherLexemes_eq] at h
      obtain ⟨hless, hfirst⟩ := List.cons.inj h
      have hmore : ∀ (items : List (Span × TypeUse)) (greater : Span) ts,
          Avoids continuesType (further TypeUse.lexemes items ++ ([mark .greater greater] ++ ts)) :=
        fun items greater ts => (starts_flatMap begins_further items).avoids_append
          (class_of_isMark rfl) (avoids_cons _ rfl)
      obtain ⟨rfl, hitems⟩ := unique_typeUse first first' _ _ (hmore _ _ _) (hmore _ _ _) hfirst
      have hclose : ∀ (greater : Span) ts, Avoids (fun t => continuesType t || isMark .comma t)
          ([mark .greater greater] ++ ts) := fun _ _ => avoids_cons _ rfl
      obtain ⟨rfl, hgreater⟩ := unique_further rfl (unique_furtherTypes more) more' _ _
        (hclose _ _) (hclose _ _) hitems
      obtain ⟨hgreater, hrest⟩ := List.cons.inj hgreater
      rw [mark_inj.mp hless, mark_inj.mp hgreater]
      exact ⟨rfl, hrest⟩

theorem unique_furtherTypes (more : List (Span × TypeUse)) :
    ∀ item ∈ more, Unique TypeUse.lexemes continuesType item.2 :=
  match more with
  | [] => fun _ h => absurd h List.not_mem_nil
  | (_, t) :: more => List.forall_mem_cons.mpr ⟨unique_typeUse t, unique_furtherTypes more⟩

end

/-! ## Annotations and headers -/

theorem begins_argument (a : Argument) : Begins startsArgument a.lexemes := by
  cases a with
  | name q => exact .cons _ rfl
  | _ => exact .cons _ rfl

theorem unique_argument (a : Argument) : Unique Argument.lexemes (isMark .dot) a := by
  intro b us vs hus hvs h
  cases a with
  | string value span =>
    cases b with
    | string value' span' => simpa [Argument.lexemes, and_assoc] using h
    | _ => simp [Argument.lexemes, Qualified.lexemes, Ident.lexeme] at h
  | number text span =>
    cases b with
    | number text' span' => simpa [Argument.lexemes, and_assoc] using h
    | _ => simp [Argument.lexemes, Qualified.lexemes, Ident.lexeme] at h
  | name q =>
    cases b with
    | name q' =>
      obtain ⟨rfl, hrest⟩ := unique_qualified q q' us vs hus hvs h
      exact ⟨rfl, hrest⟩
    | _ => simp [Argument.lexemes, Qualified.lexemes, Ident.lexeme] at h

theorem begins_listed {α : Type} {lexemes : α → List Lexeme} {first : Token → Bool}
    (h : ∀ a, Begins first (lexemes a)) (l : Listed α) : Begins first (l.lexemes lexemes) :=
  (h l.first).append _

theorem unique_arguments (a : Arguments) : Unique Arguments.lexemes noToken a := by
  rintro ⟨left', args', right'⟩ us vs _ _ h
  obtain ⟨left, args, right⟩ := a
  simp only [Arguments.lexemes, List.cons_append, List.append_assoc] at h
  obtain ⟨hleft, hargs⟩ := List.cons.inj h
  obtain ⟨rfl, hright⟩ := unique_optional (begins_listed begins_argument)
    (fun _ => unique_listed rfl unique_argument) args' _ _ (avoids_cons _ rfl) (avoids_cons _ rfl)
    hargs
  obtain ⟨hright, hrest⟩ := List.cons.inj hright
  rw [mark_inj.mp hleft, mark_inj.mp hright]
  exact ⟨rfl, hrest⟩

theorem begins_arguments (a : Arguments) : Begins (isMark .leftParen) a.lexemes := .cons _ rfl

theorem begins_annotationUse (a : AnnotationUse) : Begins (isMark .atSign) a.lexemes := .cons _ rfl

theorem unique_annotation (a : AnnotationUse) : Unique AnnotationUse.lexemes continuesAnnotation a := by
  rintro ⟨sign', name', args'⟩ us vs hus hvs h
  obtain ⟨sign, name, args⟩ := a
  simp only [AnnotationUse.lexemes, List.cons_append, List.append_assoc] at h
  obtain ⟨hsign, hname⟩ := List.cons.inj h
  have hdot : ∀ (args : Option Arguments) {ts}, Avoids continuesAnnotation ts →
      Avoids (isMark .dot) (optional Arguments.lexemes args ++ ts) := fun args _ hts =>
    (starts_optional begins_arguments args).avoids_append (class_of_isMark rfl) (hts.mark rfl)
  obtain ⟨rfl, hargs⟩ := unique_qualified name name' _ _ (hdot args hus) (hdot args' hvs) hname
  obtain ⟨rfl, hrest⟩ := unique_optional begins_arguments unique_arguments args' us vs
    (hus.mark rfl) (hvs.mark rfl) hargs
  rw [mark_inj.mp hsign]
  exact ⟨rfl, hrest⟩

theorem begins_doc (d : Doc) : Begins isDoc [d.lexeme] := .cons _ rfl

theorem unique_doc (d : Doc) : Unique (fun d : Doc => [d.lexeme]) noToken d := by
  rintro ⟨text', span'⟩ us vs _ _ h
  obtain ⟨text, span⟩ := d
  simpa [Doc.lexeme, and_assoc] using h

theorem starts_header (x : Header) : Starts startsHeader x.lexemes := by
  obtain ⟨doc, annotations⟩ := x
  cases doc with
  | none => 
    rcases starts_flatMap begins_annotationUse annotations with h | h
    · exact .inl h
    · exact .inr (h.mono (class_of_isMark rfl))
  | some d => exact .inr (.cons _ rfl)

theorem unique_header (x : Header) : Unique Header.lexemes continuesHeader x := by
  rintro ⟨doc', annotations'⟩ us vs hus hvs h
  obtain ⟨doc, annotations⟩ := x
  simp only [Header.lexemes, List.append_assoc] at h
  have hnoDoc : ∀ (annotations : List AnnotationUse) {ts}, Avoids continuesHeader ts →
      Avoids isDoc (annotations.flatMap (·.lexemes) ++ ts) := fun annotations _ hts =>
    (starts_flatMap begins_annotationUse annotations).avoids_append
      (class_of_isMark rfl) (hts.mono isDoc_continuesHeader)
  obtain ⟨rfl, hannotations⟩ := unique_optional begins_doc unique_doc doc' _ _
    (hnoDoc annotations hus) (hnoDoc annotations' hvs) h
  have hstop : ∀ {ts}, Avoids continuesHeader ts →
      Avoids (fun t => continuesAnnotation t || isMark .atSign t) ts := fun hts =>
    avoids_or.mpr ⟨(avoids_or.mp hts).1, hts.mark rfl⟩
  obtain ⟨rfl, hrest⟩ := unique_flatMap begins_annotationUse
    (class_of_isMark rfl) (fun a _ => unique_annotation a) annotations' us vs
    (hstop hus) (hstop hvs) hannotations
  exact ⟨rfl, hrest⟩

/-! ## Methods -/

theorem begins_param (p : Param) : Begins startsType p.lexemes := (begins_typeUse p.type).append _

theorem unique_param (p : Param) : Unique Param.lexemes noToken p := by
  rintro ⟨type', name'⟩ us vs _ _ h
  obtain ⟨type, name⟩ := p
  simp only [Param.lexemes, List.append_assoc, List.singleton_append] at h
  obtain ⟨rfl, hname⟩ := unique_typeUse type type' _ _ (avoids_cons _ rfl) (avoids_cons _ rfl) h
  obtain ⟨hname, hrest⟩ := List.cons.inj hname
  rw [lexeme_ident_inj.mp hname]
  exact ⟨rfl, hrest⟩

theorem begins_method (m : Method) :
    Begins (fun t => startsHeader t || startsType t) m.lexemes := by
  rw [Method.lexemes, List.append_assoc]
  rcases starts_header m.header with h | h
  · rw [h, List.nil_append]
    exact ((begins_typeUse m.returnType).append _).mono fun t ht => by rw [ht, Bool.or_true]
  · exact (h.append _).mono fun t ht => by rw [ht, Bool.true_or]

/-- Behind the header of a method its type begins. -/
theorem avoids_typeUse (t : TypeUse) (ts : List Lexeme) :
    Avoids continuesHeader (t.lexemes ++ ts) :=
  ((begins_typeUse t).append ts).avoids startsType_continuesHeader

theorem unique_method (m : Method) : Unique Method.lexemes noToken m := by
  rintro ⟨header', type', name', left', params', right', semi'⟩ us vs _ _ h
  obtain ⟨header, type, name, left, params, right, semi⟩ := m
  simp only [Method.lexemes, List.append_assoc, List.cons_append] at h
  obtain ⟨rfl, htype⟩ := unique_header header header' _ _ (avoids_typeUse _ _) (avoids_typeUse _ _) h
  obtain ⟨rfl, hname⟩ := unique_typeUse type type' _ _ (avoids_cons _ rfl) (avoids_cons _ rfl) htype
  obtain ⟨hident, hparen⟩ := List.cons.inj hname
  obtain ⟨hleft, hparams⟩ := List.cons.inj hparen
  obtain ⟨rfl, hclose⟩ := unique_optional (begins_listed begins_param)
    (fun _ => unique_listed rfl unique_param) params' _ _ (avoids_cons _ rfl) (avoids_cons _ rfl)
    hparams
  obtain ⟨hright, hend⟩ := List.cons.inj hclose
  obtain ⟨hsemi, hrest⟩ := List.cons.inj hend
  rw [lexeme_ident_inj.mp hident, mark_inj.mp hleft, mark_inj.mp hright, mark_inj.mp hsemi]
  exact ⟨rfl, hrest⟩

/-! ## Declarations -/

theorem begins_clause (k : Keyword) (c : Clause) : Begins (isWord k) (c.lexemes k) :=
  .cons _ (decide_eq_true rfl)

theorem unique_clause (k : Keyword) (c : Clause) : Unique (Clause.lexemes k) continuesTypes c := by
  rintro ⟨word', types'⟩ us vs hus hvs h
  obtain ⟨word, types⟩ := c
  simp only [Clause.lexemes, List.cons_append] at h
  obtain ⟨hword, htypes⟩ := List.cons.inj h
  obtain ⟨rfl, hrest⟩ := unique_listed rfl unique_typeUse types' us vs hus hvs htypes
  rw [word_inj.mp hword]
  exact ⟨rfl, hrest⟩

/-- What a declaration can go on with in front of its body. -/
def continuesHead (t : Token) : Bool :=
  continuesTypes t || (isWord .extends_ t || isWord .implements_ t)

theorem avoids_extended {ts : List Lexeme} (h : Avoids continuesHead ts) :
    Avoids (fun t => continuesTypes t || isWord .extends_ t) ts := by
  obtain ⟨htypes, hwords⟩ := avoids_or.mp h
  exact avoids_or.mpr ⟨htypes, (avoids_or.mp hwords).1⟩

theorem avoids_implemented {ts : List Lexeme} (h : Avoids continuesHead ts) :
    Avoids (fun t => continuesTypes t || isWord .implements_ t) ts := by
  obtain ⟨htypes, hwords⟩ := avoids_or.mp h
  exact avoids_or.mpr ⟨htypes, (avoids_or.mp hwords).2⟩

/-- In front of the body of a declaration its second clause can stand. -/
theorem avoids_clauses (c : Option Clause) {ts : List Lexeme} (h : Avoids continuesHead ts) :
    Avoids (fun t => continuesTypes t || isWord .extends_ t)
      (optional (Clause.lexemes .implements_) c ++ ts) :=
  (starts_optional (begins_clause .implements_) c).avoids_append
    (fun t ht => by rw [eq_of_isWord ht]; rfl) (avoids_extended h)

theorem kind_inj {k k' : DeclKind} {a b : Span} :
    word (kindWord k) a = word (kindWord k') b ↔ k = k' ∧ a = b := by
  cases k <;> cases k' <;> simp [word, kindWord]

/-- What follows the header of a declaration. -/
theorem begins_kind (abstractWord : Option Span) (k : DeclKind) (span : Span) (ts : List Lexeme) :
    Begins startsHead
      (optional (fun span => [word .abstract_ span]) abstractWord ++ word (kindWord k) span :: ts) := by
  cases abstractWord with
  | none => cases k <;> exact .cons _ rfl
  | some span => exact .cons _ rfl

theorem startsHead_continuesHeader (t : Token) (h : startsHead t = true) :
    continuesHeader t = false := by
  cases t with
  | keyword k => rfl
  | _ => cases h

theorem unique_head (x : Head) : Unique Head.lexemes continuesHead x := by
  rintro ⟨header', abstract', kind', kindSpan', name', extended', implemented'⟩ us vs hus hvs h
  obtain ⟨header, abstractWord, kind, kindSpan, name, extended, implemented⟩ := x
  simp only [Head.lexemes, List.append_assoc, List.cons_append] at h
  -- from the left, each part ends in front of what the next one begins with
  obtain ⟨rfl, hkind⟩ := unique_header header header' _ _
    ((begins_kind _ _ _ _).avoids startsHead_continuesHeader)
    ((begins_kind _ _ _ _).avoids startsHead_continuesHeader) h
  have habstract : ∀ span : Span,
      Unique (fun span : Span => [word .abstract_ span]) noToken span := by
    intro span span' us vs _ _ h
    obtain ⟨hspan, hrest⟩ := List.cons.inj h
    exact ⟨word_inj.mp hspan, hrest⟩
  have hkindStop : ∀ (k : DeclKind) (span : Span) ts,
      Avoids (fun t => noToken t || isWord .abstract_ t) (word (kindWord k) span :: ts) :=
    fun k _ _ => avoids_cons _ (by cases k <;> rfl)
  obtain ⟨rfl, hname⟩ := unique_optional (fun _ => .cons _ rfl)
    habstract abstract' _ _ (hkindStop _ _ _) (hkindStop _ _ _) hkind
  obtain ⟨hword, hident⟩ := List.cons.inj hname
  obtain ⟨rfl, rfl⟩ := kind_inj.mp hword
  obtain ⟨hsame, hclauses⟩ := List.cons.inj hident
  -- the clauses end where their words and the body begin
  obtain ⟨rfl, himplemented⟩ := unique_optional (begins_clause .extends_)
    (unique_clause .extends_) extended' _ _ (avoids_clauses implemented hus)
    (avoids_clauses implemented' hvs) hclauses
  obtain ⟨rfl, hrest⟩ := unique_optional (begins_clause .implements_) (unique_clause .implements_)
    implemented' us vs (avoids_implemented hus) (avoids_implemented hvs) himplemented
  rw [lexeme_ident_inj.mp hsame]
  exact ⟨rfl, hrest⟩

/-! ## Bodies and members -/

theorem begins_head (x : Head) : Begins startsDecl x.lexemes := by
  rw [Head.lexemes, List.append_assoc]
  rcases starts_header x.header with h | h
  · rw [h, List.nil_append]
    exact (begins_kind _ _ _ _).mono fun t ht => by rw [startsDecl, ht, Bool.or_true]
  · exact (h.append _).mono fun t ht => by rw [startsDecl, ht, Bool.true_or]

theorem begins_member (m : Member) : Begins startsMember m.lexemes := by
  cases m with
  | decl head body =>
    rw [Member.lexemes]
    exact ((begins_head head).append _).mono fun t ht => by rw [startsMember, ht, Bool.true_or]
  | method m =>
    rw [Member.lexemes]
    refine (begins_method m).mono fun t ht => ?_
    rw [startsMember, startsDecl]
    rcases Bool.or_eq_true _ _ ▸ ht with h | h
    · rw [h, Bool.true_or, Bool.true_or]
    · rw [h, Bool.or_true]

theorem allLexemes_eq (ms : List Member) : Member.allLexemes ms = ms.flatMap (·.lexemes) := by
  induction ms with
  | nil => rfl
  | cons m ms ih =>
    rw [Member.allLexemes, ih]
    rfl

/-- A declaration and a method differ behind their headers. -/
theorem head_ne_method (x : Head) (m : Method) (us vs : List Lexeme) :
    x.lexemes ++ us ≠ m.lexemes ++ vs := by
  intro h
  simp only [Head.lexemes, Method.lexemes, List.append_assoc, List.cons_append] at h
  obtain ⟨_, htype⟩ := unique_header x.header m.header _ _
    ((begins_kind _ _ _ _).avoids startsHead_continuesHeader) (avoids_typeUse _ _) h
  have hhead := begins_kind x.abstractWord x.kind x.kindSpan (x.name.lexeme ::
    (optional (Clause.lexemes .extends_) x.extended ++
      (optional (Clause.lexemes .implements_) x.implemented ++ us)))
  rw [htype] at hhead
  exact hhead.not_avoids (((begins_typeUse _).append _).avoids startsType_startsHead)

theorem avoids_body (b : Body) (ts : List Lexeme) : Avoids continuesHead (b.lexemes ++ ts) := by
  cases b with
  | semicolon semi =>
    rw [Body.lexemes]
    exact avoids_cons _ rfl
  | braces left members right =>
    rw [Body.lexemes]
    exact avoids_cons _ rfl

mutual

theorem unique_body (b : Body) : Unique Body.lexemes noToken b :=
  match b with
  | .semicolon semi => by
    rintro (⟨semi'⟩ | ⟨left', members', right'⟩) us vs _ _ h
    · rw [Body.lexemes, Body.lexemes] at h
      obtain ⟨hsemi, hrest⟩ := List.cons.inj h
      rw [mark_inj.mp hsemi]
      exact ⟨rfl, hrest⟩
    · rw [Body.lexemes, Body.lexemes] at h
      cases (List.cons.inj h).1
  | .braces left members right => by
    rintro (⟨semi'⟩ | ⟨left', members', right'⟩) us vs _ _ h
    · rw [Body.lexemes, Body.lexemes] at h
      cases (List.cons.inj h).1
    · simp only [Body.lexemes, List.cons_append, List.append_assoc, allLexemes_eq] at h
      obtain ⟨hleft, hmembers⟩ := List.cons.inj h
      -- no member begins with the closing brace, so there are as many members
      obtain ⟨rfl, hclose⟩ := unique_flatMap begins_member (fun _ _ => rfl)
        (unique_members members) members' _ _ (avoids_cons _ rfl) (avoids_cons _ rfl) hmembers
      obtain ⟨hright, hrest⟩ := List.cons.inj hclose
      rw [mark_inj.mp hleft, mark_inj.mp hright]
      exact ⟨rfl, hrest⟩

theorem unique_member (m : Member) : Unique Member.lexemes noToken m :=
  match m with
  | .decl head body => by
    rintro (⟨head', body'⟩ | m') us vs hus hvs h
    · simp only [Member.lexemes, List.append_assoc] at h
      obtain ⟨rfl, hbody⟩ := unique_head head head' _ _ (avoids_body _ _) (avoids_body _ _) h
      obtain ⟨rfl, hrest⟩ := unique_body body body' us vs hus hvs hbody
      exact ⟨rfl, hrest⟩
    · simp only [Member.lexemes, List.append_assoc] at h
      exact absurd h (head_ne_method _ _ _ _)
  | .method m => by
    rintro (⟨head', body'⟩ | m') us vs hus hvs h
    · simp only [Member.lexemes, List.append_assoc] at h
      exact absurd h.symm (head_ne_method _ _ _ _)
    · simp only [Member.lexemes] at h
      obtain ⟨rfl, hrest⟩ := unique_method m m' us vs hus hvs h
      exact ⟨rfl, hrest⟩

theorem unique_members (ms : List Member) : ∀ m ∈ ms, Unique Member.lexemes noToken m :=
  match ms with
  | [] => fun _ h => absurd h List.not_mem_nil
  | m :: ms => List.forall_mem_cons.mpr ⟨unique_member m, unique_members ms⟩

end

theorem begins_decl (d : Decl) : Begins startsDecl d.lexemes := (begins_head d.head).append _

theorem unique_decl (d : Decl) : Unique Decl.lexemes noToken d := by
  rintro ⟨head', body'⟩ us vs hus hvs h
  obtain ⟨head, body⟩ := d
  simp only [Decl.lexemes, List.append_assoc] at h
  obtain ⟨rfl, hbody⟩ := unique_head head head' _ _ (avoids_body _ _) (avoids_body _ _) h
  obtain ⟨rfl, hrest⟩ := unique_body body body' us vs hus hvs hbody
  exact ⟨rfl, hrest⟩

/-! ## Units -/

theorem begins_nameLine (k : Keyword) (l : NameLine) : Begins (isWord k) (l.lexemes k) :=
  .cons _ (decide_eq_true rfl)

theorem unique_nameLine (k : Keyword) (l : NameLine) : Unique (NameLine.lexemes k) noToken l := by
  rintro ⟨word', name', semi'⟩ us vs _ _ h
  obtain ⟨word, name, semi⟩ := l
  simp only [NameLine.lexemes, List.cons_append, List.append_assoc] at h
  obtain ⟨hword, hname⟩ := List.cons.inj h
  obtain ⟨rfl, hend⟩ := unique_qualified name name' _ _ (avoids_cons _ rfl) (avoids_cons _ rfl) hname
  obtain ⟨hsemi, hrest⟩ := List.cons.inj hend
  rw [word_inj.mp hword, mark_inj.mp hsemi]
  exact ⟨rfl, hrest⟩

/-- Declarations are not mistaken for further lines with names. -/
theorem avoids_decls (decls : List Decl) {k : Keyword} (hk : startsDecl (.keyword k) = false) :
    Avoids (isWord k) (decls.flatMap (·.lexemes)) := by
  have hstarts := (starts_flatMap begins_decl decls).avoids_append
    (fun t ht => isWord_eq_false hk ht) (avoids_nil : Avoids (isWord k) [])
  rwa [List.append_nil] at hstarts

theorem avoids_imports (imports : List NameLine) (decls : List Decl) : Avoids (isWord .package_)
    (imports.flatMap (NameLine.lexemes .import_) ++ decls.flatMap (·.lexemes)) :=
  (starts_flatMap (begins_nameLine .import_) imports).avoids_append
    (fun t ht => by rw [eq_of_isWord ht]; rfl) (avoids_decls decls rfl)

/-- The lexemes of a unit have one derivation. -/
theorem eq_of_lexemes_eq {d d' : Source} (h : d.lexemes = d'.lexemes) : d = d' := by
  obtain ⟨package, imports, decls⟩ := d
  obtain ⟨package', imports', decls'⟩ := d'
  simp only [Source.lexemes, List.append_assoc] at h
  obtain ⟨rfl, himports⟩ := unique_optional (begins_nameLine .package_) (unique_nameLine .package_)
    package' _ _ (avoids_imports imports decls) (avoids_imports imports' decls') h
  obtain ⟨rfl, hdecls⟩ := unique_flatMap (begins_nameLine .import_) (fun _ _ => rfl)
    (fun l _ => unique_nameLine .import_ l) imports' _ _ (avoids_decls decls rfl)
    (avoids_decls decls' rfl) himports
  have hall : decls.flatMap (·.lexemes) ++ [] = decls'.flatMap (·.lexemes) ++ [] := by
    rw [List.append_nil, List.append_nil, hdecls]
  obtain ⟨rfl, _⟩ := unique_flatMap begins_decl (fun _ _ => rfl) (fun d _ => unique_decl d) decls' _ _
    avoids_nil avoids_nil hall
  rfl

end ActorIdl.Syntax.Grammar
