import ActorIdl.Proofs.Syntax.Reads
import ActorIdl.Proofs.Syntax.Unambiguous
/-! # Every derivation is read

    `x.Accepts ls stop` says that `x` reads the lexemes `ls` wherever no token of the class `stop`
    follows them, and `x.Needs first` says that `x` fails in front of every token that is not of
    the class `first`.  The classes are those by which the grammar is unambiguous, so the parser
    goes the one way that there is: a repetition goes on while there are tokens that its items
    begin with, and of two alternatives the first one fails if the second one is to be taken.

    Nesting is bounded by the number of tokens, since every level of it has a token of its own. -/

namespace ActorIdl.Syntax

theorem Grammar.length_le_further {α : Type} (lexemes : α → List Lexeme) {item : Span × α}
    {items : List (Span × α)} (h : item ∈ items) :
    (lexemes item.2).length ≤ (further lexemes items).length := by
  obtain ⟨before, behind, rfl⟩ := List.append_of_mem h
  simp only [further, List.flatMap_append, List.flatMap_cons, List.length_append, List.length_cons]
  omega

namespace Parser

open Grammar (Avoids Begins Listed mark word noToken isMark isWord)

/-- The tokens of some lexemes. -/
def tokens (ls : List Lexeme) : List Token := ls.map (·.token)

theorem tokens_append (ls ms : List Lexeme) : tokens (ls ++ ms) = tokens ls ++ tokens ms :=
  List.map_append

theorem tokens_flatMap {δ : Type} (lexemes : δ → List Lexeme) (ds : List δ) :
    tokens (ds.flatMap lexemes) = ds.flatMap fun d => tokens (lexemes d) := List.map_flatMap

/-- Reads these lexemes where no token of the class follows. -/
def Accepts {α : Type} (x : Parser α) (ls : List Lexeme) (stop : Token → Bool) : Prop :=
  ∀ us, Avoids stop us → x.Reads (tokens ls) (tokens us) fun _ => True

/-- Fails where no token of the class follows. -/
def Needs {α : Type} (x : Parser α) (first : Token → Bool) : Prop :=
  ∀ us, Avoids first us → x.Refuses (tokens us)

variable {α β δ : Type} {x y : Parser α} {f : α → Parser β} {ls ms us : List Lexeme}
  {stop stop' first : Token → Bool} {lexemes : δ → List Lexeme}

theorem avoids_noToken : Avoids noToken us := fun _ _ => rfl

/-! ## Failing -/

namespace Needs

theorem bind (hx : x.Needs first) : (x >>= f).Needs first := fun us hus => (hx us hus).bind

theorem spanned (hx : x.Needs first) : (spanned x).Needs first := fun us hus => (hx us hus).spanned

theorem orElse (hx : x.Needs first) (hy : y.Needs first) : (x <|> y).Needs first := by
  intro us hus i p hi
  obtain ⟨q, hrun⟩ := hx us hus i p hi
  obtain ⟨r, hrun'⟩ := hy us hus i q hi
  refine ⟨r, ?_⟩
  change Parser.orElse x (fun _ => y) i p = _
  rw [Parser.orElse, hrun]
  exact hrun'

theorem mono (hx : x.Needs first) (hsub : ∀ t, first t = true → stop t = true) : x.Needs stop :=
  fun us hus => hx us (hus.mono hsub)

theorem satisfy {what : Expectation} {g : Lexeme → Option α}
    (h : ∀ l, first l.token = false → g l = none) : (satisfy what g).Needs first := by
  intro us hus
  refine Refuses.satisfy fun l hl => h l ?_
  rw [tokens, List.head?_map] at hl
  obtain ⟨l', hl', htoken⟩ := Option.map_eq_some_iff.mp hl
  rw [← htoken]
  exact hus l' hl'

theorem symbol (s : Symbol) : (symbol s).Needs (isMark s) :=
  satisfy fun _ hl => if_neg (of_decide_eq_false hl)

theorem keyword (k : Keyword) : (keyword k).Needs (isWord k) :=
  satisfy fun _ hl => if_neg (of_decide_eq_false hl)

theorem between (left right : Symbol) : (between left right x).Needs (isMark left) :=
  (symbol left).bind

end Needs

/-! ## Sequence and choice -/

namespace Accepts

theorem mono (hx : x.Accepts ls stop) (hsub : ∀ t, stop t = true → stop' t = true) :
    x.Accepts ls stop' := fun us hus => hx us (hus.mono hsub)

theorem pure (a : α) : (pure a : Parser α).Accepts [] stop := fun _ _ => .pure trivial

theorem bind (hx : x.Accepts ls stop) (hf : ∀ a, (f a).Accepts ms stop')
    (hfollow : ∀ us, Avoids stop' us → Avoids stop (ms ++ us)) :
    (x >>= f).Accepts (ls ++ ms) stop' := by
  intro us hus
  have hread := hx (ms ++ us) (hfollow us hus)
  rw [tokens_append] at hread ⊢
  exact hread.bind fun a _ => hf a us hus

/-- The second parser reads nothing. -/
theorem bind_nil (hx : x.Accepts ls stop) (hf : ∀ a, (f a).Accepts [] stop) :
    (x >>= f).Accepts ls stop := fun us hus => (hx us hus).bind_nil fun a _ => hf a us hus

/-- The first parser reads one token. -/
theorem cons {l : Lexeme} (hx : x.Accepts [l] noToken) (hf : ∀ a, (f a).Accepts ms stop) :
    (x >>= f).Accepts (l :: ms) stop := hx.bind hf fun _ _ => avoids_noToken

theorem orElse_left (hx : x.Accepts ls stop) : (x <|> y).Accepts ls stop :=
  fun us hus => (hx us hus).orElse_left

theorem orElse_right (hx : ∀ us, x.Refuses (tokens (ls ++ us))) (hy : y.Accepts ls stop) :
    (x <|> y).Accepts ls stop := fun us hus =>
  .orElse_right (tokens_append ls us ▸ hx us) (hy us hus)

/-- Lexemes that begin with another token than the first alternative needs. -/
theorem orElse_needs (hx : x.Needs first) (hls : ∀ us, Avoids first (ls ++ us))
    (hy : y.Accepts ls stop) : (x <|> y).Accepts ls stop :=
  orElse_right (fun us => hx _ (hls us)) hy

theorem spanned (hx : x.Accepts ls stop) : (spanned x).Accepts ls stop :=
  fun us hus => (hx us hus).spanned.mono fun _ _ => trivial

/-! ## Tokens -/

theorem satisfy {what : Expectation} {g : Lexeme → Option α} {l : Lexeme}
    (h : ∀ l', l'.token = l.token → ∃ a, g l' = some a) : (satisfy what g).Accepts [l] noToken :=
  fun _ _ => Reads.satisfy fun l' hl => (h l' hl).imp fun _ ha => ⟨ha, trivial⟩

theorem symbol (s : Symbol) (span : Span) : (symbol s).Accepts [mark s span] noToken :=
  fun _ _ => Reads.symbol s

theorem keyword (k : Keyword) (span : Span) : (keyword k).Accepts [word k span] noToken :=
  fun _ _ => Reads.keyword k

/-! ## Optional parts, repetition and lists -/

theorem optional (hneeds : x.Needs first) (hx : ∀ d, x.Accepts (lexemes d) stop) (o : Option δ) :
    (optional x).Accepts (Grammar.optional lexemes o) fun t => stop t || first t := by
  intro us hus
  obtain ⟨hus, hus'⟩ := Grammar.avoids_or.mp hus
  cases o with
  | none => exact (Reads.optional_none (hneeds us hus')).mono fun _ _ => trivial
  | some d => exact (hx d us hus).optional_some.mono fun _ _ => trivial

/-- Every item is read where the next one or the end of the repetition follows it. -/
theorem many_length (hfirst : ∀ d, Begins first (lexemes d))
    (hnext : ∀ t, first t = true → stop t = false) (hneeds : x.Needs first) {ds : List δ}
    (hx : ∀ d ∈ ds, x.Accepts (lexemes d) stop) (hus : Avoids (fun t => stop t || first t) us) :
    (many x).Reads (tokens (ds.flatMap lexemes)) (tokens us) (·.length = ds.length) := by
  obtain ⟨hstop, hend⟩ := Grammar.avoids_or.mp hus
  have hmany : (Parser.many x).Reads (ds.flatMap fun d => tokens (lexemes d)) (tokens us)
      (List.Forall₂ (fun _ _ => True) ds) := by
    refine Reads.many (hneeds us hend) (fun d _ => ?_) fun d more hmore => ?_
    · rw [ne_eq, tokens, List.map_eq_nil_iff]
      exact (hfirst d).ne_nil
    · have hread := hx d (hmore.subset List.mem_cons_self) (more.flatMap lexemes ++ us)
        ((Grammar.starts_flatMap hfirst more).avoids_append hnext hstop)
      rwa [tokens_append, tokens_flatMap] at hread
  rw [tokens_flatMap]
  exact hmany.mono fun _ h => h.length_eq.symm

theorem many (hfirst : ∀ d, Begins first (lexemes d))
    (hnext : ∀ t, first t = true → stop t = false) (hneeds : x.Needs first) {ds : List δ}
    (hx : ∀ d ∈ ds, x.Accepts (lexemes d) stop) :
    (many x).Accepts (ds.flatMap lexemes) fun t => stop t || first t :=
  fun _ hus => (many_length hfirst hnext hneeds hx hus).mono fun _ _ => trivial

theorem sepBy1 (hnext : stop (.symbol .comma) = false) {l : Listed δ}
    (hfirst : x.Accepts (lexemes l.first) stop)
    (hmore : ∀ item ∈ l.more, x.Accepts (lexemes item.2) stop) :
    (sepBy1 x (Parser.symbol .comma)).Accepts (l.lexemes lexemes)
      fun t => stop t || isMark .comma t := by
  have hcomma : ∀ t, isMark .comma t = true → stop t = false := Grammar.class_of_isMark hnext
  have hitems : (Parser.many (do Parser.symbol .comma; x)).Accepts
      (Grammar.further lexemes l.more) fun t => stop t || isMark .comma t :=
    many Grammar.begins_further hcomma (Needs.symbol .comma).bind fun item hitem =>
      (symbol .comma item.1).cons fun _ => hmore item hitem
  refine hfirst.bind (fun _ => hitems.bind_nil fun _ => pure _) fun us hus => ?_
  exact (Grammar.starts_flatMap Grammar.begins_further l.more).avoids_append hcomma
    (Grammar.avoids_or.mp hus).1

theorem sepBy (hneeds : x.Needs first) (hnext : stop (.symbol .comma) = false)
    (hx : ∀ d, x.Accepts (lexemes d) stop) (o : Option (Listed δ)) :
    (sepBy x (Parser.symbol .comma)).Accepts (Grammar.optional (Listed.lexemes lexemes) o)
      fun t => (stop t || isMark .comma t) || first t := by
  cases o with
  | none =>
    intro us hus
    exact Reads.orElse_right (hneeds us (Grammar.avoids_or.mp hus).2).bind (.pure trivial)
  | some l =>
    exact (sepBy1 hnext (hx l.first) fun item _ => hx item.2).orElse_left.mono
      fun t ht => by rw [ht, Bool.true_or]

theorem between {left right : Symbol} (l r : Span) (hx : x.Accepts ls stop)
    (hright : stop (.symbol right) = false) :
    (between left right x).Accepts (mark left l :: (ls ++ [mark right r])) noToken := by
  refine (symbol left l).cons fun _ => hx.bind (fun _ => ?_) fun us _ => Grammar.avoids_cons _ hright
  exact (symbol right r).bind_nil fun _ => pure _

end Accepts

/-! ## Names -/

theorem needs_ident : ident.Needs Grammar.startsType := by
  refine Needs.satisfy fun l hl => ?_
  split
  · rename_i name hname
    rw [hname] at hl
    cases hl
  · rfl

theorem accepts_ident (n : Grammar.Ident) : ident.Accepts [n.lexeme] noToken :=
  fun _ _ => (reads_ident n.name).mono fun _ _ => trivial

theorem accepts_segment (s : Grammar.Segment) : segment.Accepts [s.lexeme] noToken := by
  refine Accepts.satisfy fun l hl => ?_
  rw [hl]
  cases s with
  | ident n => exact ⟨_, rfl⟩
  | keyword k span => exact ⟨_, rfl⟩

theorem accepts_dotted (s : Span × Grammar.Segment) :
    (do symbol .dot; segment).Accepts [mark .dot s.1, s.2.lexeme] noToken :=
  (Accepts.symbol .dot s.1).cons fun _ => accepts_segment s.2

theorem needs_qualified : qualified.Needs Grammar.startsType := needs_ident.bind.spanned.bind

theorem accepts_qualified (q : Grammar.Qualified) : qualified.Accepts q.lexemes (isMark .dot) := by
  have htail : (many (do symbol .dot; segment)).Accepts
      (q.tail.flatMap fun s => [mark .dot s.1, s.2.lexeme]) (isMark .dot) :=
    Accepts.many Grammar.begins_dotted (fun _ _ => rfl) (Needs.symbol .dot).bind fun s _ =>
      accepts_dotted s
  refine Accepts.bind_nil (Accepts.spanned ?_) fun _ => .pure _
  exact (accepts_ident q.head).cons fun _ => htail.bind_nil fun _ => .pure _

/-! ## Types -/

theorem needs_typeWithin (n : Nat) : (typeWithin n).Needs Grammar.startsType := by
  intro us hus i p hi
  cases n with
  | zero => exact ⟨p, rfl⟩
  | succ n =>
    obtain ⟨q, hrun⟩ := needs_qualified.bind.spanned.bind us hus i none hi
    refine ⟨q, ?_⟩
    rw [typeWithin]
    unfold checked
    rw [hrun]

theorem needs_type : type.Needs Grammar.startsType :=
  fun us hus i => needs_typeWithin (i.left + 1) us hus i

/-- The optional arguments of a type. -/
def typeArgsWithin (n : Nat) : Parser (Option (List TypeExpr)) :=
  optional (between .less .greater (sepBy1 (typeWithin n) (symbol .comma)))

theorem accepts_typeArgsWithin {a : Grammar.TypeArgs} {n : Nat} (h : a.lexemes ≠ [] →
    (between .less .greater (sepBy1 (typeWithin n) (symbol .comma))).Accepts a.lexemes noToken) :
    (typeArgsWithin n).Accepts a.lexemes (isMark .less) := by
  intro us hus
  by_cases hnil : a.lexemes = []
  · rw [hnil]
    exact (Reads.optional_none ((Needs.symbol .less).bind us hus)).mono fun _ _ => trivial
  · exact (h hnil us avoids_noToken).optional_some.mono fun _ _ => trivial

theorem accepts_brackets (b : Span × Span) :
    brackets.Accepts [mark .leftBracket b.1, mark .rightBracket b.2] noToken :=
  (Accepts.symbol .leftBracket b.1).cons fun _ => Accepts.symbol .rightBracket b.2

theorem reads_brackets (d : Grammar.Dims) (hus : Avoids (isMark .leftBracket) us) :
    (many brackets).Reads (tokens d.lexemes) (tokens us) (·.length ≤ maxArrayDims) := by
  have hmany := Accepts.many_length (fun _ => .cons _ rfl) (fun _ _ => rfl)
    (Needs.symbol .leftBracket).bind (fun b (_ : b ∈ d.brackets) => accepts_brackets b) hus
  exact hmany.mono fun _ hlength => hlength.trans_le d.few

mutual

theorem accepts_typeUse (t : Grammar.TypeUse) (n : Nat) (hn : t.lexemes.length ≤ n) :
    (typeWithin (n + 1)).Accepts t.lexemes Grammar.continuesType :=
  match t with
  | .mk name args dims => by
    intro us hus
    rw [Grammar.TypeUse.lexemes] at hn ⊢
    have hname := accepts_qualified name (args.lexemes ++ (dims.lexemes ++ us))
      (Grammar.avoids_args_dims args dims rfl rfl (hus.mark rfl))
    -- the arguments are shorter than the type, so one level less is enough for them
    have hargs : (typeArgsWithin n).Accepts args.lexemes (isMark .less) := by
      refine accepts_typeArgsWithin (accepts_typeArgs args n ?_)
      simp only [List.length_append] at hn
      omega
    have hargs := hargs (dims.lexemes ++ us) (Grammar.avoids_dims dims rfl (hus.mark rfl))
    have hdims := reads_brackets dims (hus.mark rfl)
    -- the three parts one behind the other, each in front of what is behind it
    simp only [tokens_append, List.append_assoc] at hname hargs ⊢
    rw [← List.append_assoc] at hname
    have hparts : (do
        let name ← qualified
        let args ← typeArgsWithin n
        let dims ← many brackets
        return (name, args.getD [], dims.length)).Reads
          (tokens name.lexemes ++ (tokens args.lexemes ++ tokens dims.lexemes)) (tokens us)
            fun r : QualifiedName × List TypeExpr × Nat => r.2.2 ≤ maxArrayDims :=
      hname.bind fun _ _ => hargs.bind fun _ _ => hdims.bind_nil fun _ hlength => .pure hlength
    exact Reads.checked (hparts.spanned.bind_nil fun r hr => .pure ⟨_, if_pos hr, trivial⟩)

/-- The arguments of a type with the brackets around them. -/
theorem accepts_typeArgs (a : Grammar.TypeArgs) (n : Nat) (hn : a.lexemes.length ≤ n) :
    a.lexemes ≠ [] →
      (between .less .greater (sepBy1 (typeWithin n) (symbol .comma))).Accepts a.lexemes noToken :=
  match a with
  | .absent => fun hne => absurd (by rw [Grammar.TypeArgs.lexemes]) hne
  | .listed less first more greater => by
    intro _
    rw [Grammar.TypeArgs.lexemes, Grammar.furtherLexemes_eq] at hn ⊢
    simp only [List.length_cons, List.length_append, List.length_nil] at hn
    obtain ⟨m, rfl⟩ : ∃ m, n = m + 1 := ⟨n - 1, by omega⟩
    have hmore : ∀ item ∈ more, item.2.lexemes.length ≤ m := by
      intro item hitem
      have hlength := Grammar.length_le_further Grammar.TypeUse.lexemes hitem
      omega
    have hlisted : (sepBy1 (typeWithin (m + 1)) (symbol .comma)).Accepts
        (Listed.lexemes Grammar.TypeUse.lexemes ⟨first, more⟩)
        fun t => Grammar.continuesType t || isMark .comma t :=
      Accepts.sepBy1 rfl (accepts_typeUse first m (by omega)) (accepts_furtherTypes more m hmore)
    exact hlisted.between less greater rfl

theorem accepts_furtherTypes (more : List (Span × Grammar.TypeUse)) (n : Nat)
    (hn : ∀ item ∈ more, item.2.lexemes.length ≤ n) :
    ∀ item ∈ more, (typeWithin (n + 1)).Accepts item.2.lexemes Grammar.continuesType :=
  match more with
  | [] => fun _ h => absurd h List.not_mem_nil
  | (_, t) :: more => List.forall_mem_cons.mpr ⟨accepts_typeUse t n (hn _ List.mem_cons_self),
      accepts_furtherTypes more n fun item h => hn item (List.mem_cons_of_mem _ h)⟩

end

theorem accepts_type (t : Grammar.TypeUse) : type.Accepts t.lexemes Grammar.continuesType := by
  intro us hus i p hi
  refine accepts_typeUse t i.left ?_ us hus i p hi
  rw [i.left_eq_length, hi, List.length_append, tokens, List.length_map]
  omega

theorem accepts_types (l : Listed Grammar.TypeUse) :
    types.Accepts (l.lexemes Grammar.TypeUse.lexemes) Grammar.continuesTypes :=
  Accepts.sepBy1 rfl (accepts_type l.first) fun item _ => accepts_type item.2

/-! ## Annotations and headers -/

theorem needs_argument : argument.Needs Grammar.startsArgument := by
  have hliteral : literal.Needs Grammar.startsArgument := by
    refine Needs.satisfy fun l hl => ?_
    split
    · rename_i value hvalue
      rw [hvalue] at hl
      cases hl
    · rename_i text htext
      rw [htext] at hl
      cases hl
    · rfl
  have hname : qualified.Needs Grammar.startsArgument := by
    refine needs_qualified.mono fun t ht => ?_
    cases t with
    | ident name => rfl
    | _ => cases ht
  exact (hliteral.orElse hname.bind).spanned.bind

theorem accepts_argument (a : Grammar.Argument) : argument.Accepts a.lexemes (isMark .dot) := by
  have hread : (literal <|> do let _ ← qualified; return ()).Accepts a.lexemes (isMark .dot) := by
    cases a with
    | string value span =>
      exact ((Accepts.satisfy fun l hl => ⟨(), by rw [hl]⟩).mono fun t ht => by cases ht).orElse_left
    | number text span =>
      exact ((Accepts.satisfy fun l hl => ⟨(), by rw [hl]⟩).mono fun t ht => by cases ht).orElse_left
    | name q =>
      refine Accepts.orElse_right (fun us => Refuses.satisfy fun l hl => ?_)
        ((accepts_qualified q).bind_nil fun _ => .pure _)
      have hl : Token.ident q.head.name = l.token := Option.some.inj hl
      rw [← hl]
  refine hread.spanned.bind_nil fun _ us _ i p hi => ?_
  exact ⟨_, i, p, rfl, hi, trivial⟩

theorem needs_annotationUse : annotationUse.Needs (isMark .atSign) :=
  (Needs.symbol .atSign).bind.spanned.bind

theorem accepts_arguments (args : Grammar.Arguments) :
    (between .leftParen .rightParen (sepBy argument (symbol .comma))).Accepts args.lexemes noToken :=
  (Accepts.sepBy needs_argument rfl accepts_argument args.args).between args.left args.right rfl

theorem accepts_annotationUse (a : Grammar.AnnotationUse) :
    annotationUse.Accepts a.lexemes Grammar.continuesAnnotation := by
  have hargs : (optional (between .leftParen .rightParen (sepBy argument (symbol .comma)))).Accepts
      (Grammar.optional Grammar.Arguments.lexemes a.args) (isMark .leftParen) :=
    Accepts.optional (Needs.between _ _) accepts_arguments a.args
  have hparts : (do
      symbol .atSign
      let name ← qualified
      let args ← optional (between .leftParen .rightParen (sepBy argument (symbol .comma)))
      return (name, args.getD [])).Accepts a.lexemes Grammar.continuesAnnotation := by
    refine (Accepts.symbol .atSign a.sign).cons fun _ => ?_
    refine (accepts_qualified a.name).bind (fun _ => ?_) fun us hus => ?_
    · exact (hargs.bind_nil fun _ => .pure _).mono (Grammar.class_of_isMark rfl)
    · exact (Grammar.starts_optional Grammar.begins_arguments a.args).avoids_append
        (Grammar.class_of_isMark rfl) (hus.mark rfl)
  exact hparts.spanned.bind_nil fun _ => .pure _

theorem needs_doc : doc.Needs Grammar.isDoc := by
  refine Needs.satisfy fun l hl => ?_
  split
  · rename_i text htext
    rw [htext] at hl
    cases hl
  · rfl

theorem accepts_doc (d : Option Grammar.Doc) :
    (optional doc).Accepts (Grammar.optional (fun d => [d.lexeme]) d) Grammar.isDoc :=
  Accepts.optional needs_doc (fun d => Accepts.satisfy fun l hl => ⟨d.text, by rw [hl]; rfl⟩) d

theorem accepts_header (h : Grammar.Header) :
    header.Accepts h.lexemes Grammar.continuesHeader := by
  have hannotations : (many annotationUse).Accepts (h.annotations.flatMap (·.lexemes))
      fun t => Grammar.continuesAnnotation t || isMark .atSign t :=
    Accepts.many Grammar.begins_annotationUse (Grammar.class_of_isMark rfl)
      needs_annotationUse fun a _ => accepts_annotationUse a
  refine (accepts_doc h.doc).bind (fun _ => ?_) fun us hus => ?_
  · refine (hannotations.bind_nil fun _ => .pure _).mono fun t ht => ?_
    rw [Grammar.continuesHeader]
    rcases Bool.or_eq_true _ _ ▸ ht with h | h
    · rw [h, Bool.true_or]
    · rw [Grammar.eq_of_isMark h]
      rfl
  · exact (Grammar.starts_flatMap Grammar.begins_annotationUse h.annotations).avoids_append
      (Grammar.class_of_isMark rfl) (hus.mono Grammar.isDoc_continuesHeader)

/-- A header that is not there. -/
theorem reads_noHeader (hus : Avoids Grammar.startsHeader us) :
    header.Reads [] (tokens us) fun _ => True := by
  have hdoc : Avoids Grammar.isDoc us := hus.mono fun t ht => by
    cases t with
    | doc text => rfl
    | _ => cases ht
  refine (Reads.optional_none (needs_doc us hdoc)).bind_nil fun _ _ => ?_
  exact (Reads.many_none (needs_annotationUse us (hus.mark rfl))).bind_nil fun _ _ => .pure trivial

/-! ## Methods -/

theorem needs_param : param.Needs Grammar.startsType := needs_type.bind.spanned.bind

theorem accepts_param (p : Grammar.Param) : param.Accepts p.lexemes noToken := by
  refine Accepts.bind_nil (Accepts.spanned ?_) fun _ => .pure _
  exact (accepts_type p.type).bind (fun _ => (accepts_ident p.name).bind_nil fun _ => .pure _)
    fun us _ => Grammar.avoids_cons us rfl

theorem needs_method : method.Needs fun t => Grammar.startsHeader t || Grammar.startsType t := by
  intro us hus
  obtain ⟨hheader, htype⟩ := Grammar.avoids_or.mp hus
  refine (Refuses.spanned ?_).bind
  exact Refuses.bind_of_reads (reads_noHeader hheader) fun _ _ => (needs_type us htype).bind

theorem accepts_method (m : Grammar.Method) : method.Accepts m.lexemes noToken := by
  have hparams : (between .leftParen .rightParen (sepBy param (symbol .comma))).Accepts _ noToken :=
    (Accepts.sepBy needs_param rfl accepts_param m.params).between m.left m.right rfl
  -- a header ends in front of a type, and a type in front of the name
  have hparts : (do
      let above ← header
      let returnType ← type
      let name ← ident
      let params ← between .leftParen .rightParen (sepBy param (symbol .comma))
      symbol .semi
      return (above.1, above.2, returnType, name, params)).Accepts
        (m.header.lexemes ++ (m.returnType.lexemes ++ m.name.lexeme ::
          ((mark .leftParen m.left :: (Grammar.optional (Listed.lexemes Grammar.Param.lexemes)
            m.params ++ [mark .rightParen m.right])) ++ [mark .semi m.semi]))) noToken := by
    refine (accepts_header m.header).bind (fun _ => ?_) fun us _ => ?_
    · refine (accepts_type m.returnType).bind (fun _ => ?_) fun us _ => Grammar.avoids_cons _ rfl
      refine (accepts_ident m.name).cons fun _ => hparams.bind (fun _ => ?_) fun _ _ => avoids_noToken
      exact (Accepts.symbol .semi m.semi).bind_nil fun _ => .pure _
    · rw [List.append_assoc]
      exact Grammar.avoids_typeUse _ _
  have hall := hparts.spanned.bind_nil fun r => Accepts.pure (α := Method)
    ⟨r.1.2.2.2.1, r.1.1, r.1.2.1, r.1.2.2.1, r.1.2.2.2.2, r.2⟩
  simp only [List.cons_append, List.append_assoc] at hall
  rw [Grammar.Method.lexemes]
  simp only [List.append_assoc]
  exact hall

/-! ## Declarations -/

theorem needs_kind : kind.Needs Grammar.startsHead := by
  refine Needs.satisfy fun l hl => ?_
  split
  · rename_i hword
    rw [hword] at hl
    cases hl
  · rename_i hword
    rw [hword] at hl
    cases hl
  · rename_i hword
    rw [hword] at hl
    cases hl
  · rfl

theorem accepts_kind (k : DeclKind) (span : Span) :
    kind.Accepts [word (Grammar.kindWord k) span] noToken := by
  refine Accepts.satisfy fun l hl => ⟨k, ?_⟩
  rw [hl]
  cases k <;> rfl

theorem accepts_clause (k : Keyword) (c : Option Grammar.Clause) :
    (clause k).Accepts (Grammar.optional (Grammar.Clause.lexemes k) c)
      fun t => Grammar.continuesTypes t || isWord k t := by
  have hclause := Accepts.optional (x := do keyword k; types) (Needs.keyword k).bind
    (fun c : Grammar.Clause => (Accepts.keyword k c.word).cons fun _ => accepts_types c.types) c
  exact hclause.bind_nil fun _ => .pure _

/-- Behind its header a declaration has to go on with one of its words. -/
theorem refuses_declWithin {ts : List Token} (h : header.Reads ts (tokens us) fun _ => True)
    (hus : Avoids Grammar.startsHead us) (n : Nat) : (declWithin n).Refuses (ts ++ tokens us) := by
  cases n with
  | zero => exact fun i p _ => ⟨p, rfl⟩
  | succ n =>
    have habstract : (keyword .abstract_).Refuses (tokens us) :=
      Needs.keyword .abstract_ us (hus.mono fun t ht => by rw [Grammar.eq_of_isWord ht]; rfl)
    refine (Refuses.spanned (Refuses.bind_of_reads h fun _ _ => ?_)).bind
    exact Refuses.bind_of_reads (Reads.optional_none habstract) fun _ _ => (needs_kind us hus).bind

/-- A member of a declaration whose own members nest less than `n` deep. -/
def memberWithin (n : Nat) : Parser Member :=
  (do let d ← declWithin n; return d.toMember) <|> do let m ← method; return .method m

theorem needs_declWithin (n : Nat) : (declWithin n).Needs Grammar.startsDecl := by
  intro us hus
  obtain ⟨hheader, hhead⟩ := Grammar.avoids_or.mp hus
  exact refuses_declWithin (reads_noHeader hheader) hhead n

theorem needs_memberWithin (n : Nat) : (memberWithin n).Needs Grammar.startsMember := by
  refine ((needs_declWithin n).bind.mono fun t ht => ?_).orElse (needs_method.bind.mono fun t ht => ?_)
  · rw [Grammar.startsMember, ht, Bool.true_or]
  · rw [Grammar.startsMember, Grammar.startsDecl]
    rcases Bool.or_eq_true _ _ ▸ ht with h | h
    · rw [h, Bool.true_or, Bool.true_or]
    · rw [h, Bool.or_true]

theorem accepts_body {member : Parser Member} (hneeds : member.Needs Grammar.startsMember)
    {ms : List Grammar.Member} (hmembers : ∀ m ∈ ms, member.Accepts m.lexemes noToken)
    (left right : Span) :
    (body member).Accepts (Grammar.Body.braces left ms right).lexemes noToken := by
  rw [Grammar.Body.lexemes, Grammar.allLexemes_eq]
  have hmany := Accepts.many Grammar.begins_member (fun _ _ => rfl) hneeds hmembers
  exact (hmany.between left right rfl).orElse_left

theorem accepts_semicolon (member : Parser Member) (semi : Span) :
    (body member).Accepts (Grammar.Body.semicolon semi).lexemes noToken := by
  rw [Grammar.Body.lexemes]
  refine Accepts.orElse_needs (Needs.between _ _) (fun us => Grammar.avoids_cons us rfl) ?_
  exact (Accepts.symbol .semi semi).bind_nil fun _ => .pure _

theorem accepts_declWithin (h : Grammar.Head) (b : Grammar.Body) {n : Nat}
    (hbody : (body (memberWithin n)).Accepts b.lexemes noToken) :
    (declWithin (n + 1)).Accepts (h.lexemes ++ b.lexemes) noToken := by
  have habstract : (optional (keyword .abstract_)).Accepts
      (Grammar.optional (fun span => [word .abstract_ span]) h.abstractWord) (isWord .abstract_) :=
    Accepts.optional (Needs.keyword .abstract_) (Accepts.keyword .abstract_) h.abstractWord
  -- each part ends in front of whatever the next one begins with, also where an optional one is
  -- absent
  have hparts : (do
      let above ← header
      let isAbstract ← optional (keyword .abstract_)
      let kind ← kind
      let name ← ident
      let extended ← clause .extends_
      let implemented ← clause .implements_
      let members ← body (memberWithin n)
      return (DeclHead.mk kind name above.1 above.2 isAbstract.isSome extended implemented, members)).Accepts
        (h.header.lexemes ++ (Grammar.optional (fun span => [word .abstract_ span]) h.abstractWord ++
          (word (Grammar.kindWord h.kind) h.kindSpan :: h.name.lexeme ::
            (Grammar.optional (Grammar.Clause.lexemes .extends_) h.extended ++
              (Grammar.optional (Grammar.Clause.lexemes .implements_) h.implemented ++ b.lexemes)))))
        noToken := by
    refine (accepts_header h.header).bind (fun _ => ?_) fun us _ => ?_
    · refine habstract.bind (fun _ => ?_) fun us _ => ?_
      · refine (accepts_kind h.kind h.kindSpan).cons fun _ => (accepts_ident h.name).cons fun _ => ?_
        refine (accepts_clause .extends_ h.extended).bind (fun _ => ?_) fun us _ => ?_
        · refine (accepts_clause .implements_ h.implemented).bind (fun _ => ?_) fun us _ => ?_
          · exact hbody.bind_nil fun _ => .pure _
          · exact Grammar.avoids_implemented (Grammar.avoids_body b us)
        · rw [List.append_assoc]
          exact Grammar.avoids_clauses h.implemented (Grammar.avoids_body b us)
      · exact Grammar.avoids_cons _ (by cases h.kind <;> rfl)
    · rw [List.append_assoc]
      exact (Grammar.begins_kind _ _ _ _).avoids Grammar.startsHead_continuesHeader
  have hall := hparts.spanned.bind_nil fun r => Accepts.pure (α := Decl) ⟨r.1.1 r.2, r.1.2⟩
  rw [Grammar.Head.lexemes]
  simp only [List.cons_append, List.append_assoc]
  exact hall

theorem length_head_pos (h : Grammar.Head) : 0 < h.lexemes.length :=
  List.length_pos_of_ne_nil (Grammar.begins_head h).ne_nil

/-- A declaration, given how its body is read. -/
theorem accepts_decl_of_body {d : Grammar.Decl} {n : Nat} (hn : d.lexemes.length ≤ n)
    (hbody : ∀ k, d.body.lexemes.length ≤ k →
      (body (memberWithin k)).Accepts d.body.lexemes noToken) :
    (declWithin n).Accepts d.lexemes noToken := by
  have hhead := length_head_pos d.head
  rw [Grammar.Decl.lexemes, List.length_append] at hn
  obtain ⟨k, rfl⟩ : ∃ k, n = k + 1 := ⟨n - 1, by omega⟩
  exact accepts_declWithin d.head d.body (hbody k (by omega))

mutual

theorem accepts_bodyWithin (b : Grammar.Body) (n : Nat) (hn : b.lexemes.length ≤ n) :
    (body (memberWithin n)).Accepts b.lexemes noToken :=
  match b with
  | .semicolon semi => accepts_semicolon _ semi
  | .braces left members right => by
    refine accepts_body (needs_memberWithin n) (accepts_members members n ?_) left right
    rw [Grammar.Body.lexemes] at hn
    simp only [List.length_cons, List.length_append] at hn
    omega

theorem accepts_member (m : Grammar.Member) (n : Nat) (hn : m.lexemes.length ≤ n) :
    (memberWithin n).Accepts m.lexemes noToken :=
  match m with
  | .decl head b => by
    rw [Grammar.Member.lexemes] at hn ⊢
    have hdecl := accepts_decl_of_body (d := ⟨head, b⟩) hn (accepts_bodyWithin b)
    exact (hdecl.bind_nil fun _ => .pure _).orElse_left
  | .method m => by
    rw [Grammar.Member.lexemes]
    -- the first alternative gets behind the header, where the type of the method begins
    refine Accepts.orElse_right (fun us => Refuses.bind ?_) ((accepts_method m).bind_nil fun _ => .pure _)
    rw [Grammar.Method.lexemes, List.append_assoc, List.append_assoc, tokens_append]
    refine refuses_declWithin (accepts_header m.header _ (Grammar.avoids_typeUse _ _)) ?_ n
    exact ((Grammar.begins_typeUse _).append _).avoids Grammar.startsType_startsHead

theorem accepts_members (ms : List Grammar.Member) (n : Nat)
    (hn : (Grammar.Member.allLexemes ms).length ≤ n) :
    ∀ m ∈ ms, (memberWithin n).Accepts m.lexemes noToken :=
  match ms with
  | [] => fun _ h => absurd h List.not_mem_nil
  | m :: ms => by
    rw [Grammar.Member.allLexemes, List.length_append] at hn
    exact List.forall_mem_cons.mpr ⟨accepts_member m n (by omega), accepts_members ms n (by omega)⟩

end

theorem needs_decl : decl.Needs Grammar.startsDecl :=
  fun us hus i => needs_declWithin (i.left + 1) us hus i

theorem accepts_decl (d : Grammar.Decl) : decl.Accepts d.lexemes noToken := by
  intro us hus i p hi
  refine accepts_decl_of_body (n := i.left + 1) ?_ (accepts_bodyWithin d.body) us hus i p hi
  rw [i.left_eq_length, hi, List.length_append, tokens, List.length_map]
  omega

/-! ## Units -/

theorem needs_nameLine (k : Keyword) : (nameLine k).Needs (isWord k) := (Needs.keyword k).bind

theorem accepts_nameLine (k : Keyword) (l : Grammar.NameLine) :
    (nameLine k).Accepts (l.lexemes k) noToken := by
  refine (Accepts.keyword k l.word).cons fun _ => ?_
  refine (accepts_qualified l.name).bind (fun _ => ?_) fun us _ => Grammar.avoids_cons us rfl
  exact (Accepts.symbol .semi l.semi).bind_nil fun _ => .pure _

theorem accepts_package (package : Option Grammar.NameLine) : (optional (nameLine .package_)).Accepts
    (Grammar.optional (Grammar.NameLine.lexemes .package_) package) (isWord .package_) :=
  Accepts.optional (needs_nameLine .package_) (accepts_nameLine .package_) package

theorem accepts_imports (imports : List Grammar.NameLine) : (many (nameLine .import_)).Accepts
    (imports.flatMap (Grammar.NameLine.lexemes .import_)) (isWord .import_) :=
  Accepts.many (Grammar.begins_nameLine .import_) (fun _ _ => rfl) (needs_nameLine .import_)
    fun l _ => accepts_nameLine .import_ l

theorem accepts_decls (decls : List Grammar.Decl) :
    (many decl).Accepts (decls.flatMap (·.lexemes)) Grammar.startsDecl :=
  Accepts.many Grammar.begins_decl (fun _ _ => rfl) needs_decl fun d _ => accepts_decl d

/-- Every unit of the grammar is read to its end. -/
theorem reads_unit (d : Grammar.Source) : unit.Reads (tokens d.lexemes) [] fun _ => True := by
  have hpackage := accepts_package d.package _ (Grammar.avoids_imports d.imports d.decls)
  have himports := accepts_imports d.imports _ (Grammar.avoids_decls d.decls rfl)
  have hdecls := accepts_decls d.decls [] Grammar.avoids_nil
  rw [Grammar.Source.lexemes, List.append_assoc, tokens_append, tokens_append]
  rw [tokens_append, ← List.append_nil (tokens (d.decls.flatMap (·.lexemes))), ← List.append_assoc]
    at hpackage
  rw [← List.append_nil (tokens (d.decls.flatMap (·.lexemes)))] at himports
  have hparts := hpackage.bind fun package _ => himports.bind fun imports _ =>
    hdecls.bind_nil fun decls _ => Reads.endOfInput.bind_nil fun _ _ =>
      Reads.pure (a := (package, imports, decls)) (P := fun _ => True) trivial
  exact hparts.spanned.bind_nil fun _ _ => .pure trivial

end Parser

end ActorIdl.Syntax
