import ActorIdl.Proofs.Syntax.Attachment
import ActorIdl.Proofs.Syntax.Likeness
import ActorIdl.Proofs.Syntax.Respelling
/-! # Derivations with other places and other docs

    A derivation stays one if its tokens are moved and the doc comments of its declarations and
    methods are replaced, added or taken away.  `relocate` does so for each part of the grammar, and
    `rewrite` does it for lexemes: it takes the doc comments out of them and puts a doc comment in
    front of a token where a declaration or method can begin.  Both agree, so the lexemes of the new
    derivation are known from the lexemes of the old one alone. -/

namespace ActorIdl.Syntax.Grammar

open DocComment

/-- The new place of each token, and the new doc comment of what begins with a token. -/
structure Relocation where
  place : Span → Span
  doc : Lexeme → Option Doc

namespace Relocation

/-- A lexeme in its new place. -/
def move (r : Relocation) (l : Lexeme) : Lexeme := ⟨l.token, r.place l.span⟩

/-- The lexemes with other places and other doc comments, `last` being the token in front of them
    that is not a doc comment. -/
def rewrite (r : Relocation) (last : Option Token) : List Lexeme → List Lexeme
  | [] => []
  | l :: ls =>
    if l.token.isDoc then r.rewrite last ls
    else
      (if endsItem last && beginsHeader (some l.token) then
        optional (fun d => [d.lexeme]) (r.doc l) else []) ++
      r.move l :: r.rewrite (some l.token) ls

end Relocation

/-! ## Names, types and annotations -/

section
variable (r : Relocation)

/-- A list with its commas and items moved. -/
def Listed.relocate {α : Type} (item : α → α) (l : Listed α) : Listed α :=
  ⟨item l.first, l.more.map fun x => (r.place x.1, item x.2)⟩

def Ident.relocate (x : Ident) : Ident := ⟨x.name, r.place x.span⟩

def Segment.relocate : Segment → Segment
  | ident x => .ident (x.relocate r)
  | keyword k span => .keyword k (r.place span)

def Qualified.relocate (q : Qualified) : Qualified :=
  ⟨q.head.relocate r, q.tail.map fun s => (r.place s.1, s.2.relocate r)⟩

def Dims.relocate (d : Dims) : Dims where
  brackets := d.brackets.map fun b => (r.place b.1, r.place b.2)
  few := by
    rw [List.length_map]
    exact d.few

mutual

def TypeUse.relocate : TypeUse → TypeUse
  | .mk name args dims => .mk (name.relocate r) args.relocate (dims.relocate r)

def TypeArgs.relocate : TypeArgs → TypeArgs
  | .absent => .absent
  | .listed less first more greater =>
    .listed (r.place less) first.relocate (TypeUse.relocateFurther more) (r.place greater)

def TypeUse.relocateFurther : List (Span × TypeUse) → List (Span × TypeUse)
  | [] => []
  | (comma, t) :: more => (r.place comma, t.relocate) :: TypeUse.relocateFurther more

end

def Argument.relocate : Argument → Argument
  | string value span => .string value (r.place span)
  | number text span => .number text (r.place span)
  | name q => .name (q.relocate r)

def Arguments.relocate (a : Arguments) : Arguments :=
  ⟨r.place a.left, a.args.map (Listed.relocate r (Argument.relocate r)), r.place a.right⟩

def AnnotationUse.relocate (a : AnnotationUse) : AnnotationUse :=
  ⟨r.place a.sign, a.name.relocate r, a.args.map (Arguments.relocate r)⟩

/-! ## Methods and declarations -/

/-- The header of what begins with a token. -/
def Header.relocate (first : Lexeme) (h : Header) : Header :=
  ⟨r.doc first, h.annotations.map (AnnotationUse.relocate r)⟩

def Param.relocate (p : Param) : Param := ⟨p.type.relocate r, p.name.relocate r⟩

def Clause.relocate (c : Clause) : Clause :=
  ⟨r.place c.word, c.types.relocate r (TypeUse.relocate r)⟩

def Method.relocate (m : Method) : Method where
  header := m.header.relocate r m.first
  returnType := m.returnType.relocate r
  name := m.name.relocate r
  left := r.place m.left
  params := m.params.map (Listed.relocate r (Param.relocate r))
  right := r.place m.right
  semi := r.place m.semi

def Head.relocate (h : Head) : Head where
  header := h.header.relocate r h.first
  abstractWord := h.abstractWord.map r.place
  kind := h.kind
  kindSpan := r.place h.kindSpan
  name := h.name.relocate r
  extended := h.extended.map (Clause.relocate r)
  implemented := h.implemented.map (Clause.relocate r)

mutual

def Body.relocate : Body → Body
  | .semicolon semi => .semicolon (r.place semi)
  | .braces left members right =>
    .braces (r.place left) (Member.relocateAll members) (r.place right)

def Member.relocate : Member → Member
  | .decl head body => .decl (head.relocate r) body.relocate
  | .method m => .method (m.relocate r)

def Member.relocateAll : List Member → List Member
  | [] => []
  | m :: ms => m.relocate :: Member.relocateAll ms

end

def Decl.relocate (d : Decl) : Decl := ⟨d.head.relocate r, d.body.relocate r⟩

def NameLine.relocate (l : NameLine) : NameLine :=
  ⟨r.place l.word, l.name.relocate r, r.place l.semi⟩

def Source.relocate (u : Source) : Source where
  package := u.package.map (NameLine.relocate r)
  imports := u.imports.map (NameLine.relocate r)
  decls := u.decls.map (Decl.relocate r)

end

/-! ## Parts without doc comments -/

section
variable {r : Relocation} {α : Type} {lexemes : α → List Lexeme} {f : α → α}

@[simp] theorem move_mark (s : Symbol) (span : Span) :
    r.move (mark s span) = mark s (r.place span) := rfl

@[simp] theorem move_word (k : Keyword) (span : Span) :
    r.move (word k span) = word k (r.place span) := rfl

@[simp] theorem move_ident (x : Ident) : r.move x.lexeme = (x.relocate r).lexeme := rfl

@[simp] theorem move_segment (s : Segment) : r.move s.lexeme = (s.relocate r).lexeme := by
  cases s <;> rfl

theorem map_move_flatMap (h : ∀ a, (lexemes a).map r.move = lexemes (f a)) (as : List α) :
    (as.flatMap lexemes).map r.move = (as.map f).flatMap lexemes := by
  rw [List.map_flatMap, List.flatMap_map]
  exact congrArg as.flatMap (funext h)

theorem map_move_optional (h : ∀ a, (lexemes a).map r.move = lexemes (f a)) (o : Option α) :
    (optional lexemes o).map r.move = optional lexemes (o.map f) := by
  cases o with
  | none => rfl
  | some a => exact h a

theorem map_move_listed (h : ∀ a, (lexemes a).map r.move = lexemes (f a)) (l : Listed α) :
    (l.lexemes lexemes).map r.move = (l.relocate r f).lexemes lexemes := by
  rw [Listed.lexemes, Listed.lexemes, List.map_append, h]
  exact congrArg _ (map_move_flatMap (fun x => by simp [h]) l.more)

@[simp] theorem map_move_qualified (q : Qualified) :
    q.lexemes.map r.move = (q.relocate r).lexemes :=
  congrArg _ (map_move_flatMap (fun s => by simp) q.tail)

@[simp] theorem map_move_dims (d : Dims) : d.lexemes.map r.move = (d.relocate r).lexemes :=
  map_move_flatMap (fun b => by simp) d.brackets

mutual

@[simp] theorem map_move_typeUse (t : TypeUse) : t.lexemes.map r.move = (t.relocate r).lexemes :=
  match t with
  | .mk name args dims => by
    simp [TypeUse.relocate, TypeUse.lexemes, map_move_typeArgs args]

@[simp] theorem map_move_typeArgs (a : TypeArgs) : a.lexemes.map r.move = (a.relocate r).lexemes :=
  match a with
  | .absent => by simp [TypeArgs.relocate, TypeArgs.lexemes]
  | .listed less first more greater => by
    simp [TypeArgs.relocate, TypeArgs.lexemes, map_move_typeUse first, map_move_furtherTypes more]

theorem map_move_furtherTypes (more : List (Span × TypeUse)) :
    (TypeUse.furtherLexemes more).map r.move =
      TypeUse.furtherLexemes (TypeUse.relocateFurther r more) :=
  match more with
  | [] => by simp [TypeUse.relocateFurther, TypeUse.furtherLexemes]
  | (_, t) :: more => by
    simp [TypeUse.relocateFurther, TypeUse.furtherLexemes, map_move_typeUse t,
      map_move_furtherTypes more]

end

@[simp] theorem map_move_argument (a : Argument) :
    a.lexemes.map r.move = (a.relocate r).lexemes := by
  cases a with
  | string value span => rfl
  | number text span => rfl
  | name q => exact map_move_qualified q

@[simp] theorem map_move_arguments (a : Arguments) :
    a.lexemes.map r.move = (a.relocate r).lexemes := by
  simp [Arguments.lexemes, Arguments.relocate, map_move_optional (map_move_listed map_move_argument)]

@[simp] theorem map_move_annotationUse (a : AnnotationUse) :
    a.lexemes.map r.move = (a.relocate r).lexemes := by
  simp [AnnotationUse.lexemes, AnnotationUse.relocate, map_move_optional map_move_arguments]

@[simp] theorem map_move_param (p : Param) : p.lexemes.map r.move = (p.relocate r).lexemes := by
  simp [Param.lexemes, Param.relocate]

@[simp] theorem map_move_clause (k : Keyword) (c : Clause) :
    (c.lexemes k).map r.move = (c.relocate r).lexemes k := by
  simp [Clause.lexemes, Clause.relocate, map_move_listed map_move_typeUse]

theorem Method.map_move_plain (m : Method) : m.plain.map r.move = (m.relocate r).plain := by
  simp [Method.plain, Method.relocate, Header.relocate, map_move_flatMap map_move_annotationUse,
    map_move_optional (map_move_listed map_move_param)]

theorem Head.map_move_plain (h : Head) : h.plain.map r.move = (h.relocate r).plain := by
  simp [Head.plain, Head.relocate, Header.relocate, map_move_flatMap map_move_annotationUse,
    map_move_optional (map_move_clause _), map_move_optional (f := r.place)]

end

variable {r : Relocation}

/-! ## Rewriting what is put together -/

namespace Relocation

variable {last : Option Token} {l : Lexeme}

theorem rewrite_of_doc (h : l.token.isDoc = true) (last : Option Token) (ls : List Lexeme) :
    r.rewrite last (l :: ls) = r.rewrite last ls := by rw [rewrite, if_pos h]

theorem rewrite_of_plain (h : l.token.isDoc = false)
    (hplace : (DocComment.endsItem last && beginsHeader (some l.token)) = false)
    (ls : List Lexeme) : r.rewrite last (l :: ls) = r.move l :: r.rewrite (some l.token) ls := by
  rw [rewrite, if_neg (by simp [h]), hplace]
  rfl

theorem rewrite_of_first (h : l.token.isDoc = false) (hlast : DocComment.endsItem last = true)
    (hfirst : beginsHeader (some l.token) = true) (ls : List Lexeme) :
    r.rewrite last (l :: ls) = docLexemes (r.doc l) ++ r.move l :: r.rewrite (some l.token) ls := by
  rw [rewrite, if_neg (by simp [h]), hlast, hfirst]
  rfl

/-- The rewriting does not look at doc comments. -/
theorem rewrite_filter (last : Option Token) (ls : List Lexeme) :
    r.rewrite last (ls.filter fun l => !l.token.isDoc) = r.rewrite last ls := by
  induction ls generalizing last with
  | nil => rfl
  | cons l ls ih =>
    cases hdoc : l.token.isDoc with
    | true => rw [List.filter_cons_of_neg (by simp [hdoc]), rewrite_of_doc hdoc, ih]
    | false => simp only [List.filter_cons_of_pos, hdoc, rewrite, ih, Bool.not_false]

/-- Where there are no doc comments and none are put, the lexemes are moved. -/
theorem rewrite_of_noDoc {ls : List Lexeme} (hls : NoDoc ls) (hdoc : ∀ l, r.doc l = none)
    (last : Option Token) : r.rewrite last ls = ls.map r.move := by
  induction ls generalizing last with
  | nil => rfl
  | cons l ls ih =>
    obtain ⟨hl, hls⟩ := noDoc_cons.mp hls
    rw [rewrite, if_neg (by simp [hl]), hdoc, ih hls, optional, ite_self]
    rfl

end Relocation

/-- The lexemes of a part of a declaration or method are moved. -/
theorem Inner.rewrite_append {ls : List Lexeme} (h : Inner ls) {last : Option Token}
    (hlast : endsItem last = false) (ms : List Lexeme) :
    ∃ last', endsItem last' = false ∧
      r.rewrite last (ls ++ ms) = ls.map r.move ++ r.rewrite last' ms := by
  induction ls generalizing last with
  | nil => exact ⟨last, hlast, rfl⟩
  | cons l ls ih =>
    obtain ⟨⟨hl, hends⟩, hls⟩ := inner_cons.mp h
    obtain ⟨last', hlast', hrest⟩ := ih hls hends
    refine ⟨last', hlast', ?_⟩
    rw [List.cons_append, Relocation.rewrite_of_plain hl (by rw [hlast]; rfl), hrest]
    rfl

/-- So are they up to a mark behind which a declaration or method can begin. -/
theorem Inner.rewrite_mark {ls : List Lexeme} (h : Inner ls) {last : Option Token}
    (hlast : endsItem last = false) (s : Symbol) (span : Span) (ms : List Lexeme) :
    r.rewrite last (ls ++ mark s span :: ms) =
      ls.map r.move ++ mark s (r.place span) :: r.rewrite (some (.symbol s)) ms := by
  obtain ⟨last', hlast', heq⟩ := h.rewrite_append hlast (mark s span :: ms)
  rw [heq, Relocation.rewrite_of_plain rfl (by rw [hlast']; rfl)]
  rfl

/-- Where a declaration or method can begin, the lexemes are rewritten to those, and behind them
    another one can begin. -/
def Rewrites (r : Relocation) (ls ls' : List Lexeme) : Prop :=
  ∀ last ms, endsItem last = true → ∃ last', endsItem last' = true ∧
    r.rewrite last (ls ++ ms) = ls' ++ r.rewrite last' ms

namespace Rewrites

variable {ls ls' ms ms' : List Lexeme} {l : Lexeme} {s : Symbol}

theorem nil : Rewrites r [] [] := fun last _ hlast => ⟨last, hlast, rfl⟩

theorem append (h : Rewrites r ls ls') (h' : Rewrites r ms ms') :
    Rewrites r (ls ++ ms) (ls' ++ ms') := by
  intro last us hlast
  obtain ⟨last', hlast', heq⟩ := h last (ms ++ us) hlast
  obtain ⟨last'', hlast'', heq'⟩ := h' last' us hlast'
  refine ⟨last'', hlast'', ?_⟩
  rw [List.append_assoc, heq, heq', List.append_assoc]

theorem flatMap {α : Type} {lexemes : α → List Lexeme} {f : α → α} {as : List α}
    (h : ∀ a ∈ as, Rewrites r (lexemes a) (lexemes (f a))) :
    Rewrites r (as.flatMap lexemes) ((as.map f).flatMap lexemes) := by
  induction as with
  | nil => exact nil
  | cons a as ih =>
    obtain ⟨ha, has⟩ := List.forall_mem_cons.mp h
    exact ha.append (ih has)

/-- A mark behind which a declaration or method can begin. -/
theorem mark (hs : endsItem (some (.symbol s)) = true) (span : Span) :
    Rewrites r [Grammar.mark s span] [Grammar.mark s (r.place span)] := by
  intro last ms _
  refine ⟨some (.symbol s), hs, ?_⟩
  have hfirst : beginsHeader (some (Grammar.mark s span).token) = false := by
    cases s <;> first | rfl | cases hs
  exact Relocation.rewrite_of_plain rfl (by rw [hfirst, Bool.and_false]) ms

/-- A line that nothing documented begins with. -/
theorem line (h : Inner (l :: ls)) (hfirst : beginsHeader (some l.token) = false)
    (hs : endsItem (some (.symbol s)) = true) (span : Span) :
    Rewrites r (l :: (ls ++ [Grammar.mark s span]))
      ((l :: ls).map r.move ++ [Grammar.mark s (r.place span)]) := by
  intro last ms _
  refine ⟨some (.symbol s), hs, ?_⟩
  obtain ⟨⟨hl, hends⟩, hls⟩ := inner_cons.mp h
  rw [List.cons_append, Relocation.rewrite_of_plain hl (by rw [hfirst, Bool.and_false]),
    List.append_assoc, List.singleton_append, hls.rewrite_mark hends]
  simp

/-- A declaration or method up to a mark, with what stands in front of its first token for a doc
    comment. -/
theorem item (h : Inner ls) (hl : ls.head? = some l)
    (hfirst : beginsHeader (some l.token) = true) (hs : endsItem (some (.symbol s)) = true)
    (d : Option Doc) (span : Span) :
    Rewrites r (docLexemes d ++ (ls ++ [Grammar.mark s span]))
      (docLexemes (r.doc l) ++ (ls.map r.move ++ [Grammar.mark s (r.place span)])) := by
  intro last ms hlast
  refine ⟨some (.symbol s), hs, ?_⟩
  obtain ⟨ls, rfl⟩ := List.head?_eq_some_iff.mp hl
  obtain ⟨⟨hl, hends⟩, hls⟩ := inner_cons.mp h
  -- the old doc comment is not looked at
  have hold : ∀ us, r.rewrite last (docLexemes d ++ us) = r.rewrite last us := by
    intro us
    cases d with
    | none => rfl
    | some d => exact Relocation.rewrite_of_doc rfl last us
  rw [List.append_assoc, hold, List.append_assoc, List.cons_append, List.singleton_append,
    Relocation.rewrite_of_first hl hlast hfirst, hls.rewrite_mark hends]
  simp

end Rewrites

theorem rewrites_method (m : Method) : Rewrites r m.lexemes (m.relocate r).lexemes := by
  rw [Method.lexemes_eq, Method.lexemes_eq, ← m.map_move_plain]
  exact Rewrites.item m.inner_plain m.head?_plain m.beginsHeader_first rfl _ _

/-- A declaration up to the mark behind it. -/
theorem rewrites_head (h : Head) {s : Symbol} (hs : endsItem (some (.symbol s)) = true)
    (span : Span) :
    Rewrites r (h.lexemes ++ [mark s span]) ((h.relocate r).lexemes ++ [mark s (r.place span)]) := by
  rw [Head.lexemes_eq, Head.lexemes_eq, List.append_assoc, List.append_assoc, ← h.map_move_plain]
  exact Rewrites.item h.inner_plain h.head?_plain h.beginsHeader_first hs _ _

mutual

theorem rewrites_member (m : Member) : Rewrites r m.lexemes (m.relocate r).lexemes :=
  match m with
  | .decl head body => by
    rw [Member.relocate, Member.lexemes, Member.lexemes]
    exact rewrites_body head body
  | .method m => by
    rw [Member.relocate, Member.lexemes, Member.lexemes]
    exact rewrites_method m

/-- A declaration with its body. -/
theorem rewrites_body (head : Head) (b : Body) :
    Rewrites r (head.lexemes ++ b.lexemes) ((head.relocate r).lexemes ++ (b.relocate r).lexemes) :=
  match b with
  | .semicolon semi => by
    rw [Body.relocate, Body.lexemes, Body.lexemes]
    exact rewrites_head head rfl semi
  | .braces left members right => by
    rw [Body.relocate, Body.lexemes, Body.lexemes, List.append_cons head.lexemes,
      List.append_cons (head.relocate r).lexemes]
    exact (rewrites_head head (s := .leftBrace) rfl left).append
      ((rewrites_members members).append (Rewrites.mark (s := .rightBrace) rfl right))

theorem rewrites_members (ms : List Member) :
    Rewrites r (Member.allLexemes ms) (Member.allLexemes (Member.relocateAll r ms)) :=
  match ms with
  | [] => by
    rw [Member.relocateAll, Member.allLexemes]
    exact Rewrites.nil
  | m :: ms => by
    rw [Member.relocateAll, Member.allLexemes, Member.allLexemes]
    exact (rewrites_member m).append (rewrites_members ms)

end

theorem rewrites_nameLine {k : Keyword} (hk : beginsHeader (some (.keyword k)) = false)
    (l : NameLine) : Rewrites r (l.lexemes k) ((l.relocate r).lexemes k) := by
  have hline : (l.relocate r).lexemes k =
      (word k l.word :: l.name.lexemes).map r.move ++ [mark .semi (r.place l.semi)] := by
    rw [List.map_cons, map_move_qualified]
    rfl
  rw [hline]
  exact Rewrites.line (by simp) hk rfl l.semi

/-- The lexemes of the new derivation. -/
theorem lexemes_relocate (u : Source) : (u.relocate r).lexemes = r.rewrite none u.lexemes := by
  have hall : Rewrites r u.lexemes (u.relocate r).lexemes := by
    refine Rewrites.append (Rewrites.append ?_ (Rewrites.flatMap fun l _ => rewrites_nameLine rfl l))
      (Rewrites.flatMap fun d _ => rewrites_body d.head d.body)
    rw [Source.relocate]
    cases u.package with
    | none => exact Rewrites.nil
    | some l => exact rewrites_nameLine rfl l
  obtain ⟨last, -, heq⟩ := hall none [] rfl
  rw [List.append_nil, Relocation.rewrite, List.append_nil] at heq
  exact heq.symm

end ActorIdl.Syntax.Grammar
