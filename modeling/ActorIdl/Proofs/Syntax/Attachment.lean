import ActorIdl.Token.DocComment
import ActorIdl.Proofs.Syntax.Unambiguous
/-! # Doc comments in the grammar are in place

    The grammar has doc comments in front of declarations and methods only, so the attachment of doc
    comments drops none of a derivation.  Declarations and methods follow each other: each begins
    behind a token that another one can begin behind, and ends with one. -/

namespace ActorIdl

namespace DocComment

variable {l : Lexeme} {ls : List Lexeme} {last : Option Token}

theorem attachAfter_of_not_doc (h : l.token.isDoc = false) (last : Option Token)
    (ls : List Lexeme) : attachAfter last (l :: ls) = l :: attachAfter (some l.token) ls := by
  rw [attachAfter, h]
  rfl

theorem attachAfter_of_misplaced (h : l.token.isDoc = true) (hlast : endsItem last = false)
    (ls : List Lexeme) : attachAfter last (l :: ls) = attachAfter last ls := by
  rw [attachAfter, h, hlast]
  rfl

theorem attachAfter_of_placed (hlast : endsItem last = true)
    (hnext : beginsHeader (ls.head?.map (·.token)) = true) :
    attachAfter last (l :: ls) = l :: attachAfter (some l.token) ls := by
  rw [attachAfter, hlast, hnext]
  simp

theorem not_isDoc_of_endsItem {t : Token} (h : endsItem (some t) = true) : t.isDoc = false := by
  cases t with
  | doc text => cases h
  | _ => rfl

end DocComment

namespace Syntax.Grammar

open DocComment

/-! ## What has no doc comments -/

/-- There are no doc comments. -/
def NoDoc (ls : List Lexeme) : Prop := ∀ l ∈ ls, l.token.isDoc = false

theorem noDoc_nil : NoDoc [] := fun _ hl => absurd hl List.not_mem_nil

theorem noDoc_cons {l : Lexeme} {ls : List Lexeme} :
    NoDoc (l :: ls) ↔ l.token.isDoc = false ∧ NoDoc ls := List.forall_mem_cons

/-- Neither a doc comment nor a token that a declaration or method can begin behind. -/
def IsInner (t : Token) : Prop := t.isDoc = false ∧ endsItem (some t) = false

@[simp] theorem isInner_mark {s : Symbol} {span : Span} :
    IsInner (mark s span).token ↔ endsItem (some (.symbol s)) = false :=
  ⟨And.right, fun h => ⟨rfl, h⟩⟩

@[simp] theorem isInner_word (k : Keyword) (span : Span) : IsInner (word k span).token := ⟨rfl, rfl⟩

@[simp] theorem isInner_ident (n : Ident) : IsInner n.lexeme.token := ⟨rfl, rfl⟩

@[simp] theorem isInner_segment (s : Segment) : IsInner s.lexeme.token := by
  cases s <;> exact ⟨rfl, rfl⟩

/-- The lexemes of a part of a declaration or method. -/
def Inner (ls : List Lexeme) : Prop := ∀ l ∈ ls, IsInner l.token

theorem Inner.noDoc {ls : List Lexeme} (h : Inner ls) : NoDoc ls := fun l hl => (h l hl).1

@[simp] theorem inner_nil : Inner [] := fun _ hl => absurd hl List.not_mem_nil

@[simp] theorem inner_cons {l : Lexeme} {ls : List Lexeme} :
    Inner (l :: ls) ↔ IsInner l.token ∧ Inner ls := List.forall_mem_cons

@[simp] theorem inner_append {ls ms : List Lexeme} : Inner (ls ++ ms) ↔ Inner ls ∧ Inner ms :=
  List.forall_mem_append

section
variable {α : Type} {lexemes : α → List Lexeme}

theorem inner_flatMap {as : List α} (h : ∀ a ∈ as, Inner (lexemes a)) :
    Inner (as.flatMap lexemes) := by
  intro l hl
  obtain ⟨a, ha, hl⟩ := List.mem_flatMap.mp hl
  exact h a ha l hl

theorem inner_optional (h : ∀ a, Inner (lexemes a)) (o : Option α) :
    Inner (optional lexemes o) := by
  cases o with
  | none => exact inner_nil
  | some a => exact h a

theorem inner_listed (h : ∀ a, Inner (lexemes a)) (l : Listed α) : Inner (l.lexemes lexemes) :=
  inner_append.mpr ⟨h _, inner_flatMap fun _ _ => inner_cons.mpr ⟨⟨rfl, rfl⟩, h _⟩⟩

end

@[simp] theorem inner_qualified (q : Qualified) : Inner q.lexemes :=
  inner_cons.mpr ⟨⟨rfl, rfl⟩, inner_flatMap fun _ _ => by simp [endsItem]⟩

@[simp] theorem inner_dims (d : Dims) : Inner d.lexemes := inner_flatMap fun _ _ => by simp [endsItem]

mutual

@[simp] theorem inner_typeUse (t : TypeUse) : Inner t.lexemes :=
  match t with
  | .mk name args dims => by simp [TypeUse.lexemes, inner_typeArgs args]

@[simp] theorem inner_typeArgs (a : TypeArgs) : Inner a.lexemes :=
  match a with
  | .absent => by simp [TypeArgs.lexemes]
  | .listed less first more greater => by
    simp [TypeArgs.lexemes, endsItem, inner_typeUse first, inner_furtherTypes more]

theorem inner_furtherTypes (more : List (Span × TypeUse)) : Inner (TypeUse.furtherLexemes more) :=
  match more with
  | [] => by simp [TypeUse.furtherLexemes]
  | (_, t) :: more => by
    simp [TypeUse.furtherLexemes, endsItem, inner_typeUse t, inner_furtherTypes more]

end

@[simp] theorem inner_argument (a : Argument) : Inner a.lexemes := by
  cases a with
  | string value span => exact inner_cons.mpr ⟨⟨rfl, rfl⟩, inner_nil⟩
  | number text span => exact inner_cons.mpr ⟨⟨rfl, rfl⟩, inner_nil⟩
  | name q => exact inner_qualified q

@[simp] theorem inner_arguments (a : Arguments) : Inner a.lexemes := by
  simp [Arguments.lexemes, endsItem, inner_optional (inner_listed inner_argument)]

@[simp] theorem inner_annotationUse (a : AnnotationUse) : Inner a.lexemes := by
  simp [AnnotationUse.lexemes, endsItem, inner_optional inner_arguments]

@[simp] theorem inner_param (p : Param) : Inner p.lexemes := by simp [Param.lexemes]

@[simp] theorem inner_clause (k : Keyword) (c : Clause) : Inner (c.lexemes k) := by
  simp [Clause.lexemes, inner_listed inner_typeUse]

/-! ## What declarations and methods begin with -/

/-- The lexemes of a method without its doc comment and its semicolon. -/
def Method.plain (m : Method) : List Lexeme :=
  m.header.annotations.flatMap (·.lexemes) ++ (m.returnType.lexemes ++ m.name.lexeme ::
    mark .leftParen m.left :: (optional (Listed.lexemes Param.lexemes) m.params ++
      [mark .rightParen m.right]))

/-- The lexemes of a declaration without its doc comment and its body. -/
def Head.plain (h : Head) : List Lexeme :=
  h.header.annotations.flatMap (·.lexemes) ++
    (optional (fun span => [word .abstract_ span]) h.abstractWord ++
      word (kindWord h.kind) h.kindSpan :: h.name.lexeme ::
        (optional (Clause.lexemes .extends_) h.extended ++
          optional (Clause.lexemes .implements_) h.implemented))

/-- The lexemes of an optional doc comment. -/
abbrev docLexemes (d : Option Doc) : List Lexeme := optional (fun d => [d.lexeme]) d

theorem Method.lexemes_eq (m : Method) :
    m.lexemes = docLexemes m.header.doc ++ (m.plain ++ [mark .semi m.semi]) := by
  simp [Method.lexemes, Header.lexemes, Method.plain]

theorem Head.lexemes_eq (h : Head) : h.lexemes = docLexemes h.header.doc ++ h.plain := by
  simp [Head.lexemes, Header.lexemes, Head.plain]

theorem Method.inner_plain (m : Method) : Inner m.plain := by
  simp [Method.plain, endsItem, inner_flatMap, inner_optional, inner_listed]

theorem Head.inner_plain (h : Head) : Inner h.plain := by
  simp [Head.plain, inner_flatMap, inner_optional]

/-- The first token of what has a header, doc comments apart. -/
def Header.first (h : Header) (next : Lexeme) : Lexeme :=
  match h.annotations with
  | [] => next
  | a :: _ => mark .atSign a.sign

/-- The first token of a type. -/
def TypeUse.first : TypeUse → Lexeme
  | .mk name _ _ => name.head.lexeme

/-- The first annotation or type token of a method. -/
def Method.first (m : Method) : Lexeme := m.header.first m.returnType.first

/-- The first annotation or keyword token of a declaration. -/
def Head.first (h : Head) : Lexeme :=
  h.header.first <|
    match h.abstractWord with
    | some span => word .abstract_ span
    | none => word (kindWord h.kind) h.kindSpan

theorem Header.head?_annotations (h : Header) {next : Lexeme} {ls : List Lexeme}
    (hls : ls.head? = some next) :
    (h.annotations.flatMap (·.lexemes) ++ ls).head? = some (h.first next) := by
  unfold Header.first
  split
  · rename_i hnil
    rw [hnil]
    exact hls
  · rename_i a as hcons
    rw [hcons]
    rfl

theorem TypeUse.head?_lexemes (t : TypeUse) (ls : List Lexeme) :
    (t.lexemes ++ ls).head? = some t.first := by
  cases t with
  | mk name args dims =>
    rw [TypeUse.lexemes]
    rfl

theorem Method.head?_plain (m : Method) : m.plain.head? = some m.first :=
  m.header.head?_annotations (m.returnType.head?_lexemes _)

theorem Head.head?_plain (h : Head) : h.plain.head? = some h.first := by
  refine h.header.head?_annotations ?_
  cases h.abstractWord <;> rfl

theorem Header.beginsHeader_first (h : Header) {next : Lexeme}
    (hnext : beginsHeader (some next.token) = true) :
    beginsHeader (some (h.first next).token) = true := by
  unfold Header.first
  split
  · exact hnext
  · rfl

theorem Method.beginsHeader_first (m : Method) : beginsHeader (some m.first.token) = true := by
  refine m.header.beginsHeader_first ?_
  cases m.returnType
  rfl

theorem Head.beginsHeader_first (h : Head) : beginsHeader (some h.first.token) = true := by
  refine h.header.beginsHeader_first ?_
  split
  · rfl
  · cases h.kind <;> rfl

/-! ## Declarations and methods one after the other -/

theorem NoDoc.attachAfter_append {ls : List Lexeme} (h : NoDoc ls) (last : Option Token)
    (ms : List Lexeme) :
    ∃ last', attachAfter last (ls ++ ms) = ls ++ attachAfter last' ms := by
  induction ls generalizing last with
  | nil => exact ⟨last, rfl⟩
  | cons l ls ih =>
    obtain ⟨hl, hls⟩ := noDoc_cons.mp h
    obtain ⟨last', hlast'⟩ := ih hls (some l.token)
    exact ⟨last', by rw [List.cons_append, attachAfter_of_not_doc hl, hlast', List.cons_append]⟩

/-- Where a declaration or method can begin, the lexemes are kept, and behind them another one can
    begin. -/
def Kept (ls : List Lexeme) : Prop :=
  ∀ last ms, endsItem last = true →
    ∃ last', endsItem last' = true ∧ attachAfter last (ls ++ ms) = ls ++ attachAfter last' ms

namespace Kept

theorem nil : Kept [] := fun last _ hlast => ⟨last, hlast, rfl⟩

theorem append {ls ms : List Lexeme} (hls : Kept ls) (hms : Kept ms) : Kept (ls ++ ms) := by
  intro last us hlast
  obtain ⟨last', hlast', hkept⟩ := hls last (ms ++ us) hlast
  obtain ⟨last'', hlast'', hkept'⟩ := hms last' us hlast'
  refine ⟨last'', hlast'', ?_⟩
  rw [List.append_assoc, hkept, hkept', List.append_assoc]

theorem flatMap {α : Type} {lexemes : α → List Lexeme} {as : List α}
    (h : ∀ a ∈ as, Kept (lexemes a)) : Kept (as.flatMap lexemes) := by
  induction as with
  | nil => exact nil
  | cons a as ih =>
    obtain ⟨ha, has⟩ := List.forall_mem_cons.mp h
    exact ha.append (ih has)

/-- Lexemes without doc comments up to one that another declaration or method can begin behind. -/
theorem of_noDoc {ls : List Lexeme} {l : Lexeme} (h : NoDoc ls)
    (hl : endsItem (some l.token) = true) : Kept (ls ++ [l]) := by
  intro last ms _
  obtain ⟨last', hlast'⟩ := h.attachAfter_append last (l :: ms)
  refine ⟨some l.token, hl, ?_⟩
  rw [List.append_assoc, List.singleton_append, hlast',
    attachAfter_of_not_doc (not_isDoc_of_endsItem hl), List.append_assoc, List.singleton_append]

/-- A doc comment in front of what can begin a declaration or method. -/
theorem doc {ls : List Lexeme} (d : Option Doc) (h : NoDoc ls) {l first : Lexeme}
    (hl : endsItem (some l.token) = true) (hls : ls.head? = some first)
    (hfirst : beginsHeader (some first.token) = true) : Kept (docLexemes d ++ (ls ++ [l])) := by
  cases d with
  | none => exact of_noDoc h hl
  | some d =>
    intro last ms hlast
    -- the comment is kept for what it stands in front of, where there is none to be dropped
    obtain ⟨behind, rfl⟩ := List.head?_eq_some_iff.mp hls
    obtain ⟨last', hlast'⟩ := h.attachAfter_append (some d.lexeme.token) (l :: ms)
    refine ⟨some l.token, hl, ?_⟩
    show attachAfter last (d.lexeme :: (first :: behind ++ [l] ++ ms)) =
      d.lexeme :: (first :: behind ++ [l] ++ _)
    have hnext : beginsHeader (((first :: behind ++ [l] ++ ms).head?).map (·.token)) = true := hfirst
    rw [attachAfter_of_placed hlast hnext, List.append_assoc, List.singleton_append, hlast',
      attachAfter_of_not_doc (not_isDoc_of_endsItem hl), List.append_assoc, List.singleton_append]

end Kept

theorem kept_method (m : Method) : Kept m.lexemes := by
  rw [m.lexemes_eq]
  exact Kept.doc _ m.inner_plain.noDoc rfl m.head?_plain m.beginsHeader_first

/-- A declaration up to the mark behind it. -/
theorem kept_head (h : Head) {s : Symbol} (hs : endsItem (some (.symbol s)) = true) (span : Span) :
    Kept (h.lexemes ++ [mark s span]) := by
  rw [h.lexemes_eq, List.append_assoc]
  exact Kept.doc _ h.inner_plain.noDoc hs h.head?_plain h.beginsHeader_first

mutual

theorem kept_member (m : Member) : Kept m.lexemes :=
  match m with
  | .decl head body => by
    rw [Member.lexemes]
    exact kept_body head body
  | .method m => by
    rw [Member.lexemes]
    exact kept_method m

/-- A declaration with its body. -/
theorem kept_body (head : Head) (b : Body) : Kept (head.lexemes ++ b.lexemes) :=
  match b with
  | .semicolon semi => by
    rw [Body.lexemes]
    exact kept_head head rfl semi
  | .braces left members right => by
    rw [Body.lexemes, List.append_cons]
    exact (kept_head head rfl left).append
      ((kept_members members).append (Kept.of_noDoc noDoc_nil rfl))

theorem kept_members (ms : List Member) : Kept (Member.allLexemes ms) :=
  match ms with
  | [] => by
    rw [Member.allLexemes]
    exact Kept.nil
  | m :: ms => by
    rw [Member.allLexemes]
    exact (kept_member m).append (kept_members ms)

end

theorem kept_nameLine (k : Keyword) (l : NameLine) : Kept (l.lexemes k) :=
  Kept.of_noDoc (noDoc_cons.mpr ⟨rfl, (inner_qualified l.name).noDoc⟩) rfl

/-- The attachment of doc comments drops nothing of a derivation. -/
theorem attach_lexemes (d : Source) : attach d.lexemes = d.lexemes := by
  have hkept : Kept d.lexemes := by
    refine Kept.append (Kept.append ?_ (Kept.flatMap fun l _ => kept_nameLine _ l))
      (Kept.flatMap fun d _ => kept_body d.head d.body)
    cases d.package with
    | none => exact Kept.nil
    | some l => exact kept_nameLine _ l
  obtain ⟨last, -, hattach⟩ := hkept none [] rfl
  rw [attachAfter, List.append_nil] at hattach
  exact hattach

end Syntax.Grammar

end ActorIdl
