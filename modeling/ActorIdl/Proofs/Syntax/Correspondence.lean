import ActorIdl.Proofs.Syntax.Relocation
/-! # The trees of a derivation and of its relocation

    If the moved tokens are spelled in another source as they are in the first one, the tree of a
    derivation and the tree of the relocated derivation are alike: their names are the same, and
    what the spans, arguments and doc comments of the second one are is known from the relocation.

    An opening is how a declaration or method begins: its doc comment and its first token. -/

namespace ActorIdl.Syntax.Grammar

/-! ## Openings -/

/-- The doc comment of a declaration or method and the first of its other tokens. -/
structure Opening where
  doc : Option Doc
  first : Lexeme

namespace Opening

/-- The text of the doc comment. -/
def docText (o : Opening) : Option String := o.doc.map (·.text)

/-- Where the declaration or method begins. -/
def start (o : Opening) : Nat := (o.doc.map (·.span.start)).getD o.first.span.start

/-- The opening with another place and another doc comment. -/
def relocate (r : Relocation) (o : Opening) : Opening := ⟨r.doc o.first, r.move o.first⟩

end Opening

/-- How a method begins. -/
def Method.opening (m : Method) : Opening := ⟨m.header.doc, m.first⟩

/-- How a declaration begins. -/
def Head.opening (h : Head) : Opening := ⟨h.header.doc, h.first⟩

mutual

/-- The openings in the body of a declaration. -/
def Body.openings : Body → List Opening
  | .semicolon _ => []
  | .braces _ members _ => Member.allOpenings members

/-- The openings in a member. -/
def Member.openings : Member → List Opening
  | .decl head body => head.opening :: body.openings
  | .method m => [m.opening]

/-- The openings in members. -/
def Member.allOpenings : List Member → List Opening
  | [] => []
  | m :: ms => m.openings ++ Member.allOpenings ms

end

/-- The openings in a unit, in source order. -/
def Source.openings (u : Source) : List Opening :=
  u.decls.flatMap fun d => d.head.opening :: d.body.openings

variable {r : Relocation}

theorem Header.first_relocate (h : Header) (first next : Lexeme) :
    (h.relocate r first).first (r.move next) = r.move (h.first next) := by
  obtain ⟨doc, annotations⟩ := h
  cases annotations <;> rfl

theorem Method.opening_relocate (m : Method) : (m.relocate r).opening = m.opening.relocate r := by
  have hfirst : (m.relocate r).returnType.first = r.move m.returnType.first := by
    change (m.returnType.relocate r).first = _
    cases m.returnType
    rw [TypeUse.relocate]
    rfl
  refine congrArg (Opening.mk _) ?_
  rw [Method.first, hfirst]
  exact m.header.first_relocate _ _

theorem Head.opening_relocate (h : Head) : (h.relocate r).opening = h.opening.relocate r := by
  refine congrArg (Opening.mk _) ?_
  obtain ⟨header, _ | span, kind, kindSpan⟩ := h
  · exact header.first_relocate _ (word (kindWord kind) kindSpan)
  · exact header.first_relocate _ (word .abstract_ span)

mutual

theorem Body.openings_relocate (b : Body) :
    (b.relocate r).openings = b.openings.map (Opening.relocate r) :=
  match b with
  | .semicolon semi => by
    rw [Body.relocate, Body.openings, Body.openings]
    rfl
  | .braces left members right => by
    rw [Body.relocate, Body.openings, Body.openings, Member.allOpenings_relocate members]

theorem Member.openings_relocate (m : Member) :
    (m.relocate r).openings = m.openings.map (Opening.relocate r) :=
  match m with
  | .decl head body => by
    rw [Member.relocate, Member.openings, Member.openings, Body.openings_relocate body,
      head.opening_relocate, List.map_cons]
  | .method m => by
    rw [Member.relocate, Member.openings, Member.openings, m.opening_relocate, List.map_singleton]

theorem Member.allOpenings_relocate (ms : List Member) :
    Member.allOpenings (Member.relocateAll r ms) = (Member.allOpenings ms).map (Opening.relocate r) :=
  match ms with
  | [] => by
    rw [Member.relocateAll, Member.allOpenings]
    rfl
  | m :: ms => by
    rw [Member.relocateAll, Member.allOpenings, Member.allOpenings, Member.openings_relocate m,
      Member.allOpenings_relocate ms, List.map_append]

end

theorem Source.openings_relocate (u : Source) :
    (u.relocate r).openings = u.openings.map (Opening.relocate r) := by
  rw [Source.openings, Source.openings, Source.relocate, List.flatMap_map, List.map_flatMap]
  refine List.flatMap_congr fun d _ => ?_
  rw [List.map_cons, ← d.head.opening_relocate, ← d.body.openings_relocate]
  rfl

/-- A rewriting that keeps the lexemes keeps how every declaration and method begins. -/
theorem Source.relocate_opening {u : Source} (h : r.rewrite none u.lexemes = u.lexemes) {o : Opening}
    (ho : o ∈ u.openings) : o.relocate r = o := by
  have hsame : u.relocate r = u := eq_of_lexemes_eq ((lexemes_relocate u).trans h)
  have hopenings := u.openings_relocate (r := r)
  rw [hsame] at hopenings
  have hid : u.openings.map (Opening.relocate r) = u.openings.map id := by
    rw [← hopenings, List.map_id]
  exact List.map_inj_left.mp hid o ho

/-- The opening is one of these lexemes, and a declaration or method can begin with it. -/
structure Opening.IsIn (o : Opening) (ls : List Lexeme) : Prop where
  mem : o.first ∈ ls
  begins : DocComment.beginsHeader (some o.first.token) = true

theorem Opening.IsIn.mono {o : Opening} {ls ms : List Lexeme} (h : o.IsIn ls) (hsub : ls ⊆ ms) :
    o.IsIn ms := ⟨hsub h.mem, h.begins⟩

theorem Method.opening_isIn (m : Method) : m.opening.IsIn m.lexemes := by
  refine ⟨?_, m.beginsHeader_first⟩
  rw [m.lexemes_eq]
  exact List.mem_append_right _ (List.mem_append_left _ (List.mem_of_mem_head? m.head?_plain))

theorem Head.opening_isIn (h : Head) : h.opening.IsIn h.lexemes := by
  refine ⟨?_, h.beginsHeader_first⟩
  rw [h.lexemes_eq]
  exact List.mem_append_right _ (List.mem_of_mem_head? h.head?_plain)

mutual

theorem Body.isIn_lexemes {o : Opening} (b : Body) (ho : o ∈ b.openings) : o.IsIn b.lexemes :=
  match b with
  | .semicolon semi => by
    rw [Body.openings] at ho
    cases ho
  | .braces left members right => by
    rw [Body.openings] at ho
    rw [Body.lexemes]
    exact (Member.isIn_allLexemes members ho).mono
      fun l hl => List.mem_cons_of_mem _ (List.mem_append_left _ hl)

theorem Member.isIn_lexemes {o : Opening} (m : Member) (ho : o ∈ m.openings) : o.IsIn m.lexemes :=
  match m with
  | .decl head body => by
    rw [Member.openings] at ho
    rw [Member.lexemes]
    rcases List.mem_cons.mp ho with rfl | ho
    · exact head.opening_isIn.mono (List.subset_append_left _ _)
    · exact (Body.isIn_lexemes body ho).mono (List.subset_append_right _ _)
  | .method m => by
    rw [Member.openings] at ho
    rw [Member.lexemes, List.mem_singleton.mp ho]
    exact m.opening_isIn

theorem Member.isIn_allLexemes {o : Opening} (ms : List Member) (ho : o ∈ Member.allOpenings ms) :
    o.IsIn (Member.allLexemes ms) :=
  match ms with
  | [] => by
    rw [Member.allOpenings] at ho
    cases ho
  | m :: ms => by
    rw [Member.allOpenings] at ho
    rw [Member.allLexemes]
    rcases List.mem_append.mp ho with ho | ho
    · exact (Member.isIn_lexemes m ho).mono (List.subset_append_left _ _)
    · exact (Member.isIn_allLexemes ms ho).mono (List.subset_append_right _ _)

end

theorem Source.isIn_lexemes {u : Source} {o : Opening} (ho : o ∈ u.openings) : o.IsIn u.lexemes := by
  obtain ⟨d, hd, ho⟩ := List.mem_flatMap.mp ho
  have hin : o.IsIn d.lexemes := by
    rcases List.mem_cons.mp ho with rfl | ho
    · exact d.head.opening_isIn.mono (List.subset_append_left _ _)
    · exact (d.body.isIn_lexemes ho).mono (List.subset_append_right _ _)
  exact hin.mono fun l hl => List.mem_append_right _ (List.mem_flatMap.mpr ⟨d, hd, hl⟩)

/-! ## Where declarations and methods stand -/

theorem spanOf_documented (d : Option Doc) {ls : List Lexeme} {l e : Lexeme}
    (hl : ls.head? = some l) (he : ls.getLast? = some e) :
    spanOf (docLexemes d ++ ls) = ⟨Opening.start ⟨d, l⟩, e.span.stop⟩ := by
  obtain ⟨ls, rfl⟩ := List.head?_eq_some_iff.mp hl
  cases d with
  | none =>
    rw [List.getLast?_cons] at he
    show spanOf (l :: ls) = _
    rw [spanOf, Option.some.inj he]
    rfl
  | some d =>
    show spanOf (d.lexeme :: l :: ls) = _
    rw [spanOf, he]
    rfl

theorem spanOf_item (d : Option Doc) {ls : List Lexeme} {l : Lexeme} (hl : ls.head? = some l)
    (e : Lexeme) :
    spanOf (docLexemes d ++ (ls ++ [e])) = ⟨Opening.start ⟨d, l⟩, e.span.stop⟩ :=
  spanOf_documented d (by rw [List.head?_append, hl]; rfl) List.getLast?_concat

/-- A rewriting ends where the lexemes end. -/
theorem getLast?_rewrite {ls : List Lexeme} (h : NoDoc ls) (last : Option Token) :
    (r.rewrite last ls).getLast? = ls.getLast?.map r.move := by
  induction ls generalizing last with
  | nil => rfl
  | cons l ls ih =>
    obtain ⟨hl, hls⟩ := noDoc_cons.mp h
    rw [Relocation.rewrite, if_neg (by simp [hl]), List.getLast?_append, List.getLast?_cons, ih hls,
      List.getLast?_cons, Option.getD_map]
    rfl

/-- The span of a rewriting begins with what is put in front of the first lexeme. -/
theorem spanOf_rewrite {l e : Lexeme} {ls : List Lexeme} (h : NoDoc (l :: ls))
    (he : (l :: ls).getLast? = some e) :
    spanOf (r.rewrite none (l :: ls)) =
      ⟨Opening.start ⟨if DocComment.beginsHeader (some l.token) then r.doc l else none, r.move l⟩,
        (r.place e.span).stop⟩ := by
  have hlast := getLast?_rewrite (r := r) h none
  rw [he, Option.map_some] at hlast
  obtain ⟨hl, -⟩ := noDoc_cons.mp h
  cases hbegins : DocComment.beginsHeader (some l.token) with
  | false =>
    rw [Relocation.rewrite_of_plain hl (by rw [hbegins]; rfl)] at hlast ⊢
    exact spanOf_documented none rfl hlast
  | true =>
    rw [Relocation.rewrite_of_first hl rfl hbegins] at hlast ⊢
    rw [List.getLast?_append_cons] at hlast
    exact spanOf_documented _ rfl hlast

theorem Method.spanOf_lexemes (m : Method) : spanOf m.lexemes = ⟨m.opening.start, m.semi.stop⟩ := by
  rw [m.lexemes_eq, spanOf_item _ m.head?_plain]
  rfl

/-- The last token of the body of a declaration. -/
def Body.last : Body → Span
  | .semicolon semi => semi
  | .braces _ _ right => right

theorem Body.exists_lexemes (b : Body) :
    ∃ ls s, b.lexemes = ls ++ [mark s b.last] := by
  cases b with
  | semicolon semi => exact ⟨[], .semi, by rw [Body.lexemes]; rfl⟩
  | braces left members right =>
    exact ⟨mark .leftBrace left :: Member.allLexemes members, .rightBrace, by rw [Body.lexemes]; rfl⟩

theorem Head.spanOf_lexemes (h : Head) (b : Body) :
    spanOf (h.lexemes ++ b.lexemes) = ⟨h.opening.start, b.last.stop⟩ := by
  obtain ⟨ls, s, hb⟩ := b.exists_lexemes
  have hfirst : (h.plain ++ ls).head? = some h.first := by rw [List.head?_append, h.head?_plain]; rfl
  rw [h.lexemes_eq, hb, List.append_assoc, ← List.append_assoc h.plain, spanOf_item _ hfirst]
  rfl

theorem Body.last_relocate (b : Body) : (b.relocate r).last = r.place b.last := by
  cases b <;> rw [Body.relocate] <;> rfl

/-! ## Trees -/

/-- The arguments of the annotation. -/
def AnnotationUse.arguments (a : AnnotationUse) : List Argument :=
  ((a.args.bind (·.args)).map Listed.items).getD []

theorem AnnotationUse.args_tree (a : AnnotationUse) (source : List Char) :
    (a.tree source).args = a.arguments.map (·.tree source) := by
  obtain ⟨sign, name, _ | ⟨left, _ | args, right⟩⟩ := a <;> rfl

theorem AnnotationUse.arguments_relocate (a : AnnotationUse) :
    (a.relocate r).arguments = a.arguments.map (Argument.relocate r) := by
  obtain ⟨sign, name, _ | ⟨left, _ | args, right⟩⟩ := a
  · rfl
  · rfl
  · show _ :: List.map _ (List.map _ _) = _ :: List.map _ (List.map _ _)
    rw [List.map_map, List.map_map]
    rfl

theorem AnnotationUse.read_argument {a : AnnotationUse} {source : String}
    (h : Read source a.lexemes) {x : Argument} (hx : x ∈ a.arguments) : Read source x.lexemes := by
  obtain ⟨sign, name, _ | ⟨left, _ | args, right⟩⟩ := a
  · cases hx
  · cases hx
  · exact h.tail.right.tail.left.of_mem_listed hx

/-- The moved tokens are spelled in the second source, and the leeway allows for how spans and
    arguments change. -/
structure Carries (r : Relocation) (L : Leeway) (source source' : String) : Prop where
  spelled : ∀ l ∈ (lex source).lexemes, l.token.isDoc = false → Spelled source'.toList (r.move l)
  span : ∀ ls, L.span (spanOf ls) (spanOf (ls.map r.move))
  args : ∀ a : AnnotationUse, Read source a.lexemes →
    L.args (spanOf a.lexemes) (a.arguments.map (·.tree source.toList))
      (a.arguments.map fun x => (x.relocate r).tree source'.toList)

/-- The leeway allows for how the doc comment and the start of a declaration or method change. -/
def Opening.Carried (r : Relocation) (L : Leeway) (o : Opening) : Prop :=
  ∀ last : Span, L.item (o.docText, ⟨o.start, last.stop⟩)
    ((o.relocate r).docText, ⟨(o.relocate r).start, (r.place last).stop⟩)

theorem forall₂_map {α β : Type} {R : β → β → Prop} {f g : α → β} {as : List α}
    (h : ∀ a ∈ as, R (f a) (g a)) : List.Forall₂ R (as.map f) (as.map g) := by
  rw [List.forall₂_map_left_iff, List.forall₂_map_right_iff]
  exact List.forall₂_same.mpr h

namespace Carries

variable {L : Leeway} {source source' : String}

theorem spanOf (c : Carries r L source source') {ls ls' : List Lexeme} (h : ls.map r.move = ls') :
    L.span (Syntax.spanOf ls) (Syntax.spanOf ls') := h ▸ c.span ls

theorem like_ident (c : Carries r L source source') {x : Ident} (h : Read source [x.lexeme]) :
    (x.tree source.toList).Like L ((x.relocate r).tree source'.toList) where
  text := by
    have hl : x.lexeme ∈ [x.lexeme] := List.mem_cons_self
    have hspelled : x.name = textAt source.toList x.span := h.spelled hl
    exact hspelled.symm.trans (c.spelled _ (h.mem_lex hl) rfl)
  span := c.span [x.lexeme]

theorem like_segment (c : Carries r L source source') {x : Segment} (h : Read source [x.lexeme]) :
    (x.tree source.toList).Like L ((x.relocate r).tree source'.toList) := by
  cases x with
  | ident x => exact c.like_ident h
  | keyword k span =>
    have hl : word k span ∈ [word k span] := List.mem_cons_self
    have hspelled : k.text = textAt source.toList span := h.spelled hl
    exact ⟨hspelled.symm.trans (c.spelled _ (h.mem_lex hl) rfl), c.span [word k span]⟩

theorem like_qualified (c : Carries r L source source') {q : Qualified} (h : Read source q.lexemes) :
    (q.tree source.toList).Like L ((q.relocate r).tree source'.toList) where
  head := c.like_ident h.head
  tail := by
    show List.Forall₂ _ (List.map _ _) (List.map _ (List.map _ _))
    rw [List.map_map]
    exact forall₂_map fun x hx => c.like_segment (h.tail.of_mem_flatMap hx).tail
  span := c.spanOf (map_move_qualified q)

/-- The items of a list. -/
theorem like_items {α β : Type} {lexemes : α → List Lexeme} {f : α → α} {R : β → β → Prop}
    {tree : List Char → α → β}
    (hlike : ∀ a, Read source (lexemes a) → R (tree source.toList a) (tree source'.toList (f a)))
    {l : Listed α} (h : Read source (l.lexemes lexemes)) :
    List.Forall₂ R (l.items.map (tree source.toList))
      ((l.relocate r f).items.map (tree source'.toList)) := by
  have hitems : (l.relocate r f).items = l.items.map f := by
    show f l.first :: List.map _ (List.map _ _) = f l.first :: List.map _ (List.map _ _)
    rw [List.map_map, List.map_map]
    rfl
  rw [hitems, List.map_map]
  exact forall₂_map fun a ha => hlike a (h.of_mem_listed ha)

mutual

theorem like_typeUse (c : Carries r L source source') (t : TypeUse) (h : Read source t.lexemes) :
    (t.tree source.toList).Like L ((t.relocate r).tree source'.toList) :=
  match t with
  | .mk name args dims => by
    have hspan := c.spanOf (map_move_typeUse (.mk name args dims))
    rw [TypeUse.lexemes] at h
    rw [TypeUse.relocate] at hspan ⊢
    rw [TypeUse.tree, TypeUse.tree, Dims.relocate, List.length_map]
    exact .mk (c.like_qualified h.left.left) (like_typeArgs c args h.left.right) hspan

theorem like_typeArgs (c : Carries r L source source') (a : TypeArgs) (h : Read source a.lexemes) :
    List.Forall₂ (TypeExpr.Like L) (a.trees source.toList) ((a.relocate r).trees source'.toList) :=
  match a with
  | .absent => by
    rw [TypeArgs.relocate, TypeArgs.trees, TypeArgs.trees]
    exact .nil
  | .listed less first more greater => by
    rw [TypeArgs.lexemes] at h
    rw [TypeArgs.relocate, TypeArgs.trees, TypeArgs.trees]
    exact .cons (like_typeUse c first h.tail.left.left)
      (like_furtherTypes c more h.tail.left.right)

theorem like_furtherTypes (c : Carries r L source source') (more : List (Span × TypeUse))
    (h : Read source (TypeUse.furtherLexemes more)) :
    List.Forall₂ (TypeExpr.Like L) (TypeUse.furtherTrees source.toList more)
      (TypeUse.furtherTrees source'.toList (TypeUse.relocateFurther r more)) :=
  match more with
  | [] => by
    rw [TypeUse.relocateFurther, TypeUse.furtherTrees, TypeUse.furtherTrees]
    exact .nil
  | (comma, t) :: more => by
    rw [TypeUse.furtherLexemes] at h
    rw [TypeUse.relocateFurther, TypeUse.furtherTrees, TypeUse.furtherTrees]
    exact .cons (like_typeUse c t h.tail.left) (like_furtherTypes c more h.tail.right)

end

theorem like_annotation (c : Carries r L source source') {a : AnnotationUse}
    (h : Read source a.lexemes) :
    (a.tree source.toList).Like L ((a.relocate r).tree source'.toList) where
  name := c.like_qualified h.tail.left
  args := by
    rw [AnnotationUse.args_tree, AnnotationUse.args_tree, AnnotationUse.arguments_relocate,
      List.map_map]
    exact c.args a h
  span := c.spanOf (map_move_annotationUse a)

theorem like_param (c : Carries r L source source') {p : Param} (h : Read source p.lexemes) :
    (p.tree source.toList).Like L ((p.relocate r).tree source'.toList) where
  type := c.like_typeUse p.type h.left
  name := c.like_ident h.right
  span := c.spanOf (map_move_param p)

/-- The annotations of a header. -/
theorem like_annotations (c : Carries r L source source') {x : Header} {first : Lexeme}
    (h : Read source (x.annotations.flatMap (·.lexemes))) :
    List.Forall₂ (AnnotationExpr.Like L) (x.trees source.toList)
      ((x.relocate r first).trees source'.toList) := by
  show List.Forall₂ _ (List.map _ _) (List.map _ (List.map _ _))
  rw [List.map_map]
  exact forall₂_map fun a ha => c.like_annotation (h.of_mem_flatMap ha)

theorem like_method (c : Carries r L source source') {m : Method} (h : Read source m.lexemes)
    (hopening : m.opening.Carried r L) :
    (m.tree source.toList).Like L ((m.relocate r).tree source'.toList) := by
  rw [m.lexemes_eq] at h
  have hplain : Read source m.plain := h.right.left
  refine ⟨?_, c.like_annotations hplain.left, c.like_typeUse m.returnType hplain.right.left, ?_, ?_⟩
  · exact c.like_ident hplain.right.right.head
  · have hparams : Read source (optional (Listed.lexemes Param.lexemes) m.params) :=
      hplain.right.right.tail.tail.left
    simp only [Method.tree, Method.relocate]
    cases hm : m.params with
    | none => exact .nil
    | some l =>
      rw [hm] at hparams
      exact like_items (fun p hp => c.like_param hp) hparams
  · show L.item (m.opening.docText, Syntax.spanOf m.lexemes)
      ((m.relocate r).opening.docText, Syntax.spanOf (m.relocate r).lexemes)
    rw [Method.spanOf_lexemes, Method.spanOf_lexemes, Method.opening_relocate]
    exact hopening m.semi

theorem like_clause (c : Carries r L source source') {k : Keyword} {x : Option Clause}
    (h : Read source (optional (Clause.lexemes k) x)) :
    List.Forall₂ (TypeExpr.Like L) (Clause.trees source.toList x)
      (Clause.trees source'.toList (x.map (Clause.relocate r))) := by
  cases x with
  | none => exact .nil
  | some x => exact like_items (fun t ht => c.like_typeUse t ht) (Read.tail h)

theorem like_head (c : Carries r L source source') {x : Head} (h : Read source x.lexemes)
    {span span' : Span}
    (hitem : L.item (x.header.docText, span) ((x.relocate r).header.docText, span')) :
    (x.tree source.toList span).Like L ((x.relocate r).tree source'.toList span') := by
  rw [x.lexemes_eq] at h
  have hplain : Read source x.plain := h.right
  have hclauses := hplain.right.right.tail.tail
  refine ⟨rfl, ?_, c.like_annotations hplain.left, ?_, c.like_clause hclauses.left,
    c.like_clause hclauses.right, hitem⟩
  · exact c.like_ident hplain.right.right.tail.head
  · show x.abstractWord.isSome = (x.abstractWord.map r.place).isSome
    rw [Option.isSome_map]

/-- A declaration up to its body. -/
theorem like_opened (c : Carries r L source source') {x : Head} {b : Body}
    (h : Read source (x.lexemes ++ b.lexemes)) (hopening : x.opening.Carried r L) :
    (x.tree source.toList (Syntax.spanOf (x.lexemes ++ b.lexemes))).Like L
      ((x.relocate r).tree source'.toList
        (Syntax.spanOf ((x.relocate r).lexemes ++ (b.relocate r).lexemes))) := by
  rw [Head.spanOf_lexemes, Head.spanOf_lexemes, Body.last_relocate, Head.opening_relocate]
  refine c.like_head h.left ?_
  have hitem := hopening b.last
  rw [← Head.opening_relocate] at hitem ⊢
  exact hitem

mutual

theorem like_body (c : Carries r L source source') (b : Body) (h : Read source b.lexemes)
    (hopenings : ∀ o ∈ b.openings, o.Carried r L) :
    List.Forall₂ (Member.Like L) (b.trees source.toList) ((b.relocate r).trees source'.toList) :=
  match b with
  | .semicolon semi => by
    rw [Body.relocate, Body.trees, Body.trees]
    exact .nil
  | .braces left members right => by
    rw [Body.lexemes] at h
    rw [Body.openings] at hopenings
    rw [Body.relocate, Body.trees, Body.trees]
    exact like_members c members h.tail.left hopenings

theorem like_member (c : Carries r L source source') (m : Member) (h : Read source m.lexemes)
    (hopenings : ∀ o ∈ m.openings, o.Carried r L) :
    (m.tree source.toList).Like L ((m.relocate r).tree source'.toList) :=
  match m with
  | .decl head body => by
    rw [Member.lexemes] at h
    rw [Member.openings] at hopenings
    obtain ⟨hhead, hbody⟩ := List.forall_mem_cons.mp hopenings
    rw [Member.relocate, Member.tree, Member.tree]
    exact .nested (c.like_opened h hhead) (like_body c body h.right hbody)
  | .method m => by
    rw [Member.lexemes] at h
    rw [Member.openings] at hopenings
    rw [Member.relocate, Member.tree, Member.tree]
    exact .method (c.like_method h (hopenings _ List.mem_cons_self))

theorem like_members (c : Carries r L source source') (ms : List Member)
    (h : Read source (Member.allLexemes ms))
    (hopenings : ∀ o ∈ Member.allOpenings ms, o.Carried r L) :
    List.Forall₂ (Member.Like L) (Member.trees source.toList ms)
      (Member.trees source'.toList (Member.relocateAll r ms)) :=
  match ms with
  | [] => by
    rw [Member.relocateAll, Member.trees, Member.trees]
    exact .nil
  | m :: ms => by
    rw [Member.allLexemes] at h
    rw [Member.allOpenings] at hopenings
    obtain ⟨hm, hms⟩ := List.forall_mem_append.mp hopenings
    rw [Member.relocateAll, Member.trees, Member.trees]
    exact .cons (like_member c m h.left hm) (like_members c ms h.right hms)

end

theorem like_decl (c : Carries r L source source') {d : Decl} (h : Read source d.lexemes)
    (hopenings : ∀ o ∈ d.head.opening :: d.body.openings, o.Carried r L) :
    (d.tree source.toList).Like L ((d.relocate r).tree source'.toList) := by
  obtain ⟨hhead, hbody⟩ := List.forall_mem_cons.mp hopenings
  exact ⟨c.like_opened h hhead, c.like_body d.body h.right hbody⟩

theorem like_nameLine (c : Carries r L source source') {k : Keyword} {l : NameLine}
    (h : Read source (l.lexemes k)) :
    (l.name.tree source.toList).Like L ((l.relocate r).name.tree source'.toList) :=
  c.like_qualified h.tail.left

/-- The tree of a relocated derivation. -/
theorem like_tree (c : Carries r L source source') {u : Source} (h : Read source u.lexemes)
    (hopenings : ∀ o ∈ u.openings, o.Carried r L)
    (hwhole : L.whole (wholeSpan source.toList u.lexemes)
      (wholeSpan source'.toList (u.relocate r).lexemes)) :
    (u.tree source.toList).Like L ((u.relocate r).tree source'.toList) where
  span := hwhole
  package := by
    have hline := h.left.left
    simp only [Source.tree, Source.relocate]
    cases hp : u.package with
    | none => exact .none
    | some l =>
      rw [hp] at hline
      exact .some (c.like_nameLine hline)
  imports := by
    show List.Forall₂ _ (List.map _ _) (List.map _ (List.map _ _))
    rw [List.map_map]
    exact forall₂_map fun l hl => c.like_nameLine (h.left.right.of_mem_flatMap hl)
  decls := by
    show List.Forall₂ _ (List.map _ _) (List.map _ (List.map _ _))
    rw [List.map_map]
    exact forall₂_map fun d hd => c.like_decl (h.right.of_mem_flatMap hd) fun o ho =>
      hopenings o (List.mem_flatMap.mpr ⟨d, hd, ho⟩)

end Carries

end ActorIdl.Syntax.Grammar
