import ActorIdl.Proofs.Syntax.Unambiguous
import Mathlib.Data.List.Induction
/-! # Sentences in parts

    Where the parser gives up, it does not get as far as the tokens begin a sentence: some stretches
    of a sentence are read as a whole or not at all, as far as the place of a fault is concerned.
    `Grammar.Source.parts` cuts a sentence into these stretches.  A lexeme is a part of its own,
    with these exceptions:

      * in a type, a dot and the name behind it, the type arguments with the brackets around them,
        and a pair of brackets;
      * in front of a member, the sign of an annotation and the first name behind it, a dot and the
        name behind it, and the arguments of an annotation with the parentheses around them;
      * a nested declaration behind its doc comment and annotations.

    Some tokens are `Begun` by parts if they are the first parts of a sentence. -/

namespace ActorIdl.Syntax.Grammar

/-! ## There is something of each kind -/

deriving instance Inhabited for Ident, Segment, Qualified, Argument, Arguments, AnnotationUse, Doc,
  Header, NameLine

instance : Inhabited TypeUse := ⟨.mk default .absent ⟨[], Nat.zero_le _⟩⟩

instance {α : Type} [Inhabited α] : Inhabited (Listed α) := ⟨⟨default, []⟩⟩

deriving instance Inhabited for Param, Method, Clause

instance : Inhabited DeclKind := ⟨.interfaceType⟩

instance : Inhabited Body := ⟨.semicolon default⟩

instance : Inhabited Member := ⟨.method default⟩

/-! ## Parts -/

/-- Lexemes that are a part each. -/
def singly (ls : List Lexeme) : List (List Lexeme) := ls.map fun l => [l]

/-- The parts of something that can be absent. -/
def optionalParts {δ : Type} (parts : δ → List (List Lexeme)) : Option δ → List (List Lexeme)
  | none => []
  | some d => parts d

/-- The parts of items with commas between them. -/
def Listed.parts {δ : Type} (parts : δ → List (List Lexeme)) (l : Listed δ) : List (List Lexeme) :=
  parts l.first ++ l.more.flatMap fun item => [mark .comma item.1] :: parts item.2

/-- A dot and what is behind it. -/
def dotted (s : Span × Segment) : List Lexeme := [mark .dot s.1, s.2.lexeme]

/-- A pair of brackets. -/
def pair (b : Span × Span) : List Lexeme := [mark .leftBracket b.1, mark .rightBracket b.2]

/-- The parts of a type. -/
def TypeUse.parts : TypeUse → List (List Lexeme)
  | .mk name args dims =>
    [name.head.lexeme] :: (name.tail.map dotted ++ args.lexemes :: dims.brackets.map pair)

/-- The parts of an annotation in front of a member. -/
def AnnotationUse.parts (a : AnnotationUse) : List (List Lexeme) :=
  [mark .atSign a.sign, a.name.head.lexeme] ::
    (a.name.tail.map dotted ++ [optional Arguments.lexemes a.args])

/-- The parts of what stands in front of a member. -/
def Header.parts (h : Header) : List (List Lexeme) :=
  optionalParts (fun d => [[d.lexeme]]) h.doc ++ h.annotations.flatMap (·.parts)

/-- The parts of a parameter. -/
def Param.parts (p : Param) : List (List Lexeme) := p.type.parts ++ [[p.name.lexeme]]

/-- The parts of a method behind its header. -/
def Method.coreParts (m : Method) : List (List Lexeme) :=
  m.returnType.parts ++ [m.name.lexeme] :: [mark .leftParen m.left] ::
    (optionalParts (Listed.parts Param.parts) m.params ++
      [[mark .rightParen m.right], [mark .semi m.semi]])

/-- The lexemes of a declaration behind its header, up to its body. -/
def Head.core (h : Head) : List Lexeme :=
  optional (fun span => [word .abstract_ span]) h.abstractWord ++
    word (kindWord h.kind) h.kindSpan :: h.name.lexeme ::
      (optional (Clause.lexemes .extends_) h.extended ++
        optional (Clause.lexemes .implements_) h.implemented)

/-- The parts of a member. -/
def Member.parts : Member → List (List Lexeme)
  | .decl head body => head.header.parts ++ [head.core ++ body.lexemes]
  | .method m => m.header.parts ++ m.coreParts

/-- The parts of the body of a declaration. -/
def Body.parts : Body → List (List Lexeme)
  | .semicolon semi => [[mark .semi semi]]
  | .braces left members right =>
    [mark .leftBrace left] :: (members.flatMap Member.parts ++ [[mark .rightBrace right]])

/-- The parts of a clause. -/
def Clause.parts (k : Keyword) (c : Clause) : List (List Lexeme) :=
  [Grammar.word k c.word] :: c.types.parts TypeUse.parts

/-- The parts of a declaration that is not nested, up to its body. -/
def Head.parts (h : Head) : List (List Lexeme) :=
  singly h.header.lexemes ++ optionalParts (fun span => [[word .abstract_ span]]) h.abstractWord ++
    [word (kindWord h.kind) h.kindSpan] :: [h.name.lexeme] ::
      (optionalParts (Clause.parts .extends_) h.extended ++
        optionalParts (Clause.parts .implements_) h.implemented)

/-- The parts of a declaration that is not nested. -/
def Decl.parts (d : Decl) : List (List Lexeme) := d.head.parts ++ d.body.parts

/-- The parts of a line with a name. -/
def NameLine.parts (k : Keyword) (l : NameLine) : List (List Lexeme) := singly (l.lexemes k)

/-- The parts of a unit. -/
def Source.parts (u : Source) : List (List Lexeme) :=
  optionalParts (NameLine.parts .package_) u.package ++
    u.imports.flatMap (NameLine.parts .import_) ++ u.decls.flatMap (·.parts)

/-! ## Lexemes one by one -/

section
variable {δ : Type} (lexemes : δ → List Lexeme)

theorem singly_append (ls ms : List Lexeme) : singly (ls ++ ms) = singly ls ++ singly ms :=
  List.map_append

theorem singly_flatMap (ds : List δ) :
    singly (ds.flatMap lexemes) = ds.flatMap fun d => singly (lexemes d) := List.map_flatMap

theorem singly_optional (o : Option δ) :
    singly (optional lexemes o) = optionalParts (fun d => singly (lexemes d)) o := by
  cases o <;> rfl

theorem singly_listed (l : Listed δ) :
    singly (l.lexemes lexemes) = l.parts fun d => singly (lexemes d) := by
  rw [Listed.lexemes, singly_append, further, singly_flatMap]
  rfl

end

/-! ## All parts together -/

section
variable {δ : Type} {parts : δ → List (List Lexeme)} {lexemes : δ → List Lexeme}

@[simp] theorem flatten_singly (ls : List Lexeme) : (singly ls).flatten = ls := by
  induction ls with
  | nil => rfl
  | cons l ls ih => exact congrArg (l :: ·) ih

theorem flatten_optionalParts (h : ∀ d, (parts d).flatten = lexemes d) (o : Option δ) :
    (optionalParts parts o).flatten = optional lexemes o := by
  cases o with
  | none => rfl
  | some d => exact h d

theorem flatten_flatMap (h : ∀ d, (parts d).flatten = lexemes d) (ds : List δ) :
    (ds.flatMap parts).flatten = ds.flatMap lexemes := by
  induction ds with
  | nil => rfl
  | cons d ds ih => rw [List.flatMap_cons, List.flatten_append, h, ih, List.flatMap_cons]

theorem flatten_listed (h : ∀ d, (parts d).flatten = lexemes d) (l : Listed δ) :
    (l.parts parts).flatten = l.lexemes lexemes := by
  rw [Listed.parts, List.flatten_append, h, flatten_flatMap fun item => ?_]
  · rfl
  · rw [List.flatten_cons, h]
    rfl

end

@[simp] theorem TypeUse.flatten_parts (t : TypeUse) : t.parts.flatten = t.lexemes := by
  cases t with
  | mk name args dims =>
    simp [TypeUse.parts, TypeUse.lexemes, Qualified.lexemes, Dims.lexemes, List.flatMap_def]
    rfl

@[simp] theorem AnnotationUse.flatten_parts (a : AnnotationUse) : a.parts.flatten = a.lexemes := by
  simp [AnnotationUse.parts, AnnotationUse.lexemes, Qualified.lexemes, List.flatMap_def]
  rfl

@[simp] theorem Header.flatten_parts (h : Header) : h.parts.flatten = h.lexemes := by
  rw [Header.parts, List.flatten_append, flatten_flatMap AnnotationUse.flatten_parts,
    flatten_optionalParts fun d => ?_]
  · rfl
  · rfl

@[simp] theorem Param.flatten_parts (p : Param) : p.parts.flatten = p.lexemes := by
  simp [Param.parts, Param.lexemes]

/-- The lexemes of a method behind its header. -/
def Method.core (m : Method) : List Lexeme :=
  m.returnType.lexemes ++ m.name.lexeme :: mark .leftParen m.left ::
    (optional (Listed.lexemes Param.lexemes) m.params ++
      [mark .rightParen m.right, mark .semi m.semi])

theorem Method.lexemes_eq_core (m : Method) : m.lexemes = m.header.lexemes ++ m.core :=
  List.append_assoc _ _ _

theorem Head.lexemes_eq_core (h : Head) : h.lexemes = h.header.lexemes ++ h.core :=
  List.append_assoc _ _ _

@[simp] theorem Method.flatten_coreParts (m : Method) : m.coreParts.flatten = m.core := by
  simp [Method.coreParts, Method.core, flatten_optionalParts (flatten_listed Param.flatten_parts)]

@[simp] theorem Member.flatten_parts (m : Member) : m.parts.flatten = m.lexemes := by
  cases m with
  | decl head body => simp [Member.parts, Member.lexemes, Head.lexemes_eq_core]
  | method m => simp [Member.parts, Member.lexemes, Method.lexemes_eq_core]

@[simp] theorem Body.flatten_parts (b : Body) : b.parts.flatten = b.lexemes := by
  cases b with
  | semicolon semi => simp [Body.parts, Body.lexemes]
  | braces left members right =>
    simp [Body.parts, Body.lexemes, allLexemes_eq, flatten_flatMap Member.flatten_parts]

@[simp] theorem Clause.flatten_parts (k : Keyword) (c : Clause) :
    (c.parts k).flatten = c.lexemes k := by
  simp [Clause.parts, Clause.lexemes, flatten_listed TypeUse.flatten_parts]

@[simp] theorem Head.flatten_parts (h : Head) : h.parts.flatten = h.lexemes := by
  have habstract : (optionalParts (fun span => [[word .abstract_ span]]) h.abstractWord).flatten =
      optional (fun span => [word .abstract_ span]) h.abstractWord :=
    flatten_optionalParts (fun _ => rfl) _
  simp [Head.parts, Head.lexemes, habstract, flatten_optionalParts (Clause.flatten_parts _)]

@[simp] theorem Decl.flatten_parts (d : Decl) : d.parts.flatten = d.lexemes := by
  simp [Decl.parts, Decl.lexemes]

/-- The parts of a unit are all of it. -/
theorem Source.flatten_parts (u : Source) : u.parts.flatten = u.lexemes := by
  have hline : ∀ k (l : NameLine), (l.parts k).flatten = l.lexemes k := fun k l => flatten_singly _
  simp only [Source.parts, Source.lexemes, List.flatten_append, flatten_optionalParts (hline _),
    flatten_flatMap (hline _), flatten_flatMap Decl.flatten_parts]

/-! ## The first parts of something -/

section
variable {δ δ' : Type} {parts : δ → List (List Lexeme)} {parts' : δ' → List (List Lexeme)}
  {b us : List Lexeme} {first stop : Token → Bool}

/-- The first parts of something, and nothing more. -/
def Begun (parts : δ → List (List Lexeme)) (b : List Lexeme) : Prop :=
  ∃ d n, b = ((parts d).take n).flatten

theorem begun_nil [Nonempty δ] : Begun parts [] :=
  ⟨Classical.ofNonempty, 0, by rw [List.take_zero, List.flatten_nil]⟩

theorem begun_flatten (d : δ) : Begun parts (parts d).flatten :=
  ⟨d, (parts d).length, by rw [List.take_length]⟩

/-- What is begun is the front of a whole. -/
theorem Begun.exists_append (h : Begun parts b) : ∃ d us, (parts d).flatten = b ++ us := by
  obtain ⟨d, n, rfl⟩ := h
  exact ⟨d, ((parts d).drop n).flatten, by rw [← List.flatten_append, List.take_append_drop]⟩

theorem Begun.begins (h : Begun parts b) (hfirst : ∀ d, Begins first (parts d).flatten)
    (hb : b ≠ []) : Begins first b := by
  obtain ⟨d, us, hd⟩ := h.exists_append
  obtain ⟨l, ls, hl, hfirst⟩ := hd ▸ hfirst d
  cases b with
  | nil => exact absurd rfl hb
  | cons l' b =>
    cases (List.cons.inj hl).1
    exact .cons b hfirst

theorem Begun.avoids (h : Begun parts b) (hstop : ∀ d, Avoids stop (parts d).flatten)
    (hb : b ≠ []) (us : List Lexeme) : Avoids stop (b ++ us) := by
  obtain ⟨d, vs, hd⟩ := h.exists_append
  have hd := hd ▸ hstop d
  cases b with
  | nil => exact absurd rfl hb
  | cons l b => exact fun l' hl' => hd l' hl'

theorem begun_of_surjective {e : δ → δ'} (he : Function.Surjective e)
    (h : ∀ d, parts' (e d) = parts d) : Begun parts' b ↔ Begun parts b := by
  constructor
  · rintro ⟨d', n, rfl⟩
    obtain ⟨d, rfl⟩ := he d'
    exact ⟨d, n, by rw [h]⟩
  · rintro ⟨d, n, rfl⟩
    exact ⟨e d, n, by rw [h]⟩

/-- What is begun of one thing after another. -/
theorem begun_append [Nonempty δ'] :
    Begun (fun d : δ × δ' => parts d.1 ++ parts' d.2) b ↔
      Begun parts b ∨ ∃ d b', Begun parts' b' ∧ b = (parts d).flatten ++ b' := by
  constructor
  · rintro ⟨⟨d, d'⟩, n, rfl⟩
    dsimp only
    rw [List.take_append, List.flatten_append]
    rcases Nat.le_total n (parts d).length with hn | hn
    · rw [Nat.sub_eq_zero_of_le hn, List.take_zero, List.flatten_nil, List.append_nil]
      exact .inl ⟨d, n, rfl⟩
    · rw [List.take_of_length_le hn]
      exact .inr ⟨d, _, ⟨d', _, rfl⟩, rfl⟩
  · rintro (⟨d, n, rfl⟩ | ⟨d, _, ⟨d', n, rfl⟩, rfl⟩)
    · refine ⟨(d, Classical.ofNonempty), min n (parts d).length, ?_⟩
      rw [List.take_append_of_le_length (Nat.min_le_right _ _), List.take_eq_take_min]
    · refine ⟨(d, d'), (parts d).length + n, ?_⟩
      rw [List.take_length_add_append, List.flatten_append]

theorem begun_optionalParts : Begun (optionalParts parts) b ↔ b = [] ∨ Begun parts b := by
  constructor
  · rintro ⟨o, n, rfl⟩
    cases o with
    | none => exact .inl (by rw [optionalParts, List.take_nil, List.flatten_nil])
    | some d => exact .inr ⟨d, n, rfl⟩
  · rintro (rfl | ⟨d, n, rfl⟩)
    · exact begun_nil
    · exact ⟨some d, n, rfl⟩

/-- Of a list of things the first ones are whole and the last one is begun. -/
theorem exists_flatMap_of_begun [Nonempty δ] (h : Begun (List.flatMap parts) b) :
    ∃ (ds : List δ) (b' : List Lexeme), b = (ds.flatMap parts).flatten ++ b' ∧ Begun parts b' := by
  obtain ⟨ds, n, rfl⟩ := h
  induction ds generalizing n with
  | nil => exact ⟨[], [], by rw [List.flatMap_nil, List.take_nil]; rfl, begun_nil⟩
  | cons d ds ih =>
    rw [List.flatMap_cons, List.take_append, List.flatten_append]
    rcases Nat.le_total n (parts d).length with hn | hn
    · rw [Nat.sub_eq_zero_of_le hn, List.take_zero, List.flatten_nil, List.append_nil]
      exact ⟨[], _, rfl, d, n, rfl⟩
    · obtain ⟨ds', b', heq, hbegun⟩ := ih (n - (parts d).length)
      refine ⟨d :: ds', b', ?_, hbegun⟩
      rw [List.take_of_length_le hn, heq, List.flatMap_cons, List.flatten_append, List.append_assoc]

theorem begun_sum : Begun (Sum.elim parts parts') b ↔ Begun parts b ∨ Begun parts' b := by
  constructor
  · rintro ⟨d | d, n, rfl⟩
    · exact .inl ⟨d, n, rfl⟩
    · exact .inr ⟨d, n, rfl⟩
  · rintro (⟨d, n, rfl⟩ | ⟨d, n, rfl⟩)
    · exact ⟨.inl d, n, rfl⟩
    · exact ⟨.inr d, n, rfl⟩

end

/-! ## The longest front with a property -/

/-- The longest front of some lexemes that has a property has this length. -/
structure IsLongest (P : List Lexeme → Prop) (ts : List Lexeme) (k : Nat) : Prop where
  reached : ∃ b us, ts = b ++ us ∧ b.length = k ∧ P b
  le : ∀ b us, ts = b ++ us → P b → b.length ≤ k

namespace IsLongest

variable {P Q : List Lexeme → Prop} {ts : List Lexeme} {k l : Nat}

theorem le_length (h : IsLongest P ts k) : k ≤ ts.length := by
  obtain ⟨b, us, rfl, rfl, _⟩ := h.reached
  rw [List.length_append]
  exact Nat.le_add_right _ _

theorem congr (h : ∀ b, P b ↔ Q b) : IsLongest P ts k ↔ IsLongest Q ts k := by
  rw [funext fun b => propext (h b)]

/-- Something is a front of what has the property. -/
theorem mono (h : IsLongest P ts k) (h' : IsLongest Q ts l) (hPQ : ∀ b, P b → Q b) : k ≤ l := by
  obtain ⟨b, us, hb, rfl, hP⟩ := h.reached
  exact h'.le b us hb (hPQ b hP)

theorem unique (h : IsLongest P ts k) (h' : IsLongest P ts l) : k = l :=
  Nat.le_antisymm (h.mono h' fun _ => id) (h'.mono h fun _ => id)

theorem take (h : IsLongest P ts k) : P (ts.take k) := by
  obtain ⟨b, us, rfl, rfl, hP⟩ := h.reached
  rwa [List.take_left]

end IsLongest

/-- Of two kinds of things the longest front is the longer one of theirs. -/
theorem IsLongest.sum {δ δ' : Type} {parts : δ → List (List Lexeme)}
    {parts' : δ' → List (List Lexeme)} {ts : List Lexeme} {k l : Nat}
    (h : IsLongest (Begun parts) ts k) (h' : IsLongest (Begun parts') ts l) :
    IsLongest (Begun (Sum.elim parts parts')) ts (max k l) := by
  refine (congr fun _ => begun_sum).mpr ⟨?_, ?_⟩
  · rcases Nat.le_total k l with hle | hle
    · rw [Nat.max_eq_right hle]
      obtain ⟨b, us, hb, hl, hbegun⟩ := h'.reached
      exact ⟨b, us, hb, hl, .inr hbegun⟩
    · rw [Nat.max_eq_left hle]
      obtain ⟨b, us, hb, hk, hbegun⟩ := h.reached
      exact ⟨b, us, hb, hk, .inl hbegun⟩
  · rintro b us hb (hbegun | hbegun)
    · exact Nat.le_trans (h.le b us hb hbegun) (Nat.le_max_left _ _)
    · exact Nat.le_trans (h'.le b us hb hbegun) (Nat.le_max_right _ _)

/-- Something that may be absent has the same longest front. -/
theorem IsLongest.optionalParts {δ : Type} {parts : δ → List (List Lexeme)} {ts : List Lexeme}
    {k : Nat} (h : IsLongest (Begun parts) ts k) :
    IsLongest (Begun (optionalParts parts)) ts k := by
  refine (congr fun _ => begun_optionalParts).mpr ⟨?_, ?_⟩
  · obtain ⟨b, us, hb, hk, hbegun⟩ := h.reached
    exact ⟨b, us, hb, hk, .inr hbegun⟩
  · rintro b us hb (rfl | hbegun)
    · exact Nat.zero_le k
    · exact h.le b us hb hbegun

/-- Nothing is begun where nothing can begin. -/
theorem isLongest_zero {δ : Type} [Nonempty δ] {parts : δ → List (List Lexeme)}
    {first : Token → Bool} {ts : List Lexeme} (hfirst : ∀ d, Begins first (parts d).flatten)
    (h : Avoids first ts) : IsLongest (Begun parts) ts 0 := by
  refine ⟨⟨[], ts, rfl, rfl, begun_nil⟩, fun b us hb hbegun => ?_⟩
  by_contra hlength
  have hne : b ≠ [] := List.ne_nil_of_length_pos (Nat.lt_of_not_le hlength)
  exact ((hbegun.begins hfirst hne).append us).not_avoids (hb ▸ h)

/-- The empty front has the property, so there is a longest one. -/
theorem exists_isLongest {P : List Lexeme → Prop} (hnil : P []) (ts : List Lexeme) :
    ∃ k, IsLongest P ts k := by
  -- from the back: all of it, or what is longest without its last lexeme
  induction ts using List.reverseRecOn with
  | nil =>
    refine ⟨0, ⟨[], [], rfl, rfl, hnil⟩, fun b us hb _ => Nat.le_zero.mpr ?_⟩
    rw [(List.append_eq_nil_iff.mp hb.symm).1, List.length_nil]
  | append_singleton ts l ih =>
    by_cases hall : P (ts ++ [l])
    · refine ⟨(ts ++ [l]).length, ⟨_, [], (List.append_nil _).symm, rfl, hall⟩, fun b us hb _ => ?_⟩
      rw [hb, List.length_append]
      exact Nat.le_add_right _ _
    · obtain ⟨k, ⟨b, us, hb, hk, hP⟩, hle⟩ := ih
      refine ⟨k, ⟨b, us ++ [l], by rw [hb, List.append_assoc], hk, hP⟩, fun b' us' hb' hP' => ?_⟩
      rcases List.eq_nil_or_concat us' with rfl | ⟨vs, l', rfl⟩
      · rw [List.append_nil] at hb'
        exact absurd (hb' ▸ hP') hall
      · rw [List.concat_eq_append, ← List.append_assoc] at hb'
        exact hle b' vs (List.append_inj' hb' rfl).1 hP'

end ActorIdl.Syntax.Grammar
