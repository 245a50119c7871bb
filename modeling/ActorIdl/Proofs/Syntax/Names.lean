import ActorIdl.Proofs.Syntax.Yields
import Mathlib.Data.List.TakeWhile
/-! # The names in a syntax tree

    Every name in the tree of a source is a word that the lexer reads as one token.  Where a name
    can begin a reference it is an identifier; after a dot it can be a reserved word too.  The tree
    of a parsed source is well named in all its parts, since the parser takes the names from tokens
    and no token of the lexer has any other shape. -/

namespace ActorIdl

/-! ## Words and identifiers -/

/-- A text of identifier characters, with one at its start that begins an identifier. -/
def IsWord (s : String) : Prop :=
  ∃ c cs, s.toList = c :: cs ∧ Lexer.isIdentStart c = true ∧ ∀ d ∈ cs, Lexer.isIdentRest d = true

instance (s : String) : Decidable (IsWord s) :=
  decidable_of_iff
    ((s.toList.head?.any Lexer.isIdentStart && s.toList.tail.all Lexer.isIdentRest) = true) <| by
      unfold IsWord
      cases s.toList with
      | nil => simp
      | cons c cs => simp [and_assoc]

/-- A word that is not reserved. -/
def IsIdent (s : String) : Prop := IsWord s ∧ Keyword.ofText? s = none

instance (s : String) : Decidable (IsIdent s) := inferInstanceAs (Decidable (_ ∧ _))

theorem Keyword.isWord (k : Keyword) : IsWord k.text := by
  cases k <;> decide

theorem Keyword.ofText?_text (k : Keyword) : Keyword.ofText? k.text = some k := by
  cases k <;> decide

theorem Keyword.text_of_ofText? {w : String} {k : Keyword} (h : Keyword.ofText? w = some k) :
    k.text = w := by
  simpa using List.find?_some h

/-- Identifier tokens carry identifiers. -/
def Token.WellShaped : Token → Prop
  | .ident name => IsIdent name
  | _ => True

namespace Lexer

theorem wellShaped_word {c : Char} {cs : List Char} (hc : isIdentStart c = true)
    (hcs : ∀ d ∈ cs, isIdentRest d = true) : (word (String.ofList (c :: cs))).WellShaped := by
  unfold word
  cases h : Keyword.ofText? (String.ofList (c :: cs)) with
  | some k => trivial
  | none => exact ⟨⟨c, cs, String.toList_ofList, hc, hcs⟩, h⟩

theorem wellShaped_scan {c : Char} {cs : List Char} {t : Token}
    (h : (scan c cs).1 = .token t) : t.WellShaped := by
  -- along the branches of the scan: only the one about words makes an identifier
  unfold scan at h
  split at h
  · cases h
  split at h
  · cases h
  split at h
  · split at h
    · cases h
    · split at h
      · cases h
        trivial
      · cases h
  split at h
  · dsimp only at h
    split at h
    · cases h
      trivial
    · cases h
  split at h
  · cases h
    trivial
  split at h
  · cases h
    trivial
  split at h
  · rename_i hc
    cases h
    exact wellShaped_word hc fun d hd => (List.mem_takeWhile_imp hd)
  split at h
  · cases h
    trivial
  · cases h

theorem wellShaped_lexFrom (pos : Nat) (cs : List Char) :
    ∀ l ∈ (lexFrom pos cs).lexemes, l.token.WellShaped := by
  fun_induction lexFrom pos cs with
  | case1 => exact fun l hl => absurd hl List.not_mem_nil
  | case2 pos c cs piece n hscan stop ih =>
    intro l hl
    cases piece with
    | skipped => exact ih l hl
    | error e => exact ih l hl
    | token t =>
      rcases List.mem_cons.mp hl with rfl | hl
      · exact wellShaped_scan (congrArg Prod.fst hscan)
      · exact ih l hl

end Lexer

theorem DocComment.attachAfter_sublist (last : Option Token) (ls : List Lexeme) :
    (attachAfter last ls).Sublist ls := by
  fun_induction attachAfter last ls with
  | case1 => exact List.Sublist.refl _
  | case2 last l ls _ ih => exact ih.cons l
  | case3 last l ls _ ih => exact ih.cons_cons l

namespace Syntax

/-! ## Well-named trees -/

/-- A dotted name that begins with an identifier. -/
structure QualifiedName.WellNamed (q : QualifiedName) : Prop where
  head : IsIdent q.head.text
  tail : ∀ n ∈ q.tail, IsWord n.text

/-- A type whose names are well formed, in its arguments too. -/
inductive TypeExpr.WellNamed : TypeExpr → Prop where
  | mk {name : QualifiedName} {args : List TypeExpr} {dims : Nat} {span : Span} :
      name.WellNamed → (∀ a ∈ args, a.WellNamed) → WellNamed (.mk name args dims span)

structure Param.WellNamed (p : Param) : Prop where
  name : IsIdent p.name.text
  type : p.type.WellNamed

structure Method.WellNamed (m : Method) : Prop where
  name : IsIdent m.name.text
  annotations : ∀ a ∈ m.annotations, a.name.WellNamed
  returnType : m.returnType.WellNamed
  params : ∀ p ∈ m.params, p.WellNamed

structure DeclHead.WellNamed (h : DeclHead) : Prop where
  name : IsIdent h.name.text
  annotations : ∀ a ∈ h.annotations, a.name.WellNamed
  extended : ∀ t ∈ h.extended, t.WellNamed
  implemented : ∀ t ∈ h.implemented, t.WellNamed

/-- A method or a declaration whose names are well formed, in its members too. -/
inductive Member.WellNamed : Member → Prop where
  | method {m : Method} : m.WellNamed → WellNamed (.method m)
  | nested {head : DeclHead} {members : List Member} :
      head.WellNamed → (∀ m ∈ members, m.WellNamed) → WellNamed (.nested head members)

structure CompilationUnit.WellNamed (u : CompilationUnit) : Prop where
  package : ∀ q ∈ u.package, q.WellNamed
  imports : ∀ q ∈ u.imports, q.WellNamed
  decls : ∀ d ∈ u.decls, d.toMember.WellNamed

namespace Parser

/-! ## The grammar reads well-named trees -/

/-- Reads values with a property from well-shaped tokens. -/
abbrev Makes {α : Type} (x : Parser α) (source : List Char) (P : α → Prop) : Prop :=
  x.Yields source (fun l => l.token.WellShaped) fun _ a => P a

variable {source : List Char}

theorem makes_ident : ident.Makes source fun n => IsIdent n.text := by
  refine Yields.satisfy fun l a hl ha => ?_
  cases ht : l.token with
  | ident name =>
    rw [ht] at hl ha
    cases ha
    exact hl
  | _ => simp [ht] at ha

theorem makes_segment : segment.Makes source fun n => IsWord n.text := by
  refine Yields.satisfy fun l a hl ha => ?_
  cases ht : l.token with
  | ident name =>
    rw [ht] at hl ha
    cases ha
    exact hl.1
  | keyword k =>
    rw [ht] at ha
    cases ha
    exact k.isWord
  | _ => simp [ht] at ha

theorem makes_qualified : qualified.Makes source QualifiedName.WellNamed := by
  have hnames : (do
      let head ← ident
      let tail ← many (do symbol .dot; segment)
      return (head, tail)).Makes source fun r => IsIdent r.1.text ∧ ∀ n ∈ r.2, IsWord n.text :=
    makes_ident.bind fun _ _ hhead =>
      ((Yields.symbol .dot).bind fun _ _ _ => makes_segment).many_all.bind fun _ _ htail =>
        Yields.pure ⟨hhead, htail⟩
  exact hnames.spanned.bind fun _ _ h => Yields.pure ⟨h.1.1, h.1.2⟩

theorem makes_typeWithin (n : Nat) : (typeWithin n).Makes source TypeExpr.WellNamed := by
  -- on how deep the arguments of a type may be nested
  induction n with
  | zero =>
    rintro i p a j q _ _ ⟨⟩
  | succ n ih =>
    have hparts : (do
        let name ← qualified
        let args ← optional (between .less .greater (sepBy1 (typeWithin n) (symbol .comma)))
        let dims ← many brackets
        return (name, args.getD [], dims.length)).Makes source
          fun r => r.1.WellNamed ∧ ∀ a ∈ r.2.1, a.WellNamed := by
      have hargs : (optional (between .less .greater
          (sepBy1 (typeWithin n) (symbol .comma)))).Makes source
            fun args => ∀ a ∈ args.getD [], a.WellNamed :=
        ((ih.sepBy1_all .comma).between_all .less .greater).optional (by simp)
      have hbrackets : brackets.Makes source fun _ => True :=
        (Yields.symbol .leftBracket).bind fun _ _ _ =>
          (Yields.symbol .rightBracket).mono fun _ _ _ => trivial
      have hdims : (many brackets).Makes source fun _ => True :=
        hbrackets.many trivial fun _ _ _ _ _ _ => trivial
      exact makes_qualified.bind fun _ _ hname => hargs.bind fun _ _ hargs =>
        hdims.bind fun _ _ _ => Yields.pure ⟨hname, hargs⟩
    refine Yields.checked (hparts.spanned.bind fun _ _ h => Yields.pure fun t ht => ?_)
    unfold checkDims at ht
    split at ht
    · cases ht
      exact .mk h.1.1 h.1.2
    · cases ht

theorem makes_type : type.Makes source TypeExpr.WellNamed := fun i => makes_typeWithin (i.left + 1) i

theorem makes_types : types.Makes source fun ts => ∀ t ∈ ts, t.WellNamed := makes_type.sepBy1_all .comma

theorem makes_annotationUse : annotationUse.Makes source fun a => a.name.WellNamed := by
  have hargs : (optional (between .leftParen .rightParen
      (sepBy argument (symbol .comma)))).Makes source fun _ => True := by
    have hread : (literal <|> do let _ ← qualified; return ()).Makes source fun _ => True :=
      Yields.orElse (Yields.satisfy fun _ _ _ _ => trivial)
        (makes_qualified.bind fun _ _ _ => Yields.pure trivial)
    have hargument : argument.Makes source fun _ => True :=
      hread.spanned.bind fun _ _ _ => (Yields.sourceText _).mono fun _ _ _ => trivial
    exact (((hargument.sepBy_all .comma).between_all .leftParen .rightParen).mono
      fun _ _ _ => trivial).optional trivial
  have hparts : (do
      symbol .atSign
      let name ← qualified
      let args ← optional (between .leftParen .rightParen (sepBy argument (symbol .comma)))
      return (name, args.getD [])).Makes source fun r => r.1.WellNamed :=
    (Yields.symbol .atSign).bind fun _ _ _ => makes_qualified.bind fun _ _ hname =>
      hargs.bind fun _ _ _ => Yields.pure hname
  exact hparts.spanned.bind fun _ _ h => Yields.pure h.1

theorem makes_header : header.Makes source fun r => ∀ a ∈ r.2, a.name.WellNamed := by
  have hdoc : (optional doc).Makes source fun _ => True :=
    Yields.optional (Yields.satisfy fun _ _ _ _ => trivial) trivial
  exact hdoc.bind fun _ _ _ => makes_annotationUse.many_all.bind fun _ _ h => Yields.pure h

theorem makes_param : param.Makes source Param.WellNamed := by
  have hparts : (do
      let type ← type
      let name ← ident
      return (type, name)).Makes source fun r => r.1.WellNamed ∧ IsIdent r.2.text :=
    makes_type.bind fun _ _ htype => makes_ident.bind fun _ _ hname => Yields.pure ⟨htype, hname⟩
  exact hparts.spanned.bind fun _ _ h => Yields.pure ⟨h.1.2, h.1.1⟩

theorem makes_method : method.Makes source Method.WellNamed := by
  have hparts : (do
      let above ← header
      let returnType ← type
      let name ← ident
      let params ← between .leftParen .rightParen (sepBy param (symbol .comma))
      symbol .semi
      return (above.1, above.2, returnType, name, params)).Makes source fun r =>
        (∀ a ∈ r.2.1, a.name.WellNamed) ∧ r.2.2.1.WellNamed ∧ IsIdent r.2.2.2.1.text ∧
          ∀ p ∈ r.2.2.2.2, p.WellNamed :=
    makes_header.bind fun _ _ hannotations => makes_type.bind fun _ _ htype =>
      makes_ident.bind fun _ _ hname =>
        ((makes_param.sepBy_all .comma).between_all .leftParen .rightParen).bind
          fun _ _ hparams => (Yields.symbol .semi).bind fun _ _ _ =>
            Yields.pure ⟨hannotations, htype, hname, hparams⟩
  exact hparts.spanned.bind fun _ _ h =>
    Yields.pure ⟨h.1.2.2.1, h.1.1, h.1.2.1, h.1.2.2.2⟩

theorem makes_clause (k : Keyword) : (clause k).Makes source fun ts => ∀ t ∈ ts, t.WellNamed := by
  have hlisted : (optional (do keyword k; types)).Makes source
      fun ts => ∀ t ∈ ts.getD [], t.WellNamed :=
    ((Yields.keyword k).bind fun _ _ _ => makes_types).optional (by simp)
  exact hlisted.bind fun _ _ h => Yields.pure h

theorem makes_body {member : Parser Member} (h : member.Makes source Member.WellNamed) :
    (body member).Makes source fun ms => ∀ m ∈ ms, m.WellNamed :=
  (h.many_all.between_all .leftBrace .rightBrace).orElse
    ((Yields.symbol .semi).bind fun _ _ _ => Yields.pure (by simp))

theorem makes_declWithin (n : Nat) : (declWithin n).Makes source fun d => d.toMember.WellNamed := by
  induction n with
  | zero =>
    rintro i p a j q _ _ ⟨⟩
  | succ n ih =>
    have habstract : (optional (keyword .abstract_)).Makes source fun _ => True :=
      ((Yields.keyword .abstract_).mono fun _ _ _ => trivial).optional trivial
    have hkind : kind.Makes source fun _ => True := Yields.satisfy fun _ _ _ _ => trivial
    have hmember : ((do let d ← declWithin n; return d.toMember) <|>
        (do let m ← method; return .method m) : Parser Member).Makes source Member.WellNamed :=
      (ih.bind fun _ _ h => Yields.pure h).orElse
        (makes_method.bind fun _ _ h => Yields.pure (.method h))
    -- what the parts in front of the span make
    let P : List Lexeme → (Span → DeclHead) × List Member → Prop := fun _ r =>
      (∀ span, (r.1 span).WellNamed) ∧ ∀ m ∈ r.2, m.WellNamed
    refine Yields.bind (Yields.spanned (?_ : Yields _ _ _ P)) fun _ _ h =>
      Yields.pure (.nested (h.1.1 _) h.1.2)
    exact makes_header.bind fun _ _ hannotations => habstract.bind fun _ _ _ =>
      hkind.bind fun _ _ _ => makes_ident.bind fun _ _ hname =>
        (makes_clause .extends_).bind fun _ _ hextended =>
          (makes_clause .implements_).bind fun _ _ himplemented =>
            (makes_body hmember).bind fun _ _ hmembers =>
              Yields.pure ⟨fun _ => ⟨hname, hannotations, hextended, himplemented⟩, hmembers⟩

theorem makes_decl : decl.Makes source fun d => d.toMember.WellNamed :=
  fun i => makes_declWithin (i.left + 1) i

theorem makes_nameLine (k : Keyword) : (nameLine k).Makes source QualifiedName.WellNamed :=
  (Yields.keyword k).bind fun _ _ _ => makes_qualified.bind fun _ _ h =>
    (Yields.symbol .semi).bind fun _ _ _ => Yields.pure h

theorem makes_unit : unit.Makes source CompilationUnit.WellNamed := by
  have hpackage : (optional (nameLine .package_)).Makes source fun q => ∀ n ∈ q, n.WellNamed :=
    ((makes_nameLine .package_).mono fun _ _ h => by simpa using h).optional (by simp)
  let P : List Lexeme → Option QualifiedName × List QualifiedName × List Decl → Prop :=
    fun _ r => (∀ n ∈ r.1, n.WellNamed) ∧ (∀ n ∈ r.2.1, n.WellNamed) ∧
      ∀ d ∈ r.2.2, d.toMember.WellNamed
  refine Yields.bind (Yields.spanned (?_ : Yields _ _ _ P)) fun _ _ h =>
    Yields.pure ⟨h.1.1, h.1.2.1, h.1.2.2⟩
  exact hpackage.bind fun _ _ hpackage => (makes_nameLine .import_).many_all.bind
    fun _ _ himports => makes_decl.many_all.bind fun _ _ hdecls =>
      Yields.endOfInput.bind fun _ _ _ => Yields.pure ⟨hpackage, himports, hdecls⟩

end Parser

/-- The tree of a source is well named. -/
theorem wellNamed_of_parse {source : String} {u : CompilationUnit}
    (h : (parse source).unit = some u) : u.WellNamed := by
  have hok : ∀ l ∈ DocComment.attach (lex source).lexemes, l.token.WellShaped := fun l hl =>
    Lexer.wellShaped_lexFrom 0 source.toList l ((DocComment.attachAfter_sublist none _).subset hl)
  obtain ⟨j, q, hrun⟩ := exists_run_of_unit h
  obtain ⟨_, _, _, hu⟩ := Parser.makes_unit _ none _ _ _ rfl hok hrun
  exact hu

end Syntax

end ActorIdl
