import ActorIdl.Proofs.Declaration.Dotted
import ActorIdl.Proofs.Plan.WellFormed
import ActorIdl.Proofs.Syntax.Reads
import ActorIdl.Renderer
/-! # Stubs are sources

    The text of a stub is lexed line by line and its tokens are read along the grammar.  It declares
    the three generated classes of its plan, marked as written by the compiler, in the package of
    the plan.  All that this takes of the plan is that its names are names: dotted ones for the
    package and the interface, identifiers for the classes. -/

namespace ActorIdl

open Syntax Lexer

/-! ## The names of a plan -/

/-- The names of a plan can be written in a source. -/
structure Plan.WellNamed (p : Plan) : Prop where
  package : p.package = "" ∨ IsDotted p.package
  interfaceName : IsDotted p.interfaceName
  referenceName : IsIdent p.referenceName
  invokerName : IsIdent p.invokerName
  factoryName : IsIdent p.factoryName

theorem isWord_baseName {s : String} (h : IsWord s) : IsWord (baseName s) := by
  unfold baseName
  split
  · rename_i c rest hs
    split
    · rename_i hupper
      have hrest := h.isIdentRest
      rw [hs] at hrest
      have hstart : isIdentStart c = true := by
        have halpha : c.isAlpha = (c.isUpper || c.isLower) := rfl
        simp [isIdentStart, halpha, hupper]
      refine ⟨c, rest, String.toList_ofList, hstart, fun d hd => hrest d ?_⟩
      exact List.mem_cons_of_mem _ (List.mem_cons_of_mem _ hd)
    · exact h
  · exact h

/-- No reserved word has a capital letter. -/
theorem isIdent_append {s suffix : String} (hs : IsWord s)
    (hrest : ∀ c ∈ suffix.toList, isIdentRest c = true)
    (hupper : ∃ c ∈ suffix.toList, c.isUpper = true) : IsIdent (s ++ suffix) := by
  constructor
  · obtain ⟨c, cs, hchars, hc, hcs⟩ := hs
    refine ⟨c, cs ++ suffix.toList, ?_, hc, List.forall_mem_append.mpr ⟨hcs, hrest⟩⟩
    rw [String.toList_append, hchars, List.cons_append]
  · cases hk : Keyword.ofText? (s ++ suffix) with
    | none => rfl
    | some k =>
      obtain ⟨c, hc, hcap⟩ := hupper
      -- no keyword has a capital letter
      have hlower : k.text.toList.all (!·.isUpper) = true := by
        cases k <;> decide
      have hmem : c ∈ k.text.toList := by
        rw [Keyword.text_of_ofText? hk, String.toList_append]
        exact List.mem_append_right _ hc
      have hc := List.all_eq_true.mp hlower c hmem
      rw [hcap] at hc
      cases hc

section
variable {units : List SourceUnit} {p : Plan}

/-- A plan has the package of a unit. -/
theorem package_of_mem_plans (hp : p ∈ (Table.build units).1.plans) :
    ∃ u ∈ units, p.package = u.package := by
  obtain ⟨d, hd, hfor, _⟩ := Table.isFor_of_mem_plans hp
  rw [Table.get?_build] at hd
  obtain ⟨e, he, rfl⟩ := Option.map_eq_some_iff.mp hd
  obtain ⟨u, hu, hfits, _⟩ := fits_of_mem_enterUnits (List.mem_of_getElem? he)
  exact ⟨u, hu, hfor.package.trans hfits.package⟩

/-- The plans of parsed units can be written in a source if their packages can. -/
theorem wellNamed_of_package (hunits : ∀ u ∈ units, u.unit.WellNamed)
    (hp : p ∈ (Table.build units).1.plans) (hpackage : p.package = "" ∨ IsDotted p.package) :
    p.WellNamed := by
  obtain ⟨id, _, i, hi, rfl⟩ := Table.mem_plans.mp hp
  obtain ⟨d, hd, rfl⟩ := Table.describe_eq_some_iff.mp hi
  rw [Table.get?_build] at hd
  obtain ⟨e, he, rfl⟩ := Option.map_eq_some_iff.mp hd
  obtain ⟨u, hu, hfits, hwell⟩ := fits_of_mem_enterUnits (List.mem_of_getElem? he)
  have hwell := hwell (hunits u hu)
  have hbase : IsWord (baseName e.simpleName) := isWord_baseName hwell.head.name.1
  constructor
  · exact hpackage
  · change e.package = "" ∨ IsDotted e.package at hpackage
    rw [hfits.package] at hpackage
    exact hfits.isDotted hpackage hwell
  · exact isIdent_append hbase (List.all_eq_true.mp rfl) ⟨'R', by decide, by decide⟩
  · exact isIdent_append hbase (List.all_eq_true.mp rfl) ⟨'I', by decide, by decide⟩
  · exact isIdent_append hbase (List.all_eq_true.mp rfl) ⟨'F', by decide, by decide⟩

/-- The plans of parsed units can be written in a source if the hints can. -/
theorem wellNamed_of_mem_plans (hunits : ∀ u ∈ units, u.unit.WellNamed)
    (hhints : ∀ u ∈ units, u.HasDottedHint) (hp : p ∈ (Table.build units).1.plans) :
    p.WellNamed := by
  obtain ⟨u, hu, hpackage⟩ := package_of_mem_plans hp
  apply wellNamed_of_package hunits hp
  rw [hpackage]
  exact SourceUnit.isDotted_package (hunits u hu) (hhints u hu)

end

namespace Stub

/-- The tokens of the mark of the compiler. -/
def markTokens : List Token :=
  .symbol .atSign :: dottedTokens "orbit" ["actors", "annotation", "Generated"]

/-- The tokens of a package line; the unnamed package has none. -/
def packageTokens : List String → List Token
  | [] => []
  | head :: tail => .keyword .package_ :: (dottedTokens head tail ++ [.symbol .semi])

/-- A generated class: its name and the interface that it implements, if there is one. -/
structure ClassLine where
  name : String
  implemented : Option (String × List String)

namespace ClassLine

def clause (c : ClassLine) : List Token :=
  match c.implemented with
  | none => []
  | some (head, tail) => .keyword .implements_ :: dottedTokens head tail

def endTokens (c : ClassLine) : List Token := c.clause ++ [.symbol .semi]

/-- The tokens of the line itself. -/
def lineTokens (c : ClassLine) : List Token := .keyword .class_ :: .ident c.name :: c.endTokens

/-- The tokens of the class with the mark in front of it. -/
def tokens (c : ClassLine) : List Token := markTokens ++ c.lineTokens

end ClassLine

theorem lexesLine_mark : LexesLine ("@" ++ Library.generated) markTokens := by
  intro rest us h
  have hhead : IsIdent "orbit" := by decide
  have htail : ∀ w ∈ ["actors", "annotation", "Generated"], IsWord w := by decide
  have hname := (h.space (by decide : isSpace '\n' = true)).dotted hhead htail
    (endsWord_cons _ (by decide))
  exact hname.symbol .atSign

theorem lexesLine_package {head : String} {tail : List String} (hhead : IsIdent head)
    (htail : ∀ w ∈ tail, IsWord w) :
    LexesLine ("package " ++ Text.joinWith "." (head :: tail) ++ ";")
      (packageTokens (head :: tail)) := by
  intro rest us h
  -- from the end of the line to its beginning, as in the lines below
  have hsemi := h.semi_newline
  have hname := hsemi.dotted hhead htail (endsWord_cons _ (by decide))
  have hline := hname.keyword_space .package_
  have hchars : ("package " ++ Text.joinWith "." (head :: tail) ++ ";").toList ++ '\n' :: rest =
      Keyword.package_.text.toList ++ ' ' :: ((Text.joinWith "." (head :: tail)).toList ++
        Symbol.semi.char :: '\n' :: rest) := by
    simp [String.toList_append, Keyword.text, Symbol.char]
  rw [hchars, packageTokens, List.cons_append, List.append_assoc]
  exact hline

theorem lexesLine_class {name : String} (hname : IsIdent name) :
    LexesLine ("class " ++ name ++ ";") (ClassLine.lineTokens ⟨name, none⟩) := by
  intro rest us h
  have hsemi := h.semi_newline
  have hident := hsemi.ident hname (endsWord_cons _ (by decide))
  have hline := hident.keyword_space .class_
  have hchars : ("class " ++ name ++ ";").toList ++ '\n' :: rest =
      Keyword.class_.text.toList ++ ' ' :: (name.toList ++ Symbol.semi.char :: '\n' :: rest) := by
    simp [String.toList_append, Keyword.text, Symbol.char]
  rw [hchars]
  exact hline

theorem lexesLine_implementing {name head : String} {tail : List String} (hname : IsIdent name)
    (hhead : IsIdent head) (htail : ∀ w ∈ tail, IsWord w) :
    LexesLine ("class " ++ name ++ " implements " ++ Text.joinWith "." (head :: tail) ++ ";")
      (ClassLine.lineTokens ⟨name, some (head, tail)⟩) := by
  intro rest us h
  -- from the back of the line, piece by piece
  have hsemi := h.semi_newline
  have habove := hsemi.dotted hhead htail (endsWord_cons _ (by decide))
  have hclause := habove.keyword_space .implements_
  have hident := (hclause.space (by decide : isSpace ' ' = true)).ident hname
    (endsWord_cons _ (by decide))
  have hline := hident.keyword_space .class_
  have hchars : ("class " ++ name ++ " implements " ++ Text.joinWith "." (head :: tail) ++
      ";").toList ++ '\n' :: rest =
      Keyword.class_.text.toList ++ ' ' :: (name.toList ++ ' ' ::
        (Keyword.implements_.text.toList ++ ' ' :: ((Text.joinWith "." (head :: tail)).toList ++
          Symbol.semi.char :: '\n' :: rest))) := by
    simp [String.toList_append, Keyword.text, Symbol.char]
  rw [hchars]
  simpa [ClassLine.lineTokens, ClassLine.endTokens, ClassLine.clause] using hline

/-! ## The grammar of stubs -/

/-- The mark of the compiler. -/
structure IsMark (a : AnnotationExpr) : Prop where
  name : a.name.segments.map Name.text = ["orbit", "actors", "annotation", "Generated"]
  args : a.args = []

/-- A type that is no more than a dotted name. -/
structure IsBareType (head : String) (tail : List String) (t : TypeExpr) : Prop where
  name : t.name.segments.map Name.text = head :: tail
  args : t.args = []
  dims : t.dims = 0

/-- The clause of a generated class. -/
def ClassLine.Implements (c : ClassLine) (ts : List TypeExpr) : Prop :=
  match c.implemented with
  | none => ts = []
  | some (head, tail) => ∃ t, ts = [t] ∧ IsBareType head tail t

/-- A class that the compiler has declared: nothing but its name, the mark of the compiler and the
    interface that it implements. -/
structure ClassLine.Declares (c : ClassLine) (d : Decl) : Prop where
  kind : d.head.kind = .classType
  name : d.head.name.text = c.name
  doc : d.head.doc = none
  annotations : ∃ a, d.head.annotations = [a] ∧ IsMark a
  isAbstract : d.head.isAbstract = false
  extended : d.head.extended = []
  implemented : c.Implements d.head.implemented
  members : d.members = []

section
open Parser

variable {us : List Token}

/-- The mark of the compiler is all that stands in front of a generated class. -/
theorem reads_header (hdot : us.head? ≠ some (.symbol .dot))
    (hparen : us.head? ≠ some (.symbol .leftParen)) (hat : us.head? ≠ some (.symbol .atSign)) :
    header.Reads markTokens us fun r => r.1 = none ∧ ∃ a, r.2 = [a] ∧ IsMark a := by
  have hdoc : (optional doc).Reads [] (markTokens ++ us) (· = none) := by
    refine .optional_none (Refuses.satisfy fun l hl => ?_)
    rw [← Option.some.inj hl]
  have hmark : annotationUse.Reads markTokens us IsMark :=
    (reads_annotationUse hdot hparen).mono fun a ha => ⟨ha.1, ha.2⟩
  have hmarks := hmark.many_one (by simp [markTokens]) (refuses_annotationUse hat)
  exact hdoc.bind fun _ hdoc => hmarks.bind_nil fun _ hmarks => .pure ⟨hdoc, hmarks⟩

theorem reads_clause (c : ClassLine) :
    (clause .implements_).Reads c.clause ([.symbol .semi] ++ us) c.Implements := by
  obtain ⟨name, implemented⟩ := c
  cases implemented with
  | none =>
    have habsent : (optional (do Parser.keyword .implements_; types)).Reads []
        (.symbol .semi :: us) (· = none) :=
      .optional_none (Refuses.keyword (by simp)).bind
    exact habsent.bind_nil fun _ h => .pure (by rw [h]; rfl)
  | some above =>
    -- one type, since a comma would have to follow before another one
    obtain ⟨head, tail⟩ := above
    have htype : type.Reads (dottedTokens head tail) (.symbol .semi :: us) (IsBareType head tail) :=
      (reads_type (by simp) (by simp) (by simp)).mono fun t ht => ⟨ht.1, ht.2.1, ht.2.2⟩
    have htypes : types.Reads (dottedTokens head tail) (.symbol .semi :: us)
        fun ts => ∃ t, ts = [t] ∧ IsBareType head tail t := htype.sepBy1_one (by simp)
    have hlisted := Reads.optional_some ((Reads.keyword .implements_).bind fun _ _ => htypes)
    refine hlisted.bind_nil fun ts hts => .pure ?_
    obtain ⟨listed, rfl, h⟩ := hts
    exact h

theorem reads_class (c : ClassLine) : decl.Reads c.tokens us c.Declares := by
  have hwithin : ∀ n, (declWithin (n + 1)).Reads c.tokens us c.Declares := by
    intro n
    have habstract : (optional (Parser.keyword .abstract_)).Reads [] (c.lineTokens ++ us)
        (· = none) := .optional_none (Refuses.keyword (by simp [ClassLine.lineTokens]))
    have hkind : kind.Reads [.keyword .class_] ((.ident c.name :: c.endTokens) ++ us)
        (· = .classType) := Reads.satisfy fun l hl => ⟨.classType, by rw [hl], rfl⟩
    have hname : ident.Reads [.ident c.name] (c.endTokens ++ us) (·.text = c.name) :=
      reads_ident c.name
    have hextended : (clause .extends_).Reads [] (c.endTokens ++ us) (· = []) := by
      have habsent : (optional (do Parser.keyword .extends_; types)).Reads [] (c.endTokens ++ us)
          (· = none) := by
        refine .optional_none (Refuses.keyword ?_).bind
        obtain ⟨name, implemented⟩ := c
        cases implemented with
        | none => simp [ClassLine.endTokens, ClassLine.clause]
        | some above => simp [ClassLine.endTokens, ClassLine.clause]
      exact habsent.bind_nil fun _ h => .pure (by rw [h]; rfl)
    have hbody : ∀ member, (body member).Reads [.symbol .semi] us (· = []) := by
      intro member
      refine .orElse_right (.between (by simp)) ?_
      exact (Reads.symbol .semi).bind_nil fun _ _ => .pure rfl
    let P : (Span → DeclHead) × List Syntax.Member → Prop :=
      fun r => ∀ span, c.Declares ⟨r.1 span, r.2⟩
    refine Reads.bind_nil (Reads.spanned (?_ : Reads _ _ _ P)) fun r hr => .pure (hr _)
    have hheader : header.Reads markTokens (c.lineTokens ++ us) _ :=
      reads_header (by simp [ClassLine.lineTokens]) (by simp [ClassLine.lineTokens])
        (by simp [ClassLine.lineTokens])
    -- the parts of a declaration in the order of the grammar
    refine hheader.bind fun ⟨text, annotations⟩ ⟨htext, hannotations⟩ => ?_
    refine habstract.bind fun abstract? habstract => ?_
    refine hkind.bind fun kind hkind => ?_
    refine hname.bind fun name hname => ?_
    refine hextended.bind fun extended hextended => ?_
    refine (reads_clause c).bind fun implemented himplemented => ?_
    refine (hbody _).bind_nil fun members hmembers => .pure fun span => ?_
    exact ⟨hkind, hname, htext, hannotations, by rw [habstract]; rfl, hextended, himplemented,
      hmembers⟩
  exact fun i => hwithin i.left i

/-- At the end of a source there is no further declaration. -/
theorem refuses_decl_nil : decl.Refuses [] := by
  have hwithin : ∀ n, (declWithin (n + 1)).Refuses [] := by
    intro n
    have hdoc : (optional doc).Reads [] ([] ++ []) (· = none) :=
      .optional_none (Refuses.satisfy fun l hl => absurd hl (by simp))
    have hmarks : (many annotationUse).Reads [] [] (· = []) :=
      .many_none (refuses_annotationUse (by simp))
    have hheader : header.Reads [] [] fun _ => True :=
      hdoc.bind fun _ _ => hmarks.bind_nil fun _ _ => .pure trivial
    have habstract : (optional (Parser.keyword .abstract_)).Reads [] [] (· = none) :=
      .optional_none (Refuses.keyword (by simp))
    have hkind : kind.Refuses [] := Refuses.satisfy fun l hl => absurd hl (by simp)
    refine Refuses.bind (Refuses.spanned ?_)
    refine Refuses.bind_of_reads hheader fun _ _ => ?_
    exact Refuses.bind_of_reads habstract fun _ _ => hkind.bind
  exact fun i => hwithin i.left i

theorem reads_unit (package : List String) (cs : List ClassLine) :
    unit.Reads (packageTokens package ++ cs.flatMap (·.tokens)) [] fun u =>
      (u.package.map fun q => q.segments.map Name.text) =
          (if package = [] then none else some package) ∧
        u.imports = [] ∧ List.Forall₂ ClassLine.Declares cs u.decls := by
  -- nothing but marks can follow the package
  have hnext : ∀ k, (cs.flatMap (·.tokens)).head? ≠ some (.keyword k) := by
    intro k
    cases cs <;> simp [ClassLine.tokens, markTokens]
  have hpackage : (optional (nameLine .package_)).Reads (packageTokens package)
      (cs.flatMap (·.tokens) ++ []) fun q => (q.map fun q => q.segments.map Name.text) =
        if package = [] then none else some package := by
    cases package with
    | nil =>
      have habsent : (optional (nameLine .package_)).Reads [] (cs.flatMap (·.tokens)) (· = none) :=
        .optional_none (refuses_nameLine (hnext _))
      rw [List.append_nil]
      exact habsent.mono fun q hq => by rw [hq]; rfl
    | cons head tail =>
      refine (reads_nameLine .package_ head tail).optional_some.mono ?_
      rintro _ ⟨q, rfl, hq⟩
      rw [Option.map_some, hq, if_neg (by simp)]
  have himports : (many (nameLine .import_)).Reads [] (cs.flatMap (·.tokens) ++ []) (· = []) := by
    refine .many_none (refuses_nameLine ?_)
    rw [List.append_nil]
    exact hnext _
  have hdecls : (many decl).Reads (cs.flatMap (·.tokens)) ([] ++ [])
      (List.Forall₂ ClassLine.Declares cs) :=
    Reads.many refuses_decl_nil (by simp [ClassLine.tokens, markTokens])
      fun c _ _ => reads_class c
  let P : Option QualifiedName × List QualifiedName × List Decl → Prop := fun r =>
    (r.1.map fun q => q.segments.map Name.text) = (if package = [] then none else some package) ∧
      r.2.1 = [] ∧ List.Forall₂ ClassLine.Declares cs r.2.2
  refine Reads.bind_nil (Reads.spanned (P := P) ?_) fun _ h => .pure h
  refine hpackage.bind fun package hpackage => ?_
  refine himports.bind fun imports himports => ?_
  refine hdecls.bind_nil fun decls hdecls => ?_
  exact Reads.endOfInput.bind_nil fun _ _ => .pure ⟨hpackage, himports, hdecls⟩

end

/-! ## The source of a plan -/

/-- The unit that a stub is parsed to. -/
structure Declares (p : Plan) (u : CompilationUnit) : Prop where
  package : u.package.map (·.dotted) = if p.package = "" then none else some p.package
  imports : u.imports = []
  decls : ∃ head tail, p.interfaceName = Text.joinWith "." (head :: tail) ∧
    List.Forall₂ ClassLine.Declares
      [⟨p.referenceName, some (head, tail)⟩, ⟨p.invokerName, none⟩, ⟨p.factoryName, none⟩] u.decls

theorem noDocs_tokens (package : List String) (cs : List ClassLine) :
    NoDocs (packageTokens package ++ cs.flatMap (·.tokens)) := by
  have hpackage : NoDocs (packageTokens package) := by
    cases package <;> simp [packageTokens, Token.isDoc]
  have hclass : ∀ c : ClassLine, NoDocs c.tokens := by
    intro ⟨name, implemented⟩
    cases implemented <;> simp [ClassLine.tokens, markTokens, ClassLine.lineTokens,
      ClassLine.endTokens, ClassLine.clause, Token.isDoc]
  refine noDocs_append.mpr ⟨hpackage, fun t ht => ?_⟩
  obtain ⟨c, _, ht⟩ := List.mem_flatMap.mp ht
  exact hclass c t ht

theorem lexes_classLines {declared : String} {c : ClassLine} (h : LexesLine declared c.lineTokens) :
    List.Forall₂ LexesLine (classLines declared) [[], markTokens, c.lineTokens] :=
  .cons lexesLine_blank (.cons lexesLine_mark (.cons h .nil))

/-- The header is one line. -/
theorem lexesLine_header {p : Plan} (hp : p.WellNamed) :
    LexesLine ("// " ++ generatedHeader p) [] := by
  refine lexesLine_comment ?_
  have hname : '\n' ∉ p.interfaceName.toList := by
    intro hmem
    rcases hp.interfaceName.forall_mem _ hmem with h | h
    · exact absurd h (by decide)
    · exact absurd h (by decide)
  have hends : '\n' ∉ "Generated by orbc from ".toList ∧ '\n' ∉ ". Do not edit.".toList := by
    simp
  have happend : ∀ s t : String, '\n' ∉ s.toList → '\n' ∉ t.toList → '\n' ∉ (s ++ t).toList := by
    intro s t hs ht
    rw [String.toList_append, List.mem_append]
    exact not_or.mpr ⟨hs, ht⟩
  exact happend _ _ (happend _ _ hends.1 hname) hends.2

theorem lexes_packageLines {p : Plan} (hp : p.WellNamed) : ∃ package,
    p.package = Text.joinWith "." package ∧ (package = [] ↔ p.package = "") ∧
      List.Forall₂ LexesLine (if p.package = "" then [] else ["package " ++ p.package ++ ";"])
        (if package = [] then [] else [packageTokens package]) := by
  rcases hp.package with h | ⟨head, tail, hhead, htail, h⟩
  · exact ⟨[], h, by simp [h], by simp [h]⟩
  · have hne : p.package ≠ "" := by
      rw [h]
      exact (plainName_joinWith hhead.1 htail).ne_empty
    refine ⟨head :: tail, h, by simp [hne], ?_⟩
    rw [if_neg hne, if_neg (by simp), h]
    exact .cons (lexesLine_package hhead htail) .nil

/-- The stub of a plan is a source without faults that declares the classes of the plan. -/
theorem parse_render {p : Plan} (hp : p.WellNamed) :
    ∃ u, parse (render p).contents = ⟨some u, []⟩ ∧ Declares p u := by
  obtain ⟨package, hpackage, hempty, hpackageLines⟩ := lexes_packageLines hp
  obtain ⟨head, tail, hhead, htail, hname⟩ := hp.interfaceName
  let cs : List ClassLine :=
    [⟨p.referenceName, some (head, tail)⟩, ⟨p.invokerName, none⟩, ⟨p.factoryName, none⟩]
  -- line by line the text lexes to the tokens of its classes
  have hlines : List.Forall₂ LexesLine (textLines p) ([[]] ++
      ((if package = [] then [] else [packageTokens package]) ++
        cs.flatMap fun c => [[], markTokens, c.lineTokens])) := by
    have hreference := lexesLine_implementing hp.referenceName hhead htail
    rw [← hname] at hreference
    have hclasses := List.rel_append (lexes_classLines hreference) (List.rel_append
      (lexes_classLines (lexesLine_class hp.invokerName))
      (lexes_classLines (lexesLine_class hp.factoryName)))
    simp only [textLines, List.append_assoc]
    exact List.rel_append (.cons (lexesLine_header hp) .nil)
      (List.rel_append hpackageLines hclasses)
  have hlexes : Lexes (render p).contents.toList
      (packageTokens package ++ cs.flatMap (·.tokens)) := by
    have htokens : ([[]] ++ ((if package = [] then [] else [packageTokens package]) ++
        cs.flatMap fun c : ClassLine => [[], markTokens, c.lineTokens])).flatten =
          packageTokens package ++ cs.flatMap (·.tokens) := by
      cases package <;> simp [cs, packageTokens, ClassLine.tokens]
    rw [← htokens]
    exact lexes_lines hlines
  obtain ⟨u, hparse, hu⟩ := parse_of_lexes hlexes (noDocs_tokens package cs) (reads_unit package cs)
  obtain ⟨hupackage, himports, hdecls⟩ := hu
  refine ⟨u, hparse, ?_, himports, head, tail, hname, hdecls⟩
  have hdotted : u.package.map (·.dotted) =
      (u.package.map fun q => q.segments.map Name.text).map (Text.joinWith ".") := by
    rw [Option.map_map]
    rfl
  rw [hdotted, hupackage]
  -- the package that is read is the one of the plan, or none where that is empty
  by_cases h : package = []
  · rw [if_pos h, if_pos (hempty.mp h), Option.map_none]
  · rw [if_neg h, if_neg (fun he => h (hempty.mpr he)), Option.map_some, hpackage]

end Stub

end ActorIdl
