import ActorIdl.Proofs.Declaration.BinaryNames
/-! # The rules of names

    A reference denotes a declaration by where declarations stand: in which other one, or in which
    package if in none.  `Site` states these rules over the entries of a table and does not look at
    how their qualified names are spelled.  The resolver knows nothing but the spellings.  It puts
    names together with dots, and whatever is declared under the result counts as nested in what is
    before the last dot, or as a part of that package.

    The two agree as long as no text is the name of both a package and a declaration.  Where a class
    has the name of a package, the resolver takes the declarations of the package for members of the
    class. -/

namespace ActorIdl

open Syntax (QualifiedName TypeExpr AnnotationExpr)

/-! ## What a reference denotes -/

/-- Where a reference stands, among all that is declared. -/
structure Site where
  entries : List Entry
  /-- The declarations around the reference, innermost first. -/
  outers : List Outer
  package : String
  imports : List QualifiedName

namespace Site

variable (s : Site)

/-- The member declaration of a simple name. -/
def memberOf? (outer : Outer) (simple : String) : Option Entry :=
  s.entries.find? fun e => e.outers.head? = some outer ∧ e.simpleName = simple

/-- The top-level declaration of a simple name in a package. -/
def topLevel? (package simple : String) : Option Entry :=
  s.entries.find? fun e => e.outers = [] ∧ e.package = package ∧ e.simpleName = simple

/-- The member declaration of a simple name in the declaration of a qualified name. -/
def memberNamed? (qualifiedName simple : String) : Option Entry :=
  (s.entries.find? fun e => e.qualifiedName = qualifiedName).bind fun outer =>
    s.memberOf? outer.asOuter simple

/-- A declaration around the reference gives its members and then itself. -/
def around? (simple : String) : Option String :=
  s.outers.findSome? fun outer =>
    (s.memberOf? outer simple).map (·.qualifiedName) <|>
      if outer.simpleName = simple then some outer.qualifiedName else none

def packaged? (simple : String) : Option String :=
  (s.topLevel? s.package simple).map (·.qualifiedName)

/-- The last import of a name that ends in the simple one. -/
def imported? (simple : String) : Option String :=
  (s.imports.filter (·.last = simple)).getLast?.map (·.dotted)

def implicit? (simple : String) : Option String :=
  Library.implicitPackages.findSome? fun package =>
    (s.topLevel? package simple).map (·.qualifiedName)

/-- What the first segment of a reference denotes. -/
def head? (simple : String) : Option String :=
  s.around? simple <|> s.packaged? simple <|> s.imported? simple <|> s.implicit? simple

/-- What further segments denote, each a member of the declaration found so far. -/
def below? (qualifiedName : String) : List Syntax.Name → Option String
  | [] => some qualifiedName
  | segment :: rest =>
    (s.memberNamed? qualifiedName segment.text).bind fun member =>
      below? member.qualifiedName rest

/-- The name that a reference denotes, the one that is written if it denotes nothing. -/
def denote (q : QualifiedName) : String :=
  if q.tail = [] ∧ Library.isPrimitive q.head.text then q.head.text
  else ((s.head? q.head.text).bind fun found => s.below? found q.tail).getD q.dotted

/-- What can be reached by a reference: what is around it, what is at the top level of its package
    or of one that needs no import, what is imported, and the members of all these. -/
inductive Reaches : String → Prop where
  | around {outer : Outer} : outer ∈ s.outers → Reaches outer.qualifiedName
  | topLevel {e : Entry} : e ∈ s.entries → e.outers = [] →
      e.package = s.package ∨ e.package ∈ Library.implicitPackages → Reaches e.qualifiedName
  | imported {i : QualifiedName} : i ∈ s.imports → Reaches i.dotted
  | member {outer e : Entry} : outer ∈ s.entries → Reaches outer.qualifiedName → e ∈ s.entries →
      e.outers.head? = some outer.asOuter → Reaches e.qualifiedName

end Site

/-! ## Declarations by what their references denote -/

section
variable (denote : QualifiedName → String)

mutual

/-- A type with what its names denote. -/
def Syntax.TypeExpr.denoted : TypeExpr → TypeRef
  | .mk name args dims _ => .mk (denote name) (denotedTypes args) dims

def Syntax.TypeExpr.denotedTypes : List TypeExpr → List TypeRef
  | [] => []
  | t :: ts => t.denoted :: denotedTypes ts

end

def Syntax.AnnotationExpr.denoted (a : AnnotationExpr) : AnnotationRef := ⟨denote a.name, a.args⟩

def Syntax.Method.denoted (enclosing : DeclId) (file : FileId) (m : Syntax.Method) :
    ActorIdl.Method where
  name := m.name.text
  doc := m.doc
  annotations := m.annotations.map (·.denoted denote)
  returnType := m.returnType.denoted denote
  params := m.params.map fun p => ⟨p.name.text, p.type.denoted denote⟩
  enclosing
  location := ⟨file, m.span⟩

end

namespace Entry

variable (entries : List Entry)

/-- A declaration is not around what is in front of its body. -/
def headSite (e : Entry) : Site := ⟨entries, e.outers, e.package, e.imports⟩

def bodySite (e : Entry) : Site := ⟨entries, e.asOuter :: e.outers, e.package, e.imports⟩

/-- The declaration of an entry with what its references denote. -/
def denoted (e : Entry) : Declaration :=
  let denote := (e.headSite entries).denote
  let isClass := e.head.kind = .classType
  let extended := e.head.extended.map (·.denoted denote)
  let implemented := e.head.implemented.map (·.denoted denote)
  { kind := e.head.kind
    simpleName := e.simpleName
    qualifiedName := e.qualifiedName
    binaryName := e.binaryName
    package := e.package
    doc := e.head.doc
    isAbstract := e.head.isAbstract
    annotations := e.head.annotations.map (·.denoted denote)
    interfaces := if isClass then implemented else extended
    superclass := if isClass then extended.head? else none
    members := e.members.map fun m =>
      match m with
      | .type id => .type id
      | .method m => .method (m.denoted (e.bodySite entries).denote e.id e.file)
    enclosing := e.outers.head?.map (·.id)
    location := ⟨e.file, e.head.name.span⟩ }

end Entry

/-! ## Names of members and of packages -/

/-- No text is the name both of a package and of a declaration, be the package one that has
    declarations or one that needs no import.  What a declaration imports is not a package that has
    declarations either. -/
structure PackagesApart (entries : List Entry) : Prop where
  declared : ∀ e ∈ entries, ∀ e' ∈ entries, e.package ≠ e'.qualifiedName
  implicit : ∀ package ∈ Library.implicitPackages, ∀ e ∈ entries, package ≠ e.qualifiedName
  imported : ∀ e ∈ entries, ∀ i ∈ e.imports, ∀ e' ∈ entries, e'.package ≠ i.dotted

theorem mem_of_find?_decide {α : Type} {P : α → Prop} [DecidablePred P] {xs : List α} {x : α}
    (h : (xs.find? fun x => decide (P x)) = some x) : x ∈ xs ∧ P x :=
  ⟨List.mem_of_find?_eq_some h, by simpa using List.find?_some h⟩

theorem find?_qualifiedName {entries : List Entry} {p : Entry → Bool} {name : String}
    (hp : ∀ e ∈ entries, p e = true → e.qualifiedName = name)
    (hname : name ∈ entryNames entries → ∃ e ∈ entries, p e = true) :
    (entries.find? p).map (·.qualifiedName) =
      if (entryNames entries).contains name then some name else none := by
  cases hfind : entries.find? p with
  | none =>
    have hnone : ∀ e ∈ entries, ¬ p e = true := List.find?_eq_none.mp hfind
    rw [if_neg]
    · rfl
    · intro hcontains
      obtain ⟨e, he, hpe⟩ := hname (List.contains_iff_mem.mp hcontains)
      exact hnone e he hpe
  | some e =>
    have he : e ∈ entries := List.mem_of_find?_eq_some hfind
    have heq : e.qualifiedName = name := hp e he (List.find?_some hfind)
    rw [if_pos, Option.map_some, heq]
    rw [List.contains_iff_mem, ← heq]
    exact List.mem_map_of_mem he

section
variable {units : List SourceUnit}

theorem eq_of_entry_qualifiedName_eq {e e' : Entry} (he : e ∈ entriesOf units)
    (he' : e' ∈ entriesOf units) (h : e.qualifiedName = e'.qualifiedName) : e = e' :=
  List.inj_on_of_nodup_map (nodup_entryNames units) he he' h

/-- A member has its name from what it is a member of. -/
theorem qualifiedName_of_member {e : Entry} (he : e ∈ entriesOf units) {outer : Outer}
    (h : e.outers.head? = some outer) :
    e.qualifiedName = outer.qualifiedName ++ "." ++ e.simpleName := by
  obtain ⟨u, _, hfits, _⟩ := fits_of_mem_enterUnits he
  obtain ⟨os, houters⟩ := List.head?_eq_some_iff.mp h
  rw [hfits.qualifiedName, houters]
  rfl

/-- A top-level declaration has its name from its package. -/
theorem qualifiedName_of_topLevel {e : Entry} (he : e ∈ entriesOf units) (h : e.outers = []) :
    e.qualifiedName = qualify e.package e.simpleName := by
  obtain ⟨u, _, hfits, _⟩ := fits_of_mem_enterUnits he
  rw [hfits.qualifiedName, h, hfits.package]
  rfl

variable (hwell : ∀ u ∈ units, u.unit.WellNamed)
include hwell

theorem wellNamed_of_mem_entriesOf {e : Entry} (he : e ∈ entriesOf units) : e.WellNamed := by
  obtain ⟨u, hu, _, hwellNamed⟩ := fits_of_mem_enterUnits he
  exact hwellNamed (hwell u hu)

theorem no_dot_of_mem_entriesOf {e : Entry} (he : e ∈ entriesOf units) :
    '.' ∉ e.simpleName.toList :=
  (wellNamed_of_mem_entriesOf hwell he).head.name.1.not_mem (by decide)

/-- What is declared under a name with a dot is a member of what is before the dot, unless that is
    a package. -/
theorem exists_member_of_mem_entryNames {name simple : String} (hsimple : '.' ∉ simple.toList)
    (hname : ∀ e ∈ entriesOf units, e.package ≠ name)
    (h : name ++ "." ++ simple ∈ entryNames (entriesOf units)) :
    ∃ outer ∈ entriesOf units, outer.qualifiedName = name ∧
      ∃ e ∈ entriesOf units, e.outers.head? = some outer.asOuter ∧ e.simpleName = simple := by
  obtain ⟨e, he, heq⟩ := List.mem_map.mp h
  have hdot := no_dot_of_mem_entriesOf hwell he
  cases houters : e.outers with
  | nil =>
    -- at the top level what is before the dot is the package
    exfalso
    rw [qualifiedName_of_topLevel he houters] at heq
    unfold qualify at heq
    split at heq
    · rw [heq] at hdot
      simp at hdot
    · have hlast := eq_of_append_dot_eq hdot hsimple heq
      rw [hlast, String.append_left_inj, String.append_left_inj] at heq
      exact hname e he heq
  | cons o os =>
    obtain ⟨outer, houter, rfl⟩ := outers_of_mem_entries he o (houters ▸ List.mem_cons_self)
    have hhead : e.outers.head? = some outer.asOuter := by rw [houters, List.head?_cons]
    rw [qualifiedName_of_member he hhead] at heq
    have hlast := eq_of_append_dot_eq hdot hsimple heq
    rw [hlast, String.append_left_inj, String.append_left_inj] at heq
    exact ⟨outer, houter, heq, e, he, hhead, hlast⟩

/-- What is declared under a name in a package is at the top level of it, unless the package has
    the name of a declaration. -/
theorem exists_topLevel_of_mem_entryNames {package simple : String}
    (hsimple : '.' ∉ simple.toList)
    (hpackage : ∀ e ∈ entriesOf units, package ≠ e.qualifiedName)
    (h : qualify package simple ∈ entryNames (entriesOf units)) :
    ∃ e ∈ entriesOf units, e.outers = [] ∧ e.package = package ∧ e.simpleName = simple := by
  obtain ⟨e, he, heq⟩ := List.mem_map.mp h
  have hdot := no_dot_of_mem_entriesOf hwell he
  cases houters : e.outers with
  | nil =>
    rw [qualifiedName_of_topLevel he houters] at heq
    obtain ⟨hpackage, hlast⟩ := qualify_inj hdot hsimple heq
    exact ⟨e, he, houters, hpackage, hlast⟩
  | cons o os =>
    -- in front of the name of a nested declaration is that of the one around it, which is no
    -- package
    exfalso
    obtain ⟨outer, houter, rfl⟩ := outers_of_mem_entries he o (houters ▸ List.mem_cons_self)
    have hhead : e.outers.head? = some outer.asOuter := by rw [houters, List.head?_cons]
    rw [qualifiedName_of_member he hhead] at heq
    unfold qualify at heq
    split at heq
    · rw [← heq] at hsimple
      simp at hsimple
    · have hlast := eq_of_append_dot_eq hdot hsimple heq
      rw [hlast, String.append_left_inj, String.append_left_inj] at heq
      exact hpackage outer houter heq.symm

end

/-! ## The resolver and the rules -/

theorem findSome?_eq_of_forall_mem {α β : Type} {f g : α → Option β} {xs : List α}
    (h : ∀ x ∈ xs, f x = g x) : xs.findSome? f = xs.findSome? g := by
  induction xs with
  | nil => rfl
  | cons x xs ih =>
    obtain ⟨hx, hxs⟩ := List.forall_mem_cons.mp h
    rw [List.findSome?_cons, List.findSome?_cons, hx, ih hxs]

theorem ne_empty_of_mem_implicitPackages {package : String}
    (h : package ∈ Library.implicitPackages) : package ≠ "" := by
  rintro rfl
  revert h
  decide

namespace Site

variable {s : Site} {units : List SourceUnit}

/-- The same place for the resolver, which knows the names of what is declared. -/
def scope (s : Site) : Scope := ⟨.of (entryNames s.entries), s.outers, s.package, s.imports⟩

theorem declares_scope (s : Site) (name : String) :
    s.scope.declares name = (entryNames s.entries).contains name := NameIndex.contains_of _ _

/-- A place among the declarations of units, with its package apart from them and its imports apart
    from their packages. -/
structure StandsIn (s : Site) (units : List SourceUnit) : Prop where
  entries : s.entries = entriesOf units
  outers : ∀ o ∈ s.outers, ∃ e ∈ entriesOf units, e.asOuter = o
  package : ∀ e ∈ entriesOf units, s.package ≠ e.qualifiedName
  imports : ∀ i ∈ s.imports, ∀ e ∈ entriesOf units, e.package ≠ i.dotted

theorem mem_of_memberNamed? {name simple : String} {e : Entry}
    (h : s.memberNamed? name simple = some e) :
    e ∈ s.entries ∧ ∃ outer ∈ s.entries, outer.qualifiedName = name ∧
      e.outers.head? = some outer.asOuter := by
  obtain ⟨outer, houter, hmember⟩ := Option.bind_eq_some_iff.mp h
  obtain ⟨houter, hname⟩ := mem_of_find?_decide houter
  obtain ⟨he, hhead, _⟩ := mem_of_find?_decide hmember
  exact ⟨he, outer, houter, hname, hhead⟩

theorem imported?_eq (s : Site) (simple : String) :
    s.scope.imported? simple = s.imported? simple := by
  unfold Scope.imported? imported?
  rw [List.getLast?_filter]
  rfl

section
variable (hwell : ∀ u ∈ units, u.unit.WellNamed) (hapart : PackagesApart (entriesOf units))
  (hs : s.StandsIn units)
include hwell hapart hs

theorem memberOf?_eq {outer : Entry} (houter : outer ∈ entriesOf units) {simple : String}
    (hsimple : '.' ∉ simple.toList) :
    (s.memberOf? outer.asOuter simple).map (·.qualifiedName) =
      if s.scope.declares (outer.qualifiedName ++ "." ++ simple) then
        some (outer.qualifiedName ++ "." ++ simple) else none := by
  unfold memberOf?
  rw [declares_scope, hs.entries]
  refine find?_qualifiedName ?_ fun h => ?_
  · intro e he hmember
    obtain ⟨hhead, rfl⟩ := of_decide_eq_true hmember
    exact qualifiedName_of_member he hhead
  · obtain ⟨outer', houter', heq, e, he, hhead, hlast⟩ := exists_member_of_mem_entryNames hwell
      hsimple (fun e he => hapart.declared e he outer houter) h
    rw [eq_of_entry_qualifiedName_eq houter' houter heq] at hhead
    exact ⟨e, he, decide_eq_true ⟨hhead, hlast⟩⟩

omit hapart in
theorem topLevel?_eq {package simple : String} (hsimple : '.' ∉ simple.toList)
    (hpackage : ∀ e ∈ entriesOf units, package ≠ e.qualifiedName) :
    (s.topLevel? package simple).map (·.qualifiedName) =
      if s.scope.declares (qualify package simple) then some (qualify package simple) else none := by
  unfold topLevel?
  rw [declares_scope, hs.entries]
  refine find?_qualifiedName ?_ fun h => ?_
  · intro e he htop
    obtain ⟨houters, rfl, rfl⟩ := of_decide_eq_true htop
    exact qualifiedName_of_topLevel he houters
  · obtain ⟨e, he, htop⟩ := exists_topLevel_of_mem_entryNames hwell hsimple hpackage h
    exact ⟨e, he, decide_eq_true htop⟩

/-- Nothing but a member is declared below a name that is not the name of a package. -/
theorem memberNamed?_eq {name simple : String} (hsimple : '.' ∉ simple.toList)
    (hname : ∀ e ∈ entriesOf units, e.package ≠ name) :
    (s.memberNamed? name simple).map (·.qualifiedName) =
      if s.scope.declares (name ++ "." ++ simple) then some (name ++ "." ++ simple) else none := by
  unfold memberNamed?
  rw [hs.entries]
  cases hnamed : (entriesOf units).find? fun e => e.qualifiedName = name with
  | none =>
    -- nothing has the name, so nothing can be a member of it
    rw [Option.bind_none, if_neg]
    · rfl
    · intro hdeclares
      rw [declares_scope, hs.entries, List.contains_iff_mem] at hdeclares
      obtain ⟨outer, houter, heq, _⟩ :=
        exists_member_of_mem_entryNames hwell hsimple hname hdeclares
      exact List.find?_eq_none.mp hnamed outer houter (decide_eq_true heq)
  | some outer =>
    obtain ⟨houter, rfl⟩ := mem_of_find?_decide hnamed
    exact memberOf?_eq hwell hapart hs houter hsimple

theorem around?_eq {simple : String} (hsimple : '.' ∉ simple.toList) :
    s.scope.around? simple = s.around? simple := by
  refine findSome?_eq_of_forall_mem fun o ho => ?_
  obtain ⟨outer, houter, rfl⟩ := hs.outers o ho
  have hname : outer.asOuter.qualifiedName = outer.qualifiedName := rfl
  rw [memberOf?_eq hwell hapart hs houter hsimple, hname]
  dsimp only
  split
  · rfl
  · rfl

omit hapart in
theorem packaged?_eq {simple : String} (hsimple : '.' ∉ simple.toList) :
    s.scope.packaged? simple = s.packaged? simple :=
  (topLevel?_eq hwell hs hsimple hs.package).symm

theorem implicit?_eq {simple : String} (hsimple : '.' ∉ simple.toList) :
    s.scope.implicit? simple = s.implicit? simple := by
  unfold Scope.implicit? implicit?
  rw [List.find?_eq_findSome?_guard, List.findSome?_map]
  refine findSome?_eq_of_forall_mem fun package hpackage => ?_
  have hqualify : qualify package simple = package ++ "." ++ simple :=
    if_neg (ne_empty_of_mem_implicitPackages hpackage)
  rw [topLevel?_eq hwell hs hsimple (hapart.implicit package hpackage), hqualify]
  rfl

theorem head?_eq {simple : String} (hsimple : '.' ∉ simple.toList) :
    s.scope.head? simple = s.head? simple := by
  unfold Scope.head? head?
  rw [around?_eq hwell hapart hs hsimple, packaged?_eq hwell hs hsimple,
    implicit?_eq hwell hapart hs hsimple, imported?_eq]

/-- Below a name that is not the name of a package only members are found. -/
theorem below?_eq {name : String} (hname : ∀ e ∈ entriesOf units, e.package ≠ name)
    {tail : List Syntax.Name} (htail : ∀ n ∈ tail, '.' ∉ n.text.toList) :
    s.scope.below? name tail = s.below? name tail := by
  -- name by name, and what is found is declared, so it is no package
  induction tail generalizing name with
  | nil => rfl
  | cons n ns ih =>
    obtain ⟨hn, hns⟩ := List.forall_mem_cons.mp htail
    have hfound := memberNamed?_eq hwell hapart hs hn hname
    rw [Scope.below?, below?]
    cases hmember : s.memberNamed? name n.text with
    | none =>
      rw [hmember, Option.map_none] at hfound
      rw [Option.bind_none, if_neg]
      intro hdeclares
      rw [if_pos hdeclares] at hfound
      cases hfound
    | some member =>
      rw [hmember, Option.map_some] at hfound
      split at hfound
      · rename_i hdeclares
        have hmem : member ∈ entriesOf units := hs.entries ▸ (mem_of_memberNamed? hmember).1
        have heq : member.qualifiedName = name ++ "." ++ n.text := Option.some.inj hfound
        rw [if_pos hdeclares, Option.bind_some, ← heq]
        exact ih (fun e he => hapart.declared e he member hmem) hns
      · cases hfound

omit hwell in
/-- Whatever the first segment denotes, it is not the name of a package. -/
theorem package_ne_of_head? {simple found : String} (h : s.scope.head? simple = some found) :
    ∀ e ∈ entriesOf units, e.package ≠ found := by
  intro e he
  rcases Scope.head?_cases h with hmem | ⟨o, ho, rfl⟩ | ⟨i, hi, rfl⟩
  · rw [declares_scope, hs.entries, List.contains_iff_mem] at hmem
    obtain ⟨e', he', rfl⟩ := List.mem_map.mp hmem
    exact hapart.declared e he e' he'
  · obtain ⟨e', he', rfl⟩ := hs.outers o ho
    exact hapart.declared e he e' he'
  · exact hs.imports i hi e he

/-- The resolver follows the rules. -/
theorem resolve_eq_denote {q : QualifiedName} (hq : q.WellNamed) :
    s.scope.resolve q = s.denote q := by
  have hhead : '.' ∉ q.head.text.toList := hq.head.1.not_mem (by decide)
  have htail : ∀ n ∈ q.tail, '.' ∉ n.text.toList :=
    fun n hn => (hq.tail n hn).not_mem (by decide)
  have hfound : ((s.scope.head? q.head.text).bind fun found => s.scope.below? found q.tail) =
      (s.head? q.head.text).bind fun found => s.below? found q.tail := by
    rw [← head?_eq hwell hapart hs hhead]
    refine Option.bind_congr fun found h => ?_
    exact below?_eq hwell hapart hs (package_ne_of_head? hapart hs h) htail
  unfold Scope.resolve denote
  rw [hfound]
  simp only [Bool.and_eq_true, List.isEmpty_iff]

end

/-! ## What is reached -/

section
variable (houters : ∀ o ∈ s.outers, ∃ e ∈ s.entries, e.asOuter = o)
include houters

theorem reaches_of_head? {simple found : String} (h : s.head? simple = some found) :
    s.Reaches found := by
  unfold head? at h
  simp only [Option.orElse_eq_orElse, Option.orElse_eq_or, Option.or_eq_some_iff] at h
  -- around the place, in its package, by an import or in a package that is always visible
  rcases h with h | ⟨_, h | ⟨_, h | ⟨_, h⟩⟩⟩
  · obtain ⟨o, ho, h⟩ := List.exists_of_findSome?_eq_some h
    simp only [Option.orElse_eq_orElse, Option.orElse_eq_or, Option.or_eq_some_iff] at h
    rcases h with h | ⟨_, h⟩
    · obtain ⟨e, he, rfl⟩ := Option.map_eq_some_iff.mp h
      obtain ⟨outer, houter, rfl⟩ := houters o ho
      obtain ⟨hmem, hhead, _⟩ := mem_of_find?_decide he
      exact .member houter (.around ho) hmem hhead
    · split at h
      · cases h
        exact .around ho
      · cases h
  · obtain ⟨e, he, rfl⟩ := Option.map_eq_some_iff.mp h
    obtain ⟨hmem, hnil, hpackage, _⟩ := mem_of_find?_decide he
    exact .topLevel hmem hnil (.inl hpackage)
  · obtain ⟨i, hi, rfl⟩ := Option.map_eq_some_iff.mp h
    exact .imported (List.mem_of_mem_filter (List.mem_of_getLast? hi))
  · obtain ⟨package, hpackage, h⟩ := List.exists_of_findSome?_eq_some h
    obtain ⟨e, he, rfl⟩ := Option.map_eq_some_iff.mp h
    obtain ⟨hmem, hnil, rfl, _⟩ := mem_of_find?_decide he
    exact .topLevel hmem hnil (.inr hpackage)

omit houters in
theorem reaches_of_below? {name found : String} (hname : s.Reaches name) {tail : List Syntax.Name}
    (h : s.below? name tail = some found) : s.Reaches found := by
  induction tail generalizing name with
  | nil =>
    cases h
    exact hname
  | cons n ns ih =>
    rw [below?] at h
    obtain ⟨e, hmember, hrest⟩ := Option.bind_eq_some_iff.mp h
    obtain ⟨he, outer, houter, rfl, hhead⟩ := mem_of_memberNamed? hmember
    exact ih (.member houter hname he hhead) hrest

/-- A reference denotes what is reached, or it is kept as written. -/
theorem denote_reaches (q : QualifiedName) : s.denote q = q.dotted ∨ s.Reaches (s.denote q) := by
  unfold denote
  split
  · rename_i hprimitive
    left
    rw [QualifiedName.dotted, QualifiedName.segments, hprimitive.1]
    rfl
  · cases hfound : (s.head? q.head.text).bind fun found => s.below? found q.tail with
    | none => exact .inl rfl
    | some name =>
      obtain ⟨found, hhead, hbelow⟩ := Option.bind_eq_some_iff.mp hfound
      exact .inr (reaches_of_below? (reaches_of_head? houters hhead) hbelow)

end

end Site

/-! ## The table -/

section
variable {scope : Scope} {denote : QualifiedName → String}

mutual

theorem Scope.resolveType_eq
    (h : ∀ q : QualifiedName, q.WellNamed → scope.resolve q = denote q)
    (t : TypeExpr) (ht : t.WellNamed) : scope.resolveType t = t.denoted denote :=
  match t, ht with
  | .mk name args dims span, .mk hname hargs => by
    rw [Scope.resolveType, TypeExpr.denoted, h name hname, Scope.resolveTypes_eq h args hargs]

theorem Scope.resolveTypes_eq
    (h : ∀ q : QualifiedName, q.WellNamed → scope.resolve q = denote q)
    (ts : List TypeExpr) (hts : ∀ t ∈ ts, t.WellNamed) :
    scope.resolveTypes ts = TypeExpr.denotedTypes denote ts :=
  match ts with
  | [] => rfl
  | t :: ts => by
    obtain ⟨ht, hts⟩ := List.forall_mem_cons.mp hts
    rw [Scope.resolveTypes, TypeExpr.denotedTypes, Scope.resolveType_eq h t ht,
      Scope.resolveTypes_eq h ts hts]

end

variable (h : ∀ q : QualifiedName, q.WellNamed → scope.resolve q = denote q)
include h

theorem Scope.map_resolveType_eq {ts : List TypeExpr} (hts : ∀ t ∈ ts, t.WellNamed) :
    ts.map scope.resolveType = ts.map (·.denoted denote) :=
  List.map_congr_left fun t ht => Scope.resolveType_eq h t (hts t ht)

theorem Scope.map_resolveAnnotation_eq {as : List AnnotationExpr}
    (has : ∀ a ∈ as, a.name.WellNamed) :
    as.map scope.resolveAnnotation = as.map (·.denoted denote) := by
  refine List.map_congr_left fun a ha => ?_
  rw [Scope.resolveAnnotation, AnnotationExpr.denoted, h a.name (has a ha)]

theorem Scope.resolveMethod_eq (enclosing : DeclId) (file : FileId) {m : Syntax.Method}
    (hm : m.WellNamed) : scope.resolveMethod enclosing file m = m.denoted denote enclosing file := by
  have hparams : (m.params.map fun p => (⟨p.name.text, scope.resolveType p.type⟩ : Param)) =
      m.params.map fun p => ⟨p.name.text, p.type.denoted denote⟩ :=
    List.map_congr_left fun p hp => by rw [Scope.resolveType_eq h p.type (hm.params p hp).type]
  rw [Scope.resolveMethod, Syntax.Method.denoted, hparams,
    Scope.map_resolveAnnotation_eq h hm.annotations,
    Scope.resolveType_eq h m.returnType hm.returnType]

end

namespace Entry

variable {entries : List Entry} {e : Entry} (he : e.WellNamed)
include he

theorem head_declared_eq (hhead : ∀ q : QualifiedName, q.WellNamed →
      (e.headSite entries).scope.resolve q = (e.headSite entries).denote q) :
    (e.declared (.of (entryNames entries))).annotations = (e.denoted entries).annotations ∧
      (e.declared (.of (entryNames entries))).interfaces = (e.denoted entries).interfaces ∧
      (e.declared (.of (entryNames entries))).superclass = (e.denoted entries).superclass := by
  have hextended := Scope.map_resolveType_eq hhead he.head.extended
  have himplemented := Scope.map_resolveType_eq hhead he.head.implemented
  refine ⟨Scope.map_resolveAnnotation_eq hhead he.head.annotations, ?_, ?_⟩
  · unfold declared info denoted
    cases e.head.kind
    · exact hextended
    · exact himplemented
    · exact hextended
  · unfold declared info denoted
    cases e.head.kind
    · rfl
    · exact congrArg List.head? hextended
    · rfl

theorem members_declared_eq (hbody : ∀ q : QualifiedName, q.WellNamed →
      (e.bodySite entries).scope.resolve q = (e.bodySite entries).denote q) :
    (e.declared (.of (entryNames entries))).members = (e.denoted entries).members := by
  refine List.map_congr_left fun m hm => ?_
  cases m with
  | type id => rfl
  | method m => exact congrArg _ (Scope.resolveMethod_eq hbody e.id e.file (he.methods m hm))

/-- An entry all of whose references resolve to what they denote. -/
theorem declared_eq_denoted
    (hhead : ∀ q : QualifiedName, q.WellNamed →
      (e.headSite entries).scope.resolve q = (e.headSite entries).denote q)
    (hbody : ∀ q : QualifiedName, q.WellNamed →
      (e.bodySite entries).scope.resolve q = (e.bodySite entries).denote q) :
    e.declared (.of (entryNames entries)) = e.denoted entries := by
  obtain ⟨hannotations, hinterfaces, hsuperclass⟩ := head_declared_eq he hhead
  have hmembers := members_declared_eq he hbody
  calc e.declared (.of (entryNames entries))
      = { e.denoted entries with
          annotations := (e.declared (.of (entryNames entries))).annotations
          interfaces := (e.declared (.of (entryNames entries))).interfaces
          superclass := (e.declared (.of (entryNames entries))).superclass
          members := (e.declared (.of (entryNames entries))).members } := rfl
    _ = e.denoted entries := by rw [hannotations, hinterfaces, hsuperclass, hmembers]

end Entry

section
variable {units : List SourceUnit} (hapart : PackagesApart (entriesOf units)) {e : Entry}
  (he : e ∈ entriesOf units)
include hapart he

theorem Entry.standsIn_headSite : (e.headSite (entriesOf units)).StandsIn units :=
  ⟨rfl, outers_of_mem_entries he, hapart.declared e he, hapart.imported e he⟩

theorem Entry.standsIn_bodySite : (e.bodySite (entriesOf units)).StandsIn units :=
  ⟨rfl, List.forall_mem_cons.mpr ⟨⟨e, he, rfl⟩, outers_of_mem_entries he⟩,
    hapart.declared e he, hapart.imported e he⟩

end

/-- Every reference in a table has the name of what it denotes by the rules, provided that no text
    is the name of both a package and a declaration.  It is kept as written unless it is reached
    from where it stands. -/
theorem decls_build_eq_denoted {units : List SourceUnit}
    (hwell : ∀ u ∈ units, u.unit.WellNamed) (hapart : PackagesApart (entriesOf units)) :
    (Table.build units).1.decls = (entriesOf units).map (·.denoted (entriesOf units)) ∧
      ∀ e ∈ entriesOf units,
        ∀ s ∈ [e.headSite (entriesOf units), e.bodySite (entriesOf units)],
          ∀ q : QualifiedName, q.WellNamed →
            s.scope.resolve q = q.dotted ∨ s.Reaches (s.scope.resolve q) := by
  constructor
  · rw [Table.decls_build]
    refine List.map_congr_left fun e he => ?_
    exact Entry.declared_eq_denoted (wellNamed_of_mem_entriesOf hwell he)
      (fun q => Site.resolve_eq_denote hwell hapart (Entry.standsIn_headSite hapart he))
      (fun q => Site.resolve_eq_denote hwell hapart (Entry.standsIn_bodySite hapart he))
  · intro e he s hs q hq
    have hstands : s.StandsIn units := by
      rcases List.mem_pair.mp hs with rfl | rfl
      · exact Entry.standsIn_headSite hapart he
      · exact Entry.standsIn_bodySite hapart he
    rw [Site.resolve_eq_denote hwell hapart hstands hq]
    exact Site.denote_reaches (hstands.entries ▸ hstands.outers) q

theorem wellNamed_of_mem_unitsOfText_append {hint hint' : Option String} {text text' : String} :
    ∀ u ∈ unitsOfText hint text ++ unitsOfText hint' text', u.unit.WellNamed := by
  intro u hu
  rcases List.mem_append.mp hu with hu | hu
  · exact (isParsed_of_mem_unitsOfText hu).1.wellNamed
  · exact (isParsed_of_mem_unitsOfText hu).1.wellNamed

/-- A member hides a declaration of its package in the body around it, but not in front of it. -/
theorem decls_build_eq_denoted_hiding :
    let units := unitsOfText none "package p; interface O { interface N; }" ++
      unitsOfText none
        "package q; import p.O; class M; interface U extends O.N, x.y.Z, M { M f(); class M; }"
    let decls := (Table.build units).1.decls
    (∀ u ∈ units, u.unit.WellNamed) ∧ PackagesApart (entriesOf units) ∧
      decls = (entriesOf units).map (·.denoted (entriesOf units)) ∧
      decls.map (·.supertypeNames) = [[], [], [], ["p.O.N", "x.y.Z", "q.M"], []] ∧
      decls.flatMap (·.methods.map (·.returnType.name)) = ["q.U.M"] := by
  intro units decls
  have hwell : ∀ u ∈ units, u.unit.WellNamed := wellNamed_of_mem_unitsOfText_append
  obtain ⟨hdeclared, himplicit, himported, hsupertypes, hreturns⟩ :
      (∀ e ∈ entriesOf units, ∀ e' ∈ entriesOf units, e.package ≠ e'.qualifiedName) ∧
      (∀ package ∈ Library.implicitPackages, ∀ e ∈ entriesOf units, package ≠ e.qualifiedName) ∧
      (∀ e ∈ entriesOf units, ∀ i ∈ e.imports, ∀ e' ∈ entriesOf units, e'.package ≠ i.dotted) ∧
      decls.map (·.supertypeNames) = [[], [], [], ["p.O.N", "x.y.Z", "q.M"], []] ∧
      decls.flatMap (·.methods.map (·.returnType.name)) = ["q.U.M"] := by
    unfold decls units
    rw [unitsOfText_eq _ _ rfl, unitsOfText_eq _ _ rfl]
    decide +kernel
  have hapart : PackagesApart (entriesOf units) := ⟨hdeclared, himplicit, himported⟩
  exact ⟨hwell, hapart, (decls_build_eq_denoted hwell hapart).1, hsupertypes, hreturns⟩

/-- A class that has no member `C` gets one from a package of its name. -/
theorem decls_build_ne_denoted :
    let units := unitsOfText none "package a; class b; interface I extends b.C;" ++
      unitsOfText none "package a.b; class C;"
    let decls := (Table.build units).1.decls
    let denoted := (entriesOf units).map (·.denoted (entriesOf units))
    (∀ u ∈ units, u.unit.WellNamed) ∧ decls ≠ denoted ∧
      decls.map (·.supertypeNames) = [[], ["a.b.C"], []] ∧
      denoted.map (·.supertypeNames) = [[], ["b.C"], []] := by
  intro units decls denoted
  have hwell : ∀ u ∈ units, u.unit.WellNamed := wellNamed_of_mem_unitsOfText_append
  obtain ⟨hfound, hdenoted⟩ : decls.map (·.supertypeNames) = [[], ["a.b.C"], []] ∧
      denoted.map (·.supertypeNames) = [[], ["b.C"], []] := by
    unfold decls denoted units
    rw [unitsOfText_eq _ _ rfl, unitsOfText_eq _ _ rfl]
    decide +kernel
  refine ⟨hwell, fun heq => ?_, hfound, hdenoted⟩
  rw [heq, hdenoted] at hfound
  revert hfound
  decide

end ActorIdl
