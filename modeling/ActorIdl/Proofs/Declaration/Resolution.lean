import ActorIdl.Proofs.Declaration.Canonical
import ActorIdl.Proofs.Declaration.Entries
import ActorIdl.Proofs.Syntax.Reads
/-! # What references resolve to

    A reference resolves to the name of a declaration, of one around it or of an import, or it stays
    as it is written.  In units that are well named all of these are plain names, provided that
    package hints, which are taken as they are, hold neither a comma nor an opening bracket of
    arguments.  The types in the methods of a table are then plain, so their canonical texts can be
    read back. -/

namespace ActorIdl

/-! ## Plain names -/

/-- A text without the characters that end a name inside the text of a type. -/
def IsClean (s : String) : Prop := ',' ∉ s.toList ∧ '<' ∉ s.toList

theorem isClean_empty : IsClean "" := by simp [IsClean]

theorem IsClean.append {s t : String} (hs : IsClean s) (ht : IsClean t) : IsClean (s ++ t) := by
  constructor
  · rw [String.toList_append, List.mem_append]
    exact not_or.mpr ⟨hs.1, ht.1⟩
  · rw [String.toList_append, List.mem_append]
    exact not_or.mpr ⟨hs.2, ht.2⟩

theorem PlainName.isClean {s : String} (h : PlainName s) : IsClean s := ⟨h.no_comma, h.no_less⟩

/-- What stands in front of a plain name does not change where it ends. -/
theorem PlainName.prepend {p s : String} (h : PlainName s) (hp : IsClean p) :
    PlainName (p ++ s) where
  ne_empty := fun he => h.ne_empty (String.append_eq_empty_iff.mp he).2
  no_comma := (hp.append h.isClean).1
  no_less := (hp.append h.isClean).2
  last := by
    have hne : s.toList ≠ [] := fun he => h.ne_empty (String.toList_eq_nil_iff.mp he)
    rw [String.toList_append, List.getLast?_append_of_ne_nil _ hne]
    exact h.last

theorem PlainName.dot {p s : String} (h : PlainName s) (hp : IsClean p) :
    PlainName (p ++ "." ++ s) :=
  h.prepend (hp.append (by simp [IsClean]))

theorem IsWord.isIdentRest {s : String} (h : IsWord s) :
    ∀ c ∈ s.toList, Lexer.isIdentRest c = true := by
  obtain ⟨c, cs, hs, hc, hcs⟩ := h
  rw [hs]
  refine List.forall_mem_cons.mpr ⟨?_, hcs⟩
  rw [Lexer.isIdentRest, hc, Bool.true_or]

theorem IsWord.not_mem {s : String} (h : IsWord s) {c : Char}
    (hc : Lexer.isIdentRest c = false) : c ∉ s.toList := by
  intro hmem
  rw [h.isIdentRest c hmem] at hc
  cases hc

theorem IsWord.plainName {s : String} (h : IsWord s) : PlainName s where
  ne_empty := by
    obtain ⟨c, cs, hs, _⟩ := h
    rintro rfl
    cases hs
  no_comma := h.not_mem (by decide)
  no_less := h.not_mem (by decide)
  last := by
    intro c hc
    by_contra hclose
    have hmem := List.mem_of_mem_getLast? hc
    have hclosing : (c = '>' ∨ c = '[') ∨ c = ']' := by
      simpa only [closesType, Bool.not_eq_false, Bool.or_eq_true, decide_eq_true_eq] using hclose
    rcases hclosing with (rfl | rfl) | rfl
    · exact h.not_mem (by decide) hmem
    · exact h.not_mem (by decide) hmem
    · exact h.not_mem (by decide) hmem

theorem plainName_joinWith {s : String} {ss : List String} (hs : IsWord s)
    (hss : ∀ t ∈ ss, IsWord t) : PlainName (Text.joinWith "." (s :: ss)) := by
  induction ss generalizing s with
  | nil => exact hs.plainName
  | cons t ss ih =>
    obtain ⟨ht, hss⟩ := List.forall_mem_cons.mp hss
    exact (ih ht hss).dot hs.plainName.isClean

theorem Syntax.QualifiedName.WellNamed.plainName {q : Syntax.QualifiedName} (h : q.WellNamed) :
    PlainName q.dotted := by
  refine plainName_joinWith h.head.1 fun s hs => ?_
  obtain ⟨n, hn, rfl⟩ := List.mem_map.mp hs
  exact h.tail n hn

/-! ## Names of declarations -/

/-- A unit with the tree of some source. -/
def SourceUnit.IsParsed (u : SourceUnit) : Prop :=
  ∃ source, (Syntax.parse source).unit = some u.unit

/-- The units of a source that is compiled alone. -/
def unitsOfText (hint : Option String) (text : String) : List SourceUnit :=
  (Syntax.parse text).unit.toList.map fun unit => ⟨unit, 0, hint, true⟩

theorem isParsed_of_mem_unitsOfText {hint : Option String} {text : String} {u : SourceUnit}
    (hu : u ∈ unitsOfText hint text) : u.IsParsed ∧ u.packageHint = hint := by
  obtain ⟨unit, hunit, rfl⟩ := List.mem_map.mp hu
  exact ⟨⟨text, by simpa using hunit⟩, rfl⟩

/-- The units of a source by its characters. -/
theorem unitsOfText_eq (hint : Option String) (text : String) {cs : List Char}
    (h : text = String.ofList cs) : unitsOfText hint text =
      (Syntax.parseChars cs).unit.toList.map fun unit => ⟨unit, 0, hint, true⟩ := by
  rw [unitsOfText, Syntax.parse_eq_parseChars h]

/-- The hint of a unit that names no package itself is clean. -/
def SourceUnit.HasCleanHint (u : SourceUnit) : Prop :=
  u.unit.package = none → ∀ hint ∈ u.packageHint, ActorIdl.IsClean hint

/-- A unit whose tree is well named and whose package is clean. -/
structure SourceUnit.IsClean (u : SourceUnit) : Prop where
  unit : u.unit.WellNamed
  hint : u.HasCleanHint

theorem SourceUnit.IsParsed.wellNamed {u : SourceUnit} (hu : u.IsParsed) : u.unit.WellNamed := by
  obtain ⟨_, hparse⟩ := hu
  exact Syntax.wellNamed_of_parse hparse

theorem SourceUnit.IsParsed.isClean {u : SourceUnit} (hu : u.IsParsed) (hint : u.HasCleanHint) :
    u.IsClean :=
  ⟨hu.wellNamed, hint⟩

theorem SourceUnit.IsClean.package {u : SourceUnit} (h : u.IsClean) :
    ActorIdl.IsClean u.package := by
  unfold SourceUnit.package
  cases hp : u.unit.package with
  | some q => exact (h.unit.package q hp).plainName.isClean
  | none =>
    cases hh : u.packageHint with
    | some hint => exact h.hint hp hint hh
    | none => exact isClean_empty

theorem plainName_qualify {package simple : String} (hp : IsClean package) (hs : IsWord simple) :
    PlainName (qualify package simple) := by
  unfold qualify
  split
  · exact hs.plainName
  · exact hs.plainName.dot hp

theorem plainName_qualifiedNameIn {package simple : String} {outers : List Outer}
    (hp : IsClean package) (hs : IsWord simple) (ho : ∀ o ∈ outers, PlainName o.qualifiedName) :
    PlainName (qualifiedNameIn package outers simple) := by
  cases outers with
  | nil => exact plainName_qualify hp hs
  | cons o os => exact hs.plainName.dot (ho o List.mem_cons_self).isClean

theorem OutersFit.plainName {u : SourceUnit} {outers : List Outer}
    (h : OutersFit u.package outers) (hu : u.IsClean)
    (hs : ∀ o ∈ outers, IsIdent o.simpleName) : ∀ o ∈ outers, PlainName o.qualifiedName :=
  h.forall_mem (fun _ _ ho hs => plainName_qualifiedNameIn hu.package hs.1 ho) hs

theorem Entry.Fits.plainName {u : SourceUnit} {e : Entry} (h : e.Fits u) (hu : u.IsClean)
    (he : e.WellNamed) : PlainName e.qualifiedName :=
  h.of_qualifiedNameIn (fun _ _ ho hs => plainName_qualifiedNameIn hu.package hs.1 ho) he

/-! ## References -/

namespace Scope

variable {s : Scope}

theorem declares_iff {names : List String} (h : s.byName = .of names) {name : String} :
    s.declares name = true ↔ name ∈ names := by
  rw [declares, h, NameIndex.contains_of, List.contains_iff_mem]

theorem around?_cases {simple found : String} (h : s.around? simple = some found) :
    s.declares found = true ∨ ∃ o ∈ s.outers, found = o.qualifiedName := by
  obtain ⟨o, ho, h⟩ := List.exists_of_findSome?_eq_some h
  dsimp only at h
  split at h
  · rename_i hnested
    cases h
    exact .inl hnested
  split at h
  · cases h
    exact .inr ⟨o, ho, rfl⟩
  · cases h

theorem declares_of_packaged? {simple found : String} (h : s.packaged? simple = some found) :
    s.declares found = true := by
  unfold packaged? at h
  dsimp only at h
  split at h
  · rename_i hname
    cases h
    exact hname
  · cases h

theorem imported?_cases {simple found : String} (h : s.imported? simple = some found) :
    ∃ i ∈ s.imports, found = i.dotted := by
  obtain ⟨i, hi, rfl⟩ := Option.map_eq_some_iff.mp h
  exact ⟨i, List.mem_reverse.mp (List.mem_of_find?_eq_some hi), rfl⟩

theorem declares_of_implicit? {simple found : String} (h : s.implicit? simple = some found) :
    s.declares found = true :=
  List.find?_some h

theorem head?_cases {simple found : String} (h : s.head? simple = some found) :
    s.declares found = true ∨ (∃ o ∈ s.outers, found = o.qualifiedName) ∨
      ∃ i ∈ s.imports, found = i.dotted := by
  unfold head? at h
  simp only [Option.orElse_eq_orElse, Option.orElse_eq_or, Option.or_eq_some_iff] at h
  rcases h with h | ⟨_, h | ⟨_, h | ⟨_, h⟩⟩⟩
  · rcases around?_cases h with h | h
    · exact .inl h
    · exact .inr (.inl h)
  · exact .inl (declares_of_packaged? h)
  · exact .inr (.inr (imported?_cases h))
  · exact .inl (declares_of_implicit? h)

/-- Below a declaration only declared names are found. -/
theorem below?_cases {name found : String} {tail : List Syntax.Name}
    (h : s.below? name tail = some found) : found = name ∨ s.declares found = true := by
  induction tail generalizing name with
  | nil =>
    cases h
    exact .inl rfl
  | cons n ns ih =>
    unfold below? at h
    dsimp only at h
    split at h
    · rename_i hnested
      rcases ih h with rfl | h
      · exact .inr hnested
      · exact .inr h
    · cases h

/-- What a reference can resolve to. -/
theorem resolve_cases (s : Scope) (q : Syntax.QualifiedName) :
    s.resolve q = q.dotted ∨ s.declares (s.resolve q) = true ∨
      (∃ o ∈ s.outers, s.resolve q = o.qualifiedName) ∨ ∃ i ∈ s.imports, s.resolve q = i.dotted := by
  unfold resolve
  split
  · rename_i hprimitive
    have htail : q.tail = [] := by
      simpa using (Bool.and_eq_true_iff.mp hprimitive).1
    left
    rw [Syntax.QualifiedName.dotted, Syntax.QualifiedName.segments, htail]
    rfl
  · -- what is found below a declared name is declared itself
    cases hfound : (s.head? q.head.text).bind fun found => s.below? found q.tail with
    | none => exact .inl rfl
    | some name =>
      obtain ⟨found, hhead, hbelow⟩ := Option.bind_eq_some_iff.mp hfound
      right
      rcases below?_cases hbelow with rfl | h
      · exact head?_cases hhead
      · exact .inl h

/-- What holds of the names in a scope and of a reference holds of what it resolves to. -/
theorem resolve_of_forall {P : String → Prop} (hnames : ∀ name, s.declares name = true → P name)
    (houters : ∀ o ∈ s.outers, P o.qualifiedName) (himports : ∀ i ∈ s.imports, P i.dotted)
    {q : Syntax.QualifiedName} (hq : P q.dotted) : P (s.resolve q) := by
  obtain h | h | ⟨o, ho, h⟩ | ⟨i, hi, h⟩ := s.resolve_cases q
  · rw [h]
    exact hq
  · exact hnames _ h
  · rw [h]
    exact houters o ho
  · rw [h]
    exact himports i hi

/-! ## Plain scopes -/

/-- A scope in which only plain names can be found. -/
structure IsPlain (s : Scope) : Prop where
  names : ∀ name, s.declares name = true → PlainName name
  outers : ∀ o ∈ s.outers, PlainName o.qualifiedName
  imports : ∀ i ∈ s.imports, i.WellNamed

theorem IsPlain.resolve (hs : s.IsPlain) {q : Syntax.QualifiedName} (hq : q.WellNamed) :
    PlainName (s.resolve q) :=
  resolve_of_forall hs.names hs.outers (fun i hi => (hs.imports i hi).plainName) hq.plainName

mutual

theorem IsPlain.resolveType (hs : s.IsPlain) (t : Syntax.TypeExpr) (ht : t.WellNamed) :
    (s.resolveType t).IsPlain :=
  match t, ht with
  | .mk _ args _ _, .mk hname hargs => ⟨hs.resolve hname, hs.resolveTypes args hargs⟩

theorem IsPlain.resolveTypes (hs : s.IsPlain) (ts : List Syntax.TypeExpr)
    (hts : ∀ t ∈ ts, t.WellNamed) : TypeRef.ArePlain (s.resolveTypes ts) :=
  match ts with
  | [] => trivial
  | t :: ts => ⟨hs.resolveType t (hts t List.mem_cons_self),
      hs.resolveTypes ts fun u hu => hts u (List.mem_cons_of_mem _ hu)⟩

end

end Scope

/-! ## Methods of the table -/

/-- A method of a table is written in the body of an entry, and resolved there. -/
theorem Table.exists_written_of_mem_methodsOf {units : List SourceUnit} {id : DeclId} {m : Method}
    (hm : m ∈ (build units).1.methodsOf id) : ∃ e ∈ entriesOf units, ∃ written,
      .method written ∈ e.members ∧
        m = (e.bodyScope (.of (entryNames (entriesOf units)))).resolveMethod e.id e.file written := by
  rw [methodsOf, get?_build] at hm
  cases he : (entriesOf units)[id]? with
  | none =>
    rw [he] at hm
    cases hm
  | some e =>
    rw [he] at hm
    obtain ⟨member, hmember, hm⟩ := List.mem_filterMap.mp hm
    obtain ⟨entered, hentered, rfl⟩ := List.mem_map.mp hmember
    cases entered with
    | type id => cases hm
    | method written =>
      cases hm
      exact ⟨e, List.mem_of_getElem? he, written, hentered, rfl⟩

section
variable {units : List SourceUnit} (hunits : ∀ u ∈ units, u.IsClean)
include hunits

theorem plainName_of_mem_entryNames :
    ∀ name ∈ entryNames (entriesOf units), PlainName name := by
  intro name hname
  obtain ⟨e, he, rfl⟩ := List.mem_map.mp hname
  obtain ⟨u, hu, hfits, hwell⟩ := fits_of_mem_enterUnits he
  exact hfits.plainName (hunits u hu) (hwell (hunits u hu).unit)

theorem isPlain_bodyScope {e : Entry} (he : e ∈ entriesOf units) :
    (e.bodyScope (.of (entryNames (entriesOf units)))).IsPlain := by
  obtain ⟨u, hu, hfits, hwell⟩ := fits_of_mem_enterUnits he
  have hclean := hunits u hu
  have hwell := hwell hclean.unit
  refine ⟨fun name hname => ?_, ?_, ?_⟩
  · exact plainName_of_mem_entryNames hunits name ((Scope.declares_iff rfl).mp hname)
  · exact List.forall_mem_cons.mpr ⟨hfits.plainName hclean hwell,
      hfits.outers.plainName hclean hwell.outers⟩
  · show ∀ i ∈ e.imports, i.WellNamed
    rw [hfits.imports]
    exact hclean.unit.imports

namespace Table

/-- The methods of a table have identifiers for names, and the types of their parameters are
    plain. -/
theorem isPlain_of_mem_methodsOf {id : DeclId} {m : Method}
    (hm : m ∈ (build units).1.methodsOf id) :
    IsIdent m.name ∧ ∀ p ∈ m.params, p.type.IsPlain := by
  obtain ⟨e, he, written, hentered, rfl⟩ := exists_written_of_mem_methodsOf hm
  obtain ⟨u, hu, _, hwell⟩ := fits_of_mem_enterUnits he
  have hwritten := (hwell (hunits u hu).unit).methods written hentered
  refine ⟨hwritten.name, ?_⟩
  intro p hp
  obtain ⟨p', hp', rfl⟩ := List.mem_map.mp hp
  exact (isPlain_bodyScope hunits he).resolveType p'.type (hwritten.params p' hp').type

end Table

end

end ActorIdl
