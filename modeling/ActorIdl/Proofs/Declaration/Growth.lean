import ActorIdl.Proofs.Declaration.Entries
import ActorIdl.Proofs.Declaration.Subject
import Mathlib.Data.List.Nodup
/-! # Tables that grow

    Units are entered one after the other, and nothing that is entered later changes what is there.
    So the table of a longer list of units begins with the declarations of the shorter one, under
    the same numbers and names; only what they refer to can differ, since more is declared.

    The qualified names of a table are pairwise distinct: a name that is taken is not entered again.
    Every subject of a table is declared, at whatever depth, in the tree of a root unit. -/

namespace ActorIdl

/-! ## Distinct names -/

section
variable (u : SourceUnit)

mutual

theorem nodup_enterMember (outers : List Outer) {names : List String} (m : Syntax.Member)
    (h : names.Nodup) : (names ++ entryNames (enterMember u outers (.of names) m).entries).Nodup :=
  match m with
  | .method _ => by
    rw [enterMember]
    simpa [entryNames] using h
  | .nested head members => by
    by_cases hname : qualifiedNameIn u.package outers head.name.text ∈ names
    · rw [(enterMember_nested_of_mem u members (Register.mem_of.mpr hname)).1]
      simpa [entryNames] using h
    · rw [(enterMember_nested_of_not_mem u members (mt Register.mem_of.mp hname)).1,
        Register.enter_of]
      let e := Entry.made u outers (.of names) head members
      -- the new name is not among those before, and the members go on from there
      have hnames : (names ++ [e.qualifiedName]).Nodup := by
        refine List.nodup_append.mpr ⟨h, List.nodup_singleton _, ?_⟩
        intro name hmem other hother heq
        rw [heq, List.mem_singleton.mp hother] at hmem
        exact hname hmem
      have ih := nodup_enterMembers (e.asOuter :: outers) members hnames
      rw [List.append_assoc] at ih
      exact ih

theorem nodup_enterMembers (outers : List Outer) {names : List String} (ms : List Syntax.Member)
    (h : names.Nodup) : (names ++ entryNames (enterMembers u outers (.of names) ms).entries).Nodup :=
  match ms with
  | [] => by
    rw [enterMembers]
    simpa [entryNames] using h
  | m :: ms => by
    have ih := nodup_enterMembers outers ms (nodup_enterMember outers m h)
    rw [enterMembers_cons]
    dsimp only
    rw [Register.enterAll_of, entryNames_append, ← List.append_assoc]
    exact ih

end

end

theorem nodup_enterUnits {names : List String} (us : List SourceUnit) (h : names.Nodup) :
    (names ++ entryNames (enterUnits (.of names) us).entries).Nodup := by
  induction us generalizing names with
  | nil => simpa [enterUnits, entryNames] using h
  | cons u us ih =>
    have hfirst := nodup_enterMembers u [] (u.unit.decls.map (·.toMember)) h
    have hrest := ih hfirst
    rw [enterUnits_cons]
    dsimp only
    rw [Register.enterAll_of, entryNames_append, ← List.append_assoc]
    exact hrest

theorem nodup_entryNames (units : List SourceUnit) :
    (entryNames (entriesOf units)).Nodup := by
  have h := nodup_enterUnits units List.nodup_nil
  rwa [List.nil_append] at h

namespace Table

theorem map_qualifiedName_build (units : List SourceUnit) :
    (build units).1.decls.map (·.qualifiedName) = entryNames (entriesOf units) := by
  rw [decls_build]
  exact List.map_map

theorem getElem?_entryNames_iff {units : List SourceUnit} {name : String} {id : DeclId} :
    (entryNames (entriesOf units))[id]? = some name ↔
      ∃ d, (build units).1.get? id = some d ∧ d.qualifiedName = name := by
  rw [get?_build, entryNames, List.getElem?_map, Option.map_eq_some_iff]
  constructor
  · rintro ⟨e, he, rfl⟩
    exact ⟨_, congrArg (Option.map _) he, rfl⟩
  · rintro ⟨d, hd, rfl⟩
    obtain ⟨e, he, rfl⟩ := Option.map_eq_some_iff.mp hd
    exact ⟨e, he, rfl⟩

/-- Looking up a name leads to the declaration that has it. -/
theorem lookup_build_eq_some_iff {units : List SourceUnit} {name : String} {id : DeclId} :
    (build units).1.lookup name = some id ↔
      ∃ d, (build units).1.get? id = some d ∧ d.qualifiedName = name := by
  rw [lookup, byName_build, NameIndex.find?_of_eq_some_iff (nodup_entryNames units),
    getElem?_entryNames_iff]

theorem lookup_build_eq_none_iff {units : List SourceUnit} {name : String} :
    (build units).1.lookup name = none ↔ name ∉ entryNames (entriesOf units) := by
  rw [lookup, byName_build, ← List.contains_iff_mem, ← NameIndex.contains_of, NameIndex.contains,
    Option.not_isSome_iff_eq_none]

/-- A qualified name is that of one declaration. -/
theorem eq_of_qualifiedName_eq {units : List SourceUnit} {i j : DeclId} {d d' : Declaration}
    (hi : (build units).1.get? i = some d) (hj : (build units).1.get? j = some d')
    (h : d.qualifiedName = d'.qualifiedName) : i = j := by
  have hi := lookup_build_eq_some_iff.mpr ⟨d, hi, h⟩
  have hj := lookup_build_eq_some_iff.mpr ⟨d', hj, rfl⟩
  exact Option.some.inj (hi.symm.trans hj)

end Table

/-! ## More units -/

/-- What is entered first is not changed by what is entered after it. -/
theorem enterUnits_append (r : Register) (us vs : List SourceUnit) :
    enterUnits r (us ++ vs) =
      ⟨(enterUnits r us).members ++
          (enterUnits (enterUnits r us).register vs).members,
        (enterUnits r us).entries ++
          (enterUnits (enterUnits r us).register vs).entries,
        (enterUnits r us).reports ++
          (enterUnits (enterUnits r us).register vs).reports,
        (enterUnits (enterUnits r us).register vs).register⟩ := by
  induction us generalizing r with
  | nil => simp [enterUnits]
  | cons u us ih =>
    rw [List.cons_append, enterUnits, enterUnits]
    dsimp only
    rw [ih, List.append_assoc, List.append_assoc, List.append_assoc]

theorem mem_enteredIds {members : List EnteredMember} {id : DeclId} :
    id ∈ enteredIds members ↔ .type id ∈ members := by
  rw [enteredIds, List.mem_filterMap]
  constructor
  · rintro ⟨m, hm, hid⟩
    cases m with
    | method m => cases hid
    | type id' =>
      cases hid
      exact hm
  · exact fun h => ⟨_, h, rfl⟩

/-- What is entered for units is what is entered for each of them behind those before it. -/
theorem mem_entries_enterUnits {r : Register} {us : List SourceUnit} {e : Entry} :
    e ∈ (enterUnits r us).entries ↔ ∃ before u after, us = before ++ u :: after ∧
      e ∈ (enterUnit (enterUnits r before).register u).entries := by
  constructor
  · intro h
    induction us generalizing r with
    | nil => cases h
    | cons u us ih =>
      rcases List.mem_append.mp h with h | h
      · refine ⟨[], u, us, rfl, ?_⟩
        simpa [enterUnits, entryNames] using h
      · obtain ⟨before, u', after, rfl, he⟩ := ih h
        exact ⟨u :: before, u', after, rfl, he⟩
  · rintro ⟨before, u, after, rfl, he⟩
    rw [enterUnits_append r before (u :: after)]
    exact List.mem_append_right _ (List.mem_append_left _ he)

/-- The roots are the top-level declarations of the root units. -/
theorem mem_members_enterUnits {r : Register} {us : List SourceUnit} {id : DeclId} :
    id ∈ (enterUnits r us).members ↔ ∃ before u after, us = before ++ u :: after ∧
      u.isRoot = true ∧ .type id ∈
        (enterUnit (enterUnits r before).register u).members := by
  constructor
  · intro h
    -- unit by unit, with the names entered up to it
    induction us generalizing r with
    | nil => cases h
    | cons u us ih =>
      rcases List.mem_append.mp h with h | h
      · split at h
        · rename_i hroot
          refine ⟨[], u, us, rfl, hroot, ?_⟩
          simpa [enterUnits, entryNames] using mem_enteredIds.mp h
        · cases h
      · obtain ⟨before, u', after, rfl, hroot, hm⟩ := ih h
        exact ⟨u :: before, u', after, rfl, hroot, hm⟩
  · rintro ⟨before, u, after, rfl, hroot, hm⟩
    rw [enterUnits_append r before (u :: after)]
    refine List.mem_append_right _ (List.mem_append_left _ ?_)
    rw [if_pos hroot]
    exact mem_enteredIds.mpr hm

/-- A unit that is or is not one of those that a round is about. -/
def SourceUnit.asRoot (isRoot : Bool) (u : SourceUnit) : SourceUnit := { u with isRoot }

section
variable (isRoot : Bool) (u : SourceUnit)

mutual

theorem enterMember_asRoot (outers : List Outer) (r : Register) (m : Syntax.Member) :
    enterMember (u.asRoot isRoot) outers r m = enterMember u outers r m :=
  match m with
  | .method _ => by rw [enterMember, enterMember]
  | .nested head members => by
    have ih := fun outers r => enterMembers_asRoot outers r members
    rw [enterMember, enterMember]
    simp only [ih]
    rfl

theorem enterMembers_asRoot (outers : List Outer) (r : Register)
    (ms : List Syntax.Member) :
    enterMembers (u.asRoot isRoot) outers r ms = enterMembers u outers r ms :=
  match ms with
  | [] => by rw [enterMembers, enterMembers]
  | m :: ms => by
    rw [enterMembers, enterMembers, enterMember_asRoot, enterMembers_asRoot]

end

end

/-- Which units are roots changes neither what is entered nor what is wrong with it. -/
theorem enterUnits_asRoot (isRoot : SourceUnit → Bool) (r : Register)
    (us : List SourceUnit) :
    (enterUnits r (us.map fun u => u.asRoot (isRoot u))).entries =
        (enterUnits r us).entries ∧
      (enterUnits r (us.map fun u => u.asRoot (isRoot u))).reports =
        (enterUnits r us).reports := by
  induction us generalizing r with
  | nil => exact ⟨rfl, rfl⟩
  | cons u us ih =>
    have hunit : enterUnit r (u.asRoot (isRoot u)) = enterUnit r u :=
      enterMembers_asRoot (isRoot u) u [] r _
    obtain ⟨hentries, hreports⟩ := ih (enterUnit r u).register
    rw [List.map_cons, enterUnits, enterUnits]
    dsimp only
    rw [hunit, hentries, hreports]
    exact ⟨rfl, rfl⟩

/-- What a declaration has whatever else is declared: its names and its place. -/
structure Declaration.KeepsNames (d d' : Declaration) : Prop where
  kind : d'.kind = d.kind
  simpleName : d'.simpleName = d.simpleName
  qualifiedName : d'.qualifiedName = d.qualifiedName
  binaryName : d'.binaryName = d.binaryName
  package : d'.package = d.package
  location : d'.location = d.location

/-- The declarations of some units keep their numbers and their names when others follow. -/
theorem Table.get?_build_append {us vs ws : List SourceUnit} (isRoot : SourceUnit → Bool)
    (hws : ws = us.map fun u => u.asRoot (isRoot u)) {id : DeclId} {d : Declaration}
    (hd : (build us).1.get? id = some d) :
    ∃ d', (build (ws ++ vs)).1.get? id = some d' ∧ d.KeepsNames d' := by
  rw [get?_build] at hd
  obtain ⟨e, he, rfl⟩ := Option.map_eq_some_iff.mp hd
  have hentries : entriesOf (ws ++ vs) = entriesOf us ++
      (enterUnits (enterUnits .start ws).register vs).entries := by
    rw [entriesOf, enterUnits_append, hws, (enterUnits_asRoot isRoot .start us).1]
    rfl
  refine ⟨e.declared (.of (entryNames (entriesOf (ws ++ vs)))), ?_, ⟨rfl, rfl, rfl, rfl, rfl, rfl⟩⟩
  have hlt := (List.getElem?_eq_some_iff.mp he).1
  rw [get?_build, hentries, List.getElem?_append_left hlt, he, Option.map_some]

/-! ## Declarations in the trees of units -/

/-- A member of a unit, at whatever depth. -/
inductive Syntax.CompilationUnit.Contains (u : Syntax.CompilationUnit) : Syntax.Member → Prop where
  | top {d : Syntax.Decl} : d ∈ u.decls → Contains u d.toMember
  | inside {head : Syntax.DeclHead} {members : List Syntax.Member} {m : Syntax.Member} :
      Contains u (.nested head members) → m ∈ members → Contains u m

/-- A declaration of the tree of a unit, with the file of the unit. -/
def SourceUnit.Declares (u : SourceUnit) (d : Declaration) : Prop :=
  ∃ head members, u.unit.Contains (.nested head members) ∧ d.kind = head.kind ∧
    d.simpleName = head.name.text ∧ d.package = u.package ∧
    d.location = ⟨u.file, head.name.span⟩

section
variable (u : SourceUnit)

theorem declares_of_mem_enterUnit {r : Register} {e : Entry}
    (he : e ∈ (enterUnit r u).entries) (byName : NameIndex) :
    u.Declares (e.declared byName) := by
  have hcontains : ∃ members, u.unit.Contains (.nested e.head members) := by
    refine forall_mem_enterMembers u (I := fun _ m => u.unit.Contains m)
      (P := fun e => ∃ members, u.unit.Contains (.nested e.head members)) ?_ [] r _ ?_ e he
    · intro outers r head members h
      exact ⟨⟨members, h⟩, fun m hm => .inside h hm⟩
    · intro m hm
      obtain ⟨d, hd, rfl⟩ := List.mem_map.mp hm
      exact .top hd
  have hfits := fits_of_mem_enterMembers u .nil r _ e he
  obtain ⟨members, hmem⟩ := hcontains
  refine ⟨e.head, members, hmem, rfl, rfl, hfits.package, ?_⟩
  show (⟨e.file, e.head.name.span⟩ : Location) = _
  rw [hfits.file]

mutual

/-- What is nested in an entry is entered with it. -/
theorem nested_enterMember (outers : List Outer) (r : Register) (m : Syntax.Member) :
    ∀ e ∈ (enterMember u outers r m).entries, ∀ id, .type id ∈ e.members →
      ∃ e' ∈ (enterMember u outers r m).entries, e'.id = id :=
  match m with
  | .method _ => fun _ he => absurd he List.not_mem_nil
  | .nested head members => by
    intro e he id hid
    by_cases hname : qualifiedNameIn u.package outers head.name.text ∈ r
    · rw [(enterMember_nested_of_mem u members hname).1] at he
      cases he
    · rw [(enterMember_nested_of_not_mem u members hname).1] at he ⊢
      rcases List.mem_cons.mp he with rfl | he
      · obtain ⟨e', he', heq, _⟩ := entry_of_type_mem_enterMembers u hid
        exact ⟨e', List.mem_cons_of_mem _ he', heq⟩
      · obtain ⟨e', he', heq⟩ := nested_enterMembers _ _ members e he id hid
        exact ⟨e', List.mem_cons_of_mem _ he', heq⟩

theorem nested_enterMembers (outers : List Outer) (r : Register)
    (ms : List Syntax.Member) :
    ∀ e ∈ (enterMembers u outers r ms).entries, ∀ id, .type id ∈ e.members →
      ∃ e' ∈ (enterMembers u outers r ms).entries, e'.id = id :=
  match ms with
  | [] => fun _ he => absurd he List.not_mem_nil
  | m :: ms => by
    intro e he id hid
    rw [enterMembers_cons] at he ⊢
    rcases List.mem_append.mp he with he | he
    · obtain ⟨e', he', heq⟩ := nested_enterMember outers r m e he id hid
      exact ⟨e', List.mem_append_left _ he', heq⟩
    · obtain ⟨e', he', heq⟩ := nested_enterMembers outers _ ms e he id hid
      exact ⟨e', List.mem_append_right _ he', heq⟩

end

end

namespace Table

variable {units : List SourceUnit}

/-- Entered for a declaration of a unit, behind what was entered for the units before it. -/
def IsEnteredFor (units : List SourceUnit) (u : SourceUnit) (e : Entry) : Prop :=
  ∃ before after, units = before ++ u :: after ∧
    e ∈ (enterUnit (enterUnits .start before).register u).entries

theorem IsEnteredFor.mem {u : SourceUnit} {e : Entry} (h : IsEnteredFor units u e) :
    u ∈ units ∧ e ∈ entriesOf units := by
  obtain ⟨before, after, rfl, he⟩ := h
  refine ⟨List.mem_append_right _ List.mem_cons_self, ?_⟩
  rw [entriesOf, enterUnits_append]
  exact List.mem_append_right _ (List.mem_append_left _ he)

theorem isEnteredFor_of_mem_entries {e : Entry} (h : e ∈ entriesOf units) :
    ∃ u, IsEnteredFor units u e := by
  obtain ⟨before, u, after, hunits, he⟩ := mem_entries_enterUnits.mp h
  exact ⟨u, before, after, hunits, he⟩

/-- A root was entered for a root unit. -/
theorem isEnteredFor_of_mem_roots {id : DeclId} (h : id ∈ (build units).1.roots) :
    ∃ u e, u.isRoot = true ∧ IsEnteredFor units u e ∧ e.id = id := by
  obtain ⟨before, u, after, hunits, hroot, hm⟩ := mem_members_enterUnits.mp h
  obtain ⟨e, he, hid, _⟩ := entry_of_type_mem_enterMembers u hm
  exact ⟨u, e, hroot, ⟨before, after, hunits, he⟩, hid⟩

/-- Every subject was entered for a root unit. -/
theorem isEnteredFor_of_isSubject {id : DeclId} (h : (build units).1.IsSubject id) :
    ∃ u e, u.isRoot = true ∧ IsEnteredFor units u e ∧ e.id = id := by
  -- a nested declaration is entered for the unit of the one around it
  induction h with
  | root hr _ => exact isEnteredFor_of_mem_roots hr
  | @nested outer id _ hn _ ih =>
    obtain ⟨u, e, hroot, hentered, rfl⟩ := ih
    have hget : (entriesOf units)[e.id]? = some e := getElem?_of_mem_entries hentered.mem.2
    rw [nestedOf, get?_build, hget] at hn
    obtain ⟨member, hmember, hid⟩ := List.mem_filterMap.mp hn
    obtain ⟨entered, hmem, rfl⟩ := List.mem_map.mp hmember
    cases entered with
    | method m => cases hid
    | type id' =>
      cases hid
      obtain ⟨before, after, hunits, he⟩ := hentered
      obtain ⟨e', he', hid'⟩ := nested_enterMembers u [] _ _ e he id hmem
      exact ⟨u, e', hroot, ⟨before, after, hunits, he'⟩, hid'⟩

/-- Every subject is declared in a root unit. -/
theorem declares_of_isSubject {id : DeclId} {d : Declaration} (hd : (build units).1.get? id = some d)
    (h : (build units).1.IsSubject id) : ∃ u ∈ units, u.isRoot = true ∧ u.Declares d := by
  obtain ⟨u, e, hroot, hentered, rfl⟩ := isEnteredFor_of_isSubject h
  obtain ⟨hu, he⟩ := hentered.mem
  have hget : (entriesOf units)[e.id]? = some e := getElem?_of_mem_entries he
  rw [get?_build, hget, Option.map_some] at hd
  obtain ⟨before, after, _, hin⟩ := hentered
  exact ⟨u, hu, hroot, Option.some.inj hd ▸ declares_of_mem_enterUnit u hin _⟩

end Table

end ActorIdl
