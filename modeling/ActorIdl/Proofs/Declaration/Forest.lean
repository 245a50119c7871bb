import ActorIdl.Proofs.Declaration.Registration
/-! # The forest of declarations

    The table of a build is a forest.  A name leads to the one declaration that has it.  A
    declaration that stands in another one is a member of that one and of nothing else, comes behind
    it and has its name and package; one that stands in none is a member of none.  The members of a
    declaration are those that it has in the source, in the same order, without the declarations
    that are not entered.

    The methods of all declarations are numbered throughout, those of a declaration behind those of
    the declarations before it.  Each number is among the members of one declaration, once, and that
    is the declaration that the method says it is in. -/

namespace ActorIdl

/-! ## The numbers of entered places -/

section
variable {units : List SourceUnit} {id : DeclId} {p q : DeclPlace}

theorem idxOf_of_getElem? (hp : (enteredPlaces units)[id]? = some p) :
    (numbers (enteredPlaces units)).idxOf p.number = id := by
  have hnumber : (numbers (enteredPlaces units))[id]? = some p.number := by
    rw [numbers, List.getElem?_map, hp]
    rfl
  obtain ⟨hlt, heq⟩ := List.getElem?_eq_some_iff.mp hnumber
  rw [← heq]
  exact (nodup_numbers_enteredPlaces units).idxOf_getElem id hlt

theorem getElem?_idxOf (hp : p ∈ enteredPlaces units) :
    (enteredPlaces units)[(numbers (enteredPlaces units)).idxOf p.number]? = some p := by
  obtain ⟨id, hid⟩ := List.mem_iff_getElem?.mp hp
  rw [idxOf_of_getElem? hid]
  exact hid

/-- What is behind another place has the larger number in the table. -/
theorem lt_of_number_lt {id' : DeclId} (hp : (enteredPlaces units)[id]? = some p)
    (hq : (enteredPlaces units)[id']? = some q) (h : p.number < q.number) : id < id' := by
  obtain ⟨hlt, rfl⟩ := List.getElem?_eq_some_iff.mp hp
  obtain ⟨hlt', rfl⟩ := List.getElem?_eq_some_iff.mp hq
  have hsorted := List.pairwise_iff_getElem.mp (pairwise_enteredPlaces units)
  rcases Nat.lt_trichotomy id id' with hid | rfl | hid
  · exact hid
  · exact absurd h (Nat.lt_irrefl _)
  · exact absurd h (Nat.lt_asymm (hsorted id' id hlt' hlt hid))

/-- A declaration of the table is what the entered place with its number gives. -/
theorem exists_place_of_get? {d : Declaration} (hd : (Table.build units).1.get? id = some d) :
    ∃ p, (enteredPlaces units)[id]? = some p ∧ p.Gives (enteredPlaces units) d := by
  have hlt : id < (enteredPlaces units).length :=
    size_build units ▸ Table.lt_size_of_get? hd
  obtain ⟨d', hd', hgives⟩ := exists_gives_of_getElem? (List.getElem?_eq_getElem hlt)
  rw [hd] at hd'
  exact ⟨_, List.getElem?_eq_getElem hlt, Option.some.inj hd' ▸ hgives⟩

end

/-! ## Nested declarations -/

/-- The declarations among members are in the order of their places. -/
theorem sublist_placesInAll (u : SourceUnit) (outers : List (Nat × String)) (next : Nat)
    (ms : List Syntax.Member) :
    ((placeMembers u outers next ms).filterMap (·.place?)).Sublist
      (placesInAll u outers next ms) := by
  induction ms generalizing next with
  | nil => exact List.Sublist.refl _
  | cons m ms ih =>
    rw [placeMembers_cons, List.filterMap_append]
    refine List.Sublist.append ?_ (ih _)
    cases m with
    | method m => exact List.Sublist.refl _
    | nested head members =>
      rw [placesIn]
      exact (List.nil_sublist _).cons_cons _

/-- The declarations among the members of a place. -/
def DeclPlace.innerPlaces (p : DeclPlace) : List DeclPlace := p.inner.filterMap (·.place?)

theorem DeclPlace.mem_innerPlaces {p q : DeclPlace} : q ∈ p.innerPlaces ↔ .nested q ∈ p.inner := by
  rw [innerPlaces, List.mem_filterMap]
  constructor
  · rintro ⟨m, hm, hq⟩
    cases m with
    | method m => cases hq
    | nested q' =>
      cases hq
      exact hm
  · exact fun h => ⟨_, h, rfl⟩

theorem DeclPlace.nodup_innerPlaces (p : DeclPlace) : (numbers p.innerPlaces).Nodup := by
  have hsub : (numbers p.innerPlaces).Sublist
      (numbers (placesInAll p.unit (p.asOuter :: p.outers) (p.number + 1) p.members)) :=
    (sublist_placesInAll _ _ _ _).map _
  rw [numbers_placesInAll] at hsub
  exact hsub.nodup List.nodup_range'

section
variable {entered : List DeclPlace} {p : DeclPlace} {d : Declaration}

theorem DeclPlace.Gives.nested (h : p.Gives entered d) : d.nested =
    (p.innerPlaces.filter (·.number ∈ numbers entered)).map
      fun q => (numbers entered).idxOf q.number := by
  have hmembers := h.members.trans (gives_declared entered p).members.symm
  have hids : d.nested = enteredIds (p.entryIn entered).members := by
    rw [Declaration.nested, hmembers]
    refine List.filterMap_map.trans (List.filterMap_congr fun m _ => ?_)
    cases m with
    | type id => rfl
    | method m => rfl
  rw [hids]
  exact enteredIds_filterMap entered p.inner

theorem DeclPlace.Gives.nodup_nested (h : p.Gives entered d) : d.nested.Nodup := by
  rw [h.nested]
  have hnodup : (p.innerPlaces.filter (·.number ∈ numbers entered)).Pairwise
      fun q q' => q.number ≠ q'.number := (List.pairwise_map.mp p.nodup_innerPlaces).filter _
  refine List.pairwise_map.mpr (hnodup.imp_of_mem fun {q q'} hq hq' hne hidx => hne ?_)
  have hmem : q.number ∈ numbers entered := by simpa using (List.mem_filter.mp hq).2
  have hmem' : q'.number ∈ numbers entered := by simpa using (List.mem_filter.mp hq').2
  exact (List.idxOf_inj hmem).mp hidx

end

section
variable {units : List SourceUnit} {id inner : DeclId} {p q : DeclPlace} {d : Declaration}

/-- The nested declarations of a declaration are the entered ones among the members of its place. -/
theorem mem_nested_iff (hp : (enteredPlaces units)[id]? = some p)
    (hd : p.Gives (enteredPlaces units) d) :
    inner ∈ d.nested ↔ ∃ q, (enteredPlaces units)[inner]? = some q ∧ .nested q ∈ p.inner := by
  rw [hd.nested, List.mem_map]
  constructor
  · rintro ⟨q, hq, rfl⟩
    obtain ⟨hinner, hnumber⟩ := List.mem_filter.mp hq
    have hinner := DeclPlace.mem_innerPlaces.mp hinner
    have hplaces := mem_places_of_inner ((enteredPlaces_sublist units).subset
      (List.mem_of_getElem? hp)) hinner
    have hentered := mem_enteredPlaces_of_number hplaces (by simpa using hnumber)
    exact ⟨q, getElem?_idxOf hentered, hinner⟩
  · rintro ⟨q, hq, hinner⟩
    refine ⟨q, List.mem_filter.mpr ⟨DeclPlace.mem_innerPlaces.mpr hinner, ?_⟩, idxOf_of_getElem? hq⟩
    exact decide_eq_true (mem_numbers.mpr ⟨q, List.mem_of_getElem? hq, rfl⟩)

/-- A declaration among the members of a place stands in its declaration. -/
theorem enclosing_of_inner (hp : (enteredPlaces units)[id]? = some p) (hinner : .nested q ∈ p.inner)
    (hd : q.Gives (enteredPlaces units) d) : d.enclosing = some id := by
  rw [hd.enclosing, (of_nested_mem_placeMembers hinner).2.1, List.head?_cons, Option.map_some]
  exact congrArg some (idxOf_of_getElem? hp)

theorem qualifiedName_of_inner (hinner : .nested q ∈ p.inner) :
    q.qualifiedName = p.qualifiedName ++ "." ++ q.simpleName := by
  obtain ⟨hunit, houters, _⟩ := of_nested_mem_placeMembers hinner
  rw [DeclPlace.qualifiedName, hunit, houters]
  rfl

/-- What a declaration stands in is the declaration of the place that it is a member of. -/
theorem exists_outer_of_enclosing {outer : DeclId} (hq : (enteredPlaces units)[id]? = some q)
    (hd : q.Gives (enteredPlaces units) d) (houter : d.enclosing = some outer) :
    ∃ p, (enteredPlaces units)[outer]? = some p ∧ .nested q ∈ p.inner := by
  have hentered := List.mem_of_getElem? hq
  have hplaces := (enteredPlaces_sublist units).subset hentered
  rw [hd.enclosing] at houter
  obtain ⟨o, ho, rfl⟩ := Option.map_eq_some_iff.mp houter
  obtain ⟨os, houters⟩ := List.head?_eq_some_iff.mp ho
  obtain ⟨p, hp, hinner, rfl, _⟩ := exists_inner_of_outers_eq hplaces houters
  have hnumber := ((mem_enteredPlaces_iff hplaces).mp hentered).1 _ ho
  exact ⟨p, getElem?_idxOf (mem_enteredPlaces_of_number hp hnumber), hinner⟩

end

/-- A table whose declarations are trees: each one that stands in another is a member of that one
    alone, once, and behind it. -/
structure Table.IsForest (t : Table) : Prop where
  /-- A declaration that stands in another one is among its members once. -/
  nested : ∀ id d outer, t.get? id = some d → d.enclosing = some outer →
    ∃ o, t.get? outer = some o ∧ outer < id ∧ o.nested.count id = 1 ∧ o.package = d.package ∧
      d.qualifiedName = o.qualifiedName ++ "." ++ d.simpleName
  /-- A declaration is among the members of the one that it stands in only. -/
  enclosed : ∀ outer o, t.get? outer = some o → ∀ id ∈ o.nested,
    ∃ d, t.get? id = some d ∧ d.enclosing = some outer

theorem isForest_build (units : List SourceUnit) : (Table.build units).1.IsForest where
  nested := by
    intro id d outer hd houter
    obtain ⟨q, hq, hgives⟩ := exists_place_of_get? hd
    obtain ⟨p, hp, hinner⟩ := exists_outer_of_enclosing hq hgives houter
    obtain ⟨o, ho, hogives⟩ := exists_gives_of_getElem? hp
    refine ⟨o, ho, lt_of_number_lt hp hq (number_lt_of_inner hinner), ?_, ?_, ?_⟩
    · have hmem : id ∈ o.nested := (mem_nested_iff hp hogives).mpr ⟨q, hq, hinner⟩
      exact List.count_eq_one_of_mem hogives.nodup_nested hmem
    · rw [hogives.package, hgives.package, (of_nested_mem_placeMembers hinner).1]
    · rw [hgives.qualifiedName, hogives.qualifiedName, hgives.simpleName,
        qualifiedName_of_inner hinner]
  enclosed := by
    intro outer o ho id hid
    obtain ⟨p, hp, hogives⟩ := exists_place_of_get? ho
    obtain ⟨q, hq, hinner⟩ := (mem_nested_iff hp hogives).mp hid
    obtain ⟨d, hd, hgives⟩ := exists_gives_of_getElem? hq
    exact ⟨d, hd, enclosing_of_inner hp hinner hgives⟩

/-! ## The numbers of methods -/

/-- The arena of a table: the numbers among its members are those of its methods, each is there
    once, and it is a member of the declaration that the method says. -/
structure Table.NumbersMethods (t : Table) : Prop where
  /-- Every number among members is that of a method. -/
  valid : ∀ d ∈ t.stored, ∀ ref, .method ref ∈ d.members → ref < t.methods.size
  /-- Every method is one member of all declarations. -/
  once : ∀ ref < t.methods.size, (t.stored.flatMap (·.members)).count (.method ref) = 1
  /-- It is a member of the declaration that it says it is in. -/
  enclosing : ∀ (ref : MethodRef) (m : Method), t.methods[ref]? = some m →
    ∃ d, t.stored[m.enclosing]? = some d ∧ .method ref ∈ d.members

/-- A stored declaration stands for the entry with its number. -/
theorem exists_entry_of_stored {units : List SourceUnit} {id : DeclId} {d : StoredDeclaration}
    (hd : (Table.build units).1.stored[id]? = some d) : ∃ e, (entriesOf units)[id]? = some e ∧
      Entry.StandsFor (.of (entryNames (entriesOf units))) (Table.build units).1.methods d e := by
  obtain ⟨hlength, hstands⟩ := List.forall₂_iff_get.mp (Table.standsFor_build units)
  obtain ⟨hlt, rfl⟩ := List.getElem?_eq_some_iff.mp hd
  have hlt' : id < (entriesOf units).length := hlength ▸ hlt
  exact ⟨_, List.getElem?_eq_getElem hlt', hstands id hlt hlt'⟩

/-- A method among the members of a declaration says that it is in this declaration. -/
theorem enclosing_of_method_mem {arena : Array Method} {index : NameIndex} {d : StoredDeclaration}
    {e : Entry} (h : Entry.StandsFor index arena d e) {ref : MethodRef} {m : Method}
    (href : .method ref ∈ d.members) (hm : arena[ref]? = some m) : m.enclosing = e.id := by
  have hmem : some (.method m) ∈ d.members.map (·.member? arena) :=
    List.mem_map.mpr ⟨_, href, congrArg (Option.map _) hm⟩
  rw [h.members] at hmem
  obtain ⟨member, _, hmember⟩ := List.mem_map.mp hmem
  cases member with
  | type id => cases hmember
  | method written =>
    cases hmember
    rfl

/-- The numbers of the methods count up along the members of all declarations. -/
theorem filterMap_method?_build (units : List SourceUnit) :
    ((Table.build units).1.stored.flatMap (·.members)).filterMap (·.method?) =
      List.range (Table.build units).1.methods.size :=
  Entry.range_resolveAll _ #[] _

theorem numbersMethods_build (units : List SourceUnit) :
    (Table.build units).1.NumbersMethods := by
  have hnumbers := filterMap_method?_build units
  have hmem : ∀ ref, .method ref ∈ (Table.build units).1.stored.flatMap (·.members) ↔
      ref < (Table.build units).1.methods.size := by
    intro ref
    rw [← List.mem_range, ← hnumbers, List.mem_filterMap]
    constructor
    · exact fun h => ⟨_, h, rfl⟩
    · rintro ⟨member, hmember, href⟩
      cases member with
      | type id => cases href
      | method ref' =>
        cases href
        exact hmember
  refine ⟨fun d hd ref href => ?_, fun ref hlt => ?_, fun ref m hm => ?_⟩
  · exact (hmem ref).mp (List.mem_flatMap.mpr ⟨d, hd, href⟩)
  · have hcount := List.count_eq_one_of_mem List.nodup_range (List.mem_range.mpr hlt)
    rw [← hnumbers, List.count_filterMap] at hcount
    rw [← hcount]
    refine List.countP_congr fun member _ => ?_
    cases member with
    | type id => simp [MemberRef.method?]
    | method ref' => simp [MemberRef.method?]
  · -- the number is a member of some declaration, and the method says that it is in this one
    have hlt := (Array.getElem?_eq_some_iff.mp hm).1
    obtain ⟨d, hd, href⟩ := List.mem_flatMap.mp ((hmem ref).mpr hlt)
    obtain ⟨id, hid⟩ := List.mem_iff_getElem?.mp hd
    obtain ⟨e, he, hstands⟩ := exists_entry_of_stored hid
    rw [enclosing_of_method_mem hstands href hm, id_of_getElem? he]
    exact ⟨d, hid, href⟩

/-! ## The forest -/

/-- A declaration among the members of an entered one is entered unless its name is taken. -/
theorem mem_numbers_iff_of_inner {units : List SourceUnit} {p q : DeclPlace}
    (hp : p ∈ enteredPlaces units) (hinner : .nested q ∈ p.inner) :
    q.number ∈ numbers (enteredPlaces units) ↔ ∀ q' ∈ enteredPlaces units,
      q'.number < q.number → q'.qualifiedName ≠ q.qualifiedName := by
  have hq := mem_places_of_inner ((enteredPlaces_sublist units).subset hp) hinner
  have hopen : q.IsOpenIn (enteredPlaces units) := by
    intro o ho
    rw [(of_nested_mem_placeMembers hinner).2.1, List.head?_cons, Option.mem_some] at ho
    exact ho ▸ mem_numbers.mpr ⟨p, hp, rfl⟩
  constructor
  · exact fun h => ((mem_enteredPlaces_iff hq).mp (mem_enteredPlaces_of_number hq h)).2
  · exact fun h => mem_numbers.mpr ⟨q, (mem_enteredPlaces_iff hq).mpr ⟨hopen, h⟩, rfl⟩

/-- The table of a build is a forest with an index of its names and numbered methods, and each of
    its declarations has the members of its place in their order but for those whose name is
    taken. -/
theorem forest_of_build (units : List SourceUnit) :
    let t := (Table.build units).1
    let entered := enteredPlaces units
    (∀ name id, t.lookup name = some id ↔ ∃ d, t.get? id = some d ∧ d.qualifiedName = name) ∧
      t.IsForest ∧ t.NumbersMethods ∧ t.size = entered.length ∧
      (∀ id p, entered[id]? = some p → ∃ d, t.get? id = some d ∧ p.Gives entered d) ∧
      ∀ p ∈ entered, ∀ q, .nested q ∈ p.inner → (q.number ∈ numbers entered ↔
        ∀ q' ∈ entered, q'.number < q.number → q'.qualifiedName ≠ q.qualifiedName) :=
  ⟨fun _ _ => Table.lookup_build_eq_some_iff, isForest_build units, numbersMethods_build units,
    size_build units, fun _ _ hp => exists_gives_of_getElem? hp,
    fun _ hp _ hinner => mem_numbers_iff_of_inner hp hinner⟩

end ActorIdl
