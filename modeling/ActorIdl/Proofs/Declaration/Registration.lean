import ActorIdl.Proofs.Declaration.Entering
import ActorIdl.Proofs.Declaration.Growth
import Mathlib.Data.List.Induction
/-! # What is entered and what is reported

    The declarations of a table are those of the entered places, in their order, and each has what
    its place gives it: its names and kind, the types above it as far as its kind has room for them,
    and those of its members that are entered.  What is reported goes along all places, and the
    roots are the entered places at the top level of root units. -/

namespace ActorIdl

/-! ## Roots -/

theorem enteredIds_filterMap (entered : List DeclPlace) (placed : List PlacedMember) :
    enteredIds (placed.filterMap (·.enteredIn entered)) =
      ((placed.filterMap (·.place?)).filter (·.number ∈ numbers entered)).map
        fun p => (numbers entered).idxOf p.number := by
  induction placed with
  | nil => rfl
  | cons m placed ih =>
    cases m with
    | method m => exact ih
    | nested p =>
      have hplace : (PlacedMember.nested p).place? = some p := rfl
      rw [List.filterMap_cons_some hplace]
      by_cases hp : p.number ∈ numbers entered
      · have hentered : (PlacedMember.nested p).enteredIn entered =
            some (.type ((numbers entered).idxOf p.number)) := if_pos hp
        rw [List.filterMap_cons_some hentered, List.filter_cons_of_pos (by simpa using hp),
          List.map_cons, ← ih]
        rfl
      · have hentered : (PlacedMember.nested p).enteredIn entered = none := if_neg hp
        rw [List.filterMap_cons_none hentered, List.filter_cons_of_neg (by simpa using hp), ih]

/-- At the top level of members are the members themselves. -/
theorem filter_isRoot_placesInAll (u : SourceUnit) (next : Nat) (ms : List Syntax.Member) :
    (placesInAll u [] next ms).filter (·.isRoot) =
      (if u.isRoot then placeMembers u [] next ms else []).filterMap (·.place?) := by
  induction ms generalizing next with
  | nil => simp [placesInAll, placeMembers]
  | cons m ms ih =>
    have hm : (placesIn u [] next m).filter (·.isRoot) =
        (if u.isRoot then placeMembers u [] next [m] else []).filterMap (·.place?) := by
      cases m with
      | method m => simp [placesIn, placeMembers, PlacedMember.place?]
      | nested head members =>
        -- nothing in the declaration is at the top level
        have hinner : (placesInAll u [(next, head.name.text)] (next + 1) members).filter
            (·.isRoot) = [] := by
          refine List.filter_eq_nil_iff.mpr fun q hq hroot => ?_
          obtain ⟨o, ho, _⟩ := exists_head_of_mem_placesInAll hq
          rw [DeclPlace.isRoot, Bool.and_eq_true, List.isEmpty_iff] at hroot
          rw [hroot.1] at ho
          cases ho
        rw [placesIn, List.filter_cons, hinner]
        cases hu : u.isRoot
        · simp [DeclPlace.isRoot, hu]
        · simp [DeclPlace.isRoot, hu, placeMembers, PlacedMember.place?]
    have hcons : placeMembers u [] next (m :: ms) =
        placeMembers u [] next [m] ++ placeMembers u [] (next + m.declCount) ms :=
      placeMembers_cons m ms
    rw [placesInAll, List.filter_append, hm, ih, ← List.filterMap_append, hcons]
    cases u.isRoot
    · rfl
    · rfl

theorem filter_isRoot_placesFrom (next : Nat) (us : List SourceUnit) :
    (placesFrom next us).filter (·.isRoot) = (rootMembers next us).filterMap (·.place?) := by
  induction us generalizing next with
  | nil => rfl
  | cons u us ih =>
    rw [placesFrom, rootMembers, List.filter_append, List.filterMap_append,
      filter_isRoot_placesInAll, ih]

/-- The entered places are the places with the numbers of entered ones. -/
theorem filter_mem_numbers (units : List SourceUnit) :
    (places units).filter (·.number ∈ numbers (enteredPlaces units)) = enteredPlaces units := by
  have hplaces := pairwise_places units
  have hne : ∀ {p q : DeclPlace}, p.number < q.number → p ≠ q := fun h heq =>
    Nat.lt_irrefl _ (heq ▸ h)
  -- both lists stand in the order of their numbers, so it is enough that they have the same
  -- elements
  have hperm : ((places units).filter (·.number ∈ numbers (enteredPlaces units))).Perm
      (enteredPlaces units) := by
    refine (List.perm_ext_iff_of_nodup ?_ ?_).mpr fun p => ?_
    · exact List.Nodup.filter _ (hplaces.imp hne)
    · exact (pairwise_enteredPlaces units).imp hne
    · rw [List.mem_filter, decide_eq_true_iff]
      constructor
      · rintro ⟨hp, hnumber⟩
        exact mem_enteredPlaces_of_number hp hnumber
      · exact fun hp => ⟨(enteredPlaces_sublist units).subset hp, List.mem_map_of_mem hp⟩
  exact hperm.eq_of_pairwise (fun p q _ _ h h' => absurd h (Nat.lt_asymm h'))
    (hplaces.filter _) (pairwise_enteredPlaces units)

/-- The places in a list that satisfy a condition, by their numbers. -/
theorem findIdxs_eq_map_idxOf (P : DeclPlace → Bool) (ps : List DeclPlace)
    (h : (numbers ps).Nodup) :
    ps.findIdxs P = (ps.filter P).map fun p => (numbers ps).idxOf p.number := by
  -- from the back, so that the places in front keep their indices
  induction ps using List.reverseRecOn with
  | nil => rfl
  | append_singleton ps p ih =>
    rw [numbers_append] at h
    have hp : p.number ∉ numbers ps := fun hmem =>
      List.disjoint_of_nodup_append h hmem (List.mem_singleton_self _)
    have hps : ∀ q ∈ ps.filter P, (numbers (ps ++ [p])).idxOf q.number =
        (numbers ps).idxOf q.number := by
      intro q hq
      have hmem : q.number ∈ numbers ps := List.mem_map_of_mem (List.mem_of_mem_filter hq)
      rw [numbers_append, List.idxOf_append_of_mem hmem]
    rw [List.findIdxs_append, List.filter_append, List.map_append, List.map_congr_left hps,
      ih h.of_append_left, List.findIdxs_singleton, Nat.zero_add]
    by_cases hP : P p = true
    · rw [if_pos hP, List.filter_cons_of_pos hP, List.filter_nil, List.map_singleton,
        idxOf_append_cons hp]
    · rw [if_neg hP, List.filter_cons_of_neg hP]
      rfl

/-- The roots are the entered declarations at the top level of root units. -/
theorem roots_build (units : List SourceUnit) :
    (Table.build units).1.roots = (enteredPlaces units).findIdxs (·.isRoot) := by
  have hfilter : (enteredPlaces units).filter (·.isRoot) =
      ((places units).filter (·.isRoot)).filter (·.number ∈ numbers (enteredPlaces units)) := by
    conv_lhs => rw [← filter_mem_numbers units]
    rw [List.filter_filter, List.filter_filter]
    exact List.filter_congr fun p _ => Bool.and_comm _ _
  rw [roots_build_eq, enteredIds_filterMap, ← filter_isRoot_placesFrom,
    findIdxs_eq_map_idxOf _ _ (nodup_numbers_enteredPlaces units), hfilter]
  rfl

/-! ## Declarations -/

namespace DeclPlace

/-- The scope of what stands in front of the body of a place. -/
def headScope (entered : List DeclPlace) (p : DeclPlace) : Scope :=
  ⟨.of (entered.map (·.qualifiedName)), outersIn entered p.unit.package p.outers, p.unit.package,
    p.unit.unit.imports⟩

/-- The scope of what stands in the body of a place. -/
def bodyScope (entered : List DeclPlace) (p : DeclPlace) : Scope :=
  ⟨.of (entered.map (·.qualifiedName)), outersIn entered p.unit.package (p.asOuter :: p.outers),
    p.unit.package, p.unit.unit.imports⟩

/-- The types that a declaration implements if it is a class and extends if not. -/
def interfaceTypes (p : DeclPlace) : List Syntax.TypeExpr :=
  if p.head.kind = .classType then p.head.implemented else p.head.extended

/-- The type that a class extends first. -/
def superclassType? (p : DeclPlace) : Option Syntax.TypeExpr :=
  if p.head.kind = .classType then p.head.extended.head? else none

end DeclPlace

/-- What a member of a place is in the table unless it is a declaration that is not entered. -/
def PlacedMember.memberIn (entered : List DeclPlace) (p : DeclPlace) : PlacedMember → Option Member
  | .method m =>
    some (.method ((p.bodyScope entered).resolveMethod ((numbers entered).idxOf p.number)
      p.unit.file m))
  | .nested q =>
    if q.number ∈ numbers entered then some (.type ((numbers entered).idxOf q.number)) else none

/-- A declaration has what its place gives it. -/
structure DeclPlace.Gives (entered : List DeclPlace) (p : DeclPlace) (d : Declaration) : Prop where
  kind : d.kind = p.head.kind
  simpleName : d.simpleName = p.simpleName
  qualifiedName : d.qualifiedName = p.qualifiedName
  binaryName : d.binaryName = p.binaryName
  package : d.package = p.unit.package
  doc : d.doc = p.head.doc
  isAbstract : d.isAbstract = p.head.isAbstract
  annotations : d.annotations =
    p.head.annotations.map (Scope.resolveAnnotation (p.headScope entered))
  superclass : d.superclass = p.superclassType?.map (p.headScope entered).resolveType
  interfaces : d.interfaces = p.interfaceTypes.map (p.headScope entered).resolveType
  members : d.members = p.inner.filterMap (·.memberIn entered p)
  enclosing : d.enclosing = p.outers.head?.map fun o => (numbers entered).idxOf o.1
  location : d.location = ⟨p.unit.file, p.head.name.span⟩

theorem entryNames_entriesOf_eq (units : List SourceUnit) :
    entryNames (entriesOf units) = (enteredPlaces units).map (·.qualifiedName) := by
  rw [entriesOf_eq, entryNames, List.map_map]
  rfl

/-- The entry of a place becomes the declaration that the place gives. -/
theorem gives_declared (entered : List DeclPlace) (p : DeclPlace) :
    p.Gives entered ((p.entryIn entered).declared (.of (entered.map (·.qualifiedName)))) where
  kind := rfl
  simpleName := rfl
  qualifiedName := rfl
  binaryName := rfl
  package := rfl
  doc := rfl
  isAbstract := rfl
  annotations := rfl
  superclass := by
    unfold Entry.declared Entry.info DeclPlace.superclassType? DeclPlace.entryIn
    cases hkind : p.head.kind with
    | classType => exact List.head?_map
    | interfaceType => rfl
    | annotationType => rfl
  interfaces := by
    unfold Entry.declared Entry.info DeclPlace.interfaceTypes DeclPlace.entryIn
    cases hkind : p.head.kind with
    | classType => rfl
    | interfaceType => rfl
    | annotationType => rfl
  members := by
    show List.map _ (List.filterMap _ p.inner) = _
    rw [List.map_filterMap]
    refine List.filterMap_congr fun m _ => ?_
    cases m with
    | method m => rfl
    | nested q => exact apply_ite (Option.map _) (q.number ∈ numbers entered) (some _) none
  enclosing := by
    show (outersIn entered p.unit.package p.outers).head?.map (·.id) = _
    cases p.outers with
    | nil => rfl
    | cons o os => rfl
  location := rfl

theorem size_build (units : List SourceUnit) :
    (Table.build units).1.size = (enteredPlaces units).length := by
  have hstored := (Table.standsFor_build units).length_eq
  rw [entriesOf_eq, List.length_map] at hstored
  exact hstored

/-- The declaration with a number is the one that the entered place with this number gives. -/
theorem exists_gives_of_getElem? {units : List SourceUnit} {id : DeclId} {p : DeclPlace}
    (hp : (enteredPlaces units)[id]? = some p) :
    ∃ d, (Table.build units).1.get? id = some d ∧ p.Gives (enteredPlaces units) d := by
  refine ⟨_, ?_, gives_declared (enteredPlaces units) p⟩
  rw [Table.get?_build, entryNames_entriesOf_eq, entriesOf_eq, List.getElem?_map, hp]
  rfl

/-! ## Registration -/

/-- What is in a declaration that is left out is left out with it, and nothing is reported of it. -/
theorem not_mem_enteredPlaces_of_outer {units : List SourceUnit} {p : DeclPlace}
    (hp : p ∈ places units) {o : Nat × String} (ho : o ∈ p.outers)
    (hout : o.1 ∉ numbers (enteredPlaces units)) :
    p ∉ enteredPlaces units ∧ p.reportsIn (enteredPlaces units) = [] := by
  have hclosed : ¬ p.IsOpenIn (enteredPlaces units) := fun hopen =>
    hout (outers_entered_of_isOpenIn hp hopen o ho)
  have hnot : p ∉ enteredPlaces units := fun hmem => hclosed ((mem_enteredPlaces_iff hp).mp hmem).1
  refine ⟨hnot, ?_⟩
  rw [DeclPlace.reportsIn, if_neg fun hnumber => hnot (mem_enteredPlaces_of_number hp hnumber),
    if_neg hclosed]

/-- Which of the places of units are entered, what they become in the table, and what is reported
    of the units. -/
structure Registers (units : List SourceUnit) (entered : List DeclPlace) (t : Table)
    (reports : List Diagnostic) : Prop where
  /-- The places are numbered in the order in which a reader meets them. -/
  numbered : numbers (places units) = List.range (places units).length
  inOrder : entered.Sublist (places units)
  /-- A place is entered if what is around it is and no place entered before has its name. -/
  mem_iff : ∀ p ∈ places units, p ∈ entered ↔ p.IsOpenIn entered ∧
    ∀ q ∈ entered, q.number < p.number → q.qualifiedName ≠ p.qualifiedName
  /-- Nothing below a place that is left out, however deep, is entered or reported. -/
  below : ∀ p ∈ places units, ∀ o ∈ p.outers, o.1 ∉ numbers entered →
    p ∉ entered ∧ p.reportsIn entered = []
  size : t.size = entered.length
  gives : ∀ id p, entered[id]? = some p → ∃ d, t.get? id = some d ∧ p.Gives entered d
  /-- Each place has its own reports, and there are no others. -/
  reports : reports = (places units).flatMap (·.reportsIn entered)
  roots : t.roots = entered.findIdxs (·.isRoot)

/-- In the order of their places, a declaration is entered if the one around it is and its name is
    free, each has its own reports, and nothing else is reported. -/
theorem registers_build (units : List SourceUnit) :
    Registers units (enteredPlaces units) (Table.build units).1 (Table.build units).2 where
  numbered := numbers_places units
  inOrder := enteredPlaces_sublist units
  mem_iff := fun _ hp => mem_enteredPlaces_iff hp
  below := fun _ hp _ ho hout => not_mem_enteredPlaces_of_outer hp ho hout
  size := size_build units
  gives := fun _ _ hp => exists_gives_of_getElem? hp
  reports := reports_build_eq units
  roots := roots_build units

end ActorIdl
