import ActorIdl.Proofs.Declaration.Entries
import Mathlib.Data.List.Nodup
/-! # Where declarations stand

    The declarations of all units in the order in which a reader meets them: unit after unit, and in
    a unit depth first.  Each is known by its number in this order, whether or not it is entered in
    the table, and by the numbers of the declarations around it.

    Of these places some are entered, one after the other.  A place is entered if the declaration
    around it has been entered and no place entered before has its qualified name. -/

namespace ActorIdl

/-! ## Places -/

/-- The name of a declaration in a package and in other declarations, innermost first. -/
def nameWithin (separator package : String) : List String → String → String
  | [], simple => qualify package simple
  | outer :: outers, simple => nameWithin separator package outers outer ++ separator ++ simple

/-- A declaration in the sources. -/
structure DeclPlace where
  /-- How many declarations are in front of it. -/
  number : Nat
  unit : SourceUnit
  /-- The declarations around it by number and simple name, innermost first. -/
  outers : List (Nat × String)
  head : Syntax.DeclHead
  members : List Syntax.Member

namespace DeclPlace

def simpleName (p : DeclPlace) : String := p.head.name.text

def qualifiedName (p : DeclPlace) : String :=
  nameWithin "." p.unit.package (p.outers.map (·.2)) p.simpleName

def binaryName (p : DeclPlace) : String :=
  nameWithin "$" p.unit.package (p.outers.map (·.2)) p.simpleName

/-- The place as what its members are declared in. -/
def asOuter (p : DeclPlace) : Nat × String := (p.number, p.simpleName)

end DeclPlace

mutual

/-- How many declarations a member is made of. -/
def Syntax.Member.declCount : Syntax.Member → Nat
  | .method _ => 0
  | .nested _ members => declCounts members + 1

/-- How many declarations members are made of. -/
def declCounts : List Syntax.Member → Nat
  | [] => 0
  | m :: ms => m.declCount + declCounts ms

end

section
variable (u : SourceUnit) (outers : List (Nat × String))

/-- A member of a declaration with the place that it has if it is a declaration. -/
inductive PlacedMember where
  | method (m : Syntax.Method)
  | nested (p : DeclPlace)

/-- Members with their places.  The first declaration in them has the number `next`. -/
def placeMembers (next : Nat) : List Syntax.Member → List PlacedMember
  | [] => []
  | .method m :: ms => .method m :: placeMembers next ms
  | .nested head members :: ms =>
    .nested ⟨next, u, outers, head, members⟩ :: placeMembers (next + (declCounts members + 1)) ms

end

/-- The members of a declaration with their places. -/
def DeclPlace.inner (p : DeclPlace) : List PlacedMember :=
  placeMembers p.unit (p.asOuter :: p.outers) (p.number + 1) p.members

section
variable (u : SourceUnit)

mutual

/-- The declarations that a member is made of, depth first, from the number `next` on. -/
def placesIn (outers : List (Nat × String)) (next : Nat) : Syntax.Member → List DeclPlace
  | .method _ => []
  | .nested head members =>
    ⟨next, u, outers, head, members⟩ ::
      placesInAll ((next, head.name.text) :: outers) (next + 1) members

/-- The declarations that members are made of. -/
def placesInAll (outers : List (Nat × String)) (next : Nat) : List Syntax.Member → List DeclPlace
  | [] => []
  | m :: ms => placesIn outers next m ++ placesInAll outers (next + m.declCount) ms

end

end

/-- The members that a unit has at its top level. -/
def SourceUnit.topLevel (u : SourceUnit) : List Syntax.Member := u.unit.decls.map (·.toMember)

/-- How many declarations units are made of. -/
def declCountOf : List SourceUnit → Nat
  | [] => 0
  | u :: us => declCounts u.topLevel + declCountOf us

/-- The declarations of units from the number `next` on. -/
def placesFrom (next : Nat) : List SourceUnit → List DeclPlace
  | [] => []
  | u :: us => placesInAll u [] next u.topLevel ++ placesFrom (next + declCounts u.topLevel) us

/-- The declarations of units in the order in which they stand there. -/
def places (units : List SourceUnit) : List DeclPlace := placesFrom 0 units

/-! ## Numbers -/

/-- The numbers of places. -/
def numbers (ps : List DeclPlace) : List Nat := ps.map (·.number)

theorem mem_numbers {ps : List DeclPlace} {n : Nat} : n ∈ numbers ps ↔ ∃ p ∈ ps, p.number = n :=
  List.mem_map

theorem numbers_append (ps qs : List DeclPlace) : numbers (ps ++ qs) = numbers ps ++ numbers qs :=
  List.map_append

theorem number_of_mem {ps : List DeclPlace} {next count : Nat}
    (h : numbers ps = List.range' next count) {p : DeclPlace} (hp : p ∈ ps) :
    next ≤ p.number ∧ p.number < next + count := by
  have hmem : p.number ∈ numbers ps := List.mem_map_of_mem hp
  rwa [h, List.mem_range'_1] at hmem

section
variable (u : SourceUnit)

mutual

theorem numbers_placesIn (outers : List (Nat × String)) (next : Nat) (m : Syntax.Member) :
    numbers (placesIn u outers next m) = List.range' next m.declCount :=
  match m with
  | .method _ => rfl
  | .nested head members => by
    have ih := numbers_placesInAll ((next, head.name.text) :: outers) (next + 1) members
    rw [placesIn, Syntax.Member.declCount, List.range'_succ, ← ih]
    rfl

/-- Places are numbered one after the other. -/
theorem numbers_placesInAll (outers : List (Nat × String)) (next : Nat)
    (ms : List Syntax.Member) :
    numbers (placesInAll u outers next ms) = List.range' next (declCounts ms) :=
  match ms with
  | [] => rfl
  | m :: ms => by
    rw [placesInAll, numbers_append, declCounts, numbers_placesIn, numbers_placesInAll,
      List.range'_append_1]

end

variable {u} {outers : List (Nat × String)} {next : Nat}

theorem number_of_mem_placesIn {m : Syntax.Member} {p : DeclPlace}
    (h : p ∈ placesIn u outers next m) :
    next ≤ p.number ∧ p.number < next + m.declCount :=
  number_of_mem (numbers_placesIn u outers next m) h

theorem number_of_mem_placesInAll {ms : List Syntax.Member} {p : DeclPlace}
    (h : p ∈ placesInAll u outers next ms) :
    next ≤ p.number ∧ p.number < next + declCounts ms :=
  number_of_mem (numbers_placesInAll u outers next ms) h

end

theorem numbers_placesFrom (next : Nat) (us : List SourceUnit) :
    numbers (placesFrom next us) = List.range' next (declCountOf us) := by
  induction us generalizing next with
  | nil => rfl
  | cons u us ih =>
    rw [placesFrom, numbers_append, numbers_placesInAll, ih, List.range'_append_1, declCountOf]

theorem number_of_mem_placesFrom {next : Nat} {us : List SourceUnit} {p : DeclPlace}
    (h : p ∈ placesFrom next us) : next ≤ p.number ∧ p.number < next + declCountOf us :=
  number_of_mem (numbers_placesFrom next us) h

/-- The number of a place is how many places are before it. -/
theorem numbers_places (units : List SourceUnit) :
    numbers (places units) = List.range (places units).length := by
  have hlength := congrArg List.length (numbers_placesFrom 0 units)
  rw [numbers, List.length_map, List.length_range'] at hlength
  rw [places, numbers_placesFrom, hlength, List.range_eq_range']

theorem pairwise_places (units : List SourceUnit) :
    (places units).Pairwise (·.number < ·.number) := by
  refine List.pairwise_map.mp ?_
  show (numbers (places units)).Pairwise (· < ·)
  rw [numbers_places]
  exact List.pairwise_lt_range

/-! ## Places in places -/

section
variable {u : SourceUnit} {outers : List (Nat × String)} {next : Nat}

theorem placeMembers_cons (m : Syntax.Member) (ms : List Syntax.Member) :
    placeMembers u outers next (m :: ms) =
      placeMembers u outers next [m] ++ placeMembers u outers (next + m.declCount) ms := by
  cases m with
  | method m => rfl
  | nested head members => rfl

/-- A declaration among members stands in what they stand in, and it is one of their places. -/
theorem of_nested_mem_placeMembers {ms : List Syntax.Member} {q : DeclPlace}
    (h : .nested q ∈ placeMembers u outers next ms) :
    q.unit = u ∧ q.outers = outers ∧ q ∈ placesInAll u outers next ms := by
  induction ms generalizing next with
  | nil => cases h
  | cons m ms ih =>
    rw [placeMembers_cons] at h
    rcases List.mem_append.mp h with h | h
    · cases m with
      | method m => cases List.mem_singleton.mp h
      | nested head members =>
        cases List.mem_singleton.mp h
        exact ⟨rfl, rfl, List.mem_append_left _ List.mem_cons_self⟩
    · obtain ⟨hunit, houters, hmem⟩ := ih h
      exact ⟨hunit, houters, List.mem_append_right _ hmem⟩

mutual

theorem exists_inner_of_mem_placesIn (outers : List (Nat × String)) (next : Nat)
    (m : Syntax.Member) : ∀ q ∈ placesIn u outers next m,
      .nested q ∈ placeMembers u outers next [m] ∨
        ∃ p ∈ placesIn u outers next m, .nested q ∈ p.inner :=
  match m with
  | .method _ => fun _ hq => absurd hq List.not_mem_nil
  | .nested head members => by
    intro q hq
    rcases List.mem_cons.mp hq with rfl | hq
    · exact .inl (List.mem_singleton_self _)
    · rcases exists_inner_of_mem_placesInAll _ _ members q hq with hinner | ⟨p, hp, hinner⟩
      · exact .inr ⟨_, List.mem_cons_self, hinner⟩
      · exact .inr ⟨p, List.mem_cons_of_mem _ hp, hinner⟩

/-- Each of the places of members is one of the members or a member of one of the places. -/
theorem exists_inner_of_mem_placesInAll (outers : List (Nat × String)) (next : Nat)
    (ms : List Syntax.Member) : ∀ q ∈ placesInAll u outers next ms,
      .nested q ∈ placeMembers u outers next ms ∨
        ∃ p ∈ placesInAll u outers next ms, .nested q ∈ p.inner :=
  match ms with
  | [] => fun _ hq => absurd hq List.not_mem_nil
  | m :: ms => by
    intro q hq
    rw [placeMembers_cons]
    rcases List.mem_append.mp hq with hq | hq
    · rcases exists_inner_of_mem_placesIn outers next m q hq with hinner | ⟨p, hp, hinner⟩
      · exact .inl (List.mem_append_left _ hinner)
      · exact .inr ⟨p, List.mem_append_left _ hp, hinner⟩
    · rcases exists_inner_of_mem_placesInAll outers _ ms q hq with hinner | ⟨p, hp, hinner⟩
      · exact .inl (List.mem_append_right _ hinner)
      · exact .inr ⟨p, List.mem_append_right _ hp, hinner⟩

end

mutual

theorem inner_subset_placesIn (outers : List (Nat × String)) (next : Nat) (m : Syntax.Member) :
    ∀ p ∈ placesIn u outers next m, ∀ q, .nested q ∈ p.inner → q ∈ placesIn u outers next m :=
  match m with
  | .method _ => fun _ hp => absurd hp List.not_mem_nil
  | .nested head members => by
    intro p hp q hq
    rcases List.mem_cons.mp hp with rfl | hp
    · exact List.mem_cons_of_mem _ (of_nested_mem_placeMembers hq).2.2
    · exact List.mem_cons_of_mem _ (inner_subset_placesInAll _ _ members p hp q hq)

/-- The declarations among the members of a place are places. -/
theorem inner_subset_placesInAll (outers : List (Nat × String)) (next : Nat)
    (ms : List Syntax.Member) : ∀ p ∈ placesInAll u outers next ms, ∀ q, .nested q ∈ p.inner →
      q ∈ placesInAll u outers next ms :=
  match ms with
  | [] => fun _ hp => absurd hp List.not_mem_nil
  | m :: ms => by
    intro p hp q hq
    rcases List.mem_append.mp hp with hp | hp
    · exact List.mem_append_left _ (inner_subset_placesIn outers next m p hp q hq)
    · exact List.mem_append_right _ (inner_subset_placesInAll outers _ ms p hp q hq)

end

/-- The declarations in a declaration have it or one of themselves around them. -/
theorem exists_head_of_mem_placesInAll {o : Nat × String} {ms : List Syntax.Member} {q : DeclPlace}
    (h : q ∈ placesInAll u (o :: outers) next ms) :
    ∃ o', q.outers.head? = some o' ∧ (o' = o ∨ next ≤ o'.1 ∧ o'.1 < next + declCounts ms) := by
  rcases exists_inner_of_mem_placesInAll _ _ ms q h with hinner | ⟨p, hp, hinner⟩
  · obtain ⟨_, houters, _⟩ := of_nested_mem_placeMembers hinner
    exact ⟨o, by rw [houters, List.head?_cons], .inl rfl⟩
  · obtain ⟨_, houters, _⟩ := of_nested_mem_placeMembers hinner
    refine ⟨p.asOuter, by rw [houters, List.head?_cons], .inr ?_⟩
    exact number_of_mem_placesInAll hp

end

theorem mem_placesFrom {next : Nat} {us : List SourceUnit} {p : DeclPlace} :
    p ∈ placesFrom next us ↔ ∃ u ∈ us, ∃ next', p ∈ placesInAll u [] next' u.topLevel ∧
      ∀ q ∈ placesInAll u [] next' u.topLevel, q ∈ placesFrom next us := by
  constructor
  · intro h
    induction us generalizing next with
    | nil => cases h
    | cons u us ih =>
      rcases List.mem_append.mp h with h | h
      · exact ⟨u, List.mem_cons_self, next, h, fun q hq => List.mem_append_left _ hq⟩
      · obtain ⟨u', hu', next', hp, hall⟩ := ih h
        exact ⟨u', List.mem_cons_of_mem _ hu', next', hp,
          fun q hq => List.mem_append_right _ (hall q hq)⟩
  · rintro ⟨_, _, _, hp, hall⟩
    exact hall p hp

section
variable {units : List SourceUnit} {p q : DeclPlace}

/-- A place at the top level has nothing around it, and any other one is a member of a place. -/
theorem exists_inner_of_mem_places (h : q ∈ places units) :
    q.outers = [] ∨ ∃ p ∈ places units, .nested q ∈ p.inner := by
  obtain ⟨u, _, next, hq, hall⟩ := mem_placesFrom.mp h
  rcases exists_inner_of_mem_placesInAll _ _ _ q hq with hinner | ⟨p, hp, hinner⟩
  · exact .inl (of_nested_mem_placeMembers hinner).2.1
  · exact .inr ⟨p, hall p hp, hinner⟩

/-- Around what stands in a declaration is the declaration, and then what is around that. -/
theorem exists_inner_of_outers_eq (h : q ∈ places units) {o : Nat × String}
    {os : List (Nat × String)} (houters : q.outers = o :: os) :
    ∃ p ∈ places units, .nested q ∈ p.inner ∧ p.asOuter = o ∧ p.outers = os := by
  rcases exists_inner_of_mem_places h with hnil | ⟨p, hp, hinner⟩
  · rw [hnil] at houters
    cases houters
  · have heq := (of_nested_mem_placeMembers hinner).2.1
    rw [houters] at heq
    obtain ⟨ho, hos⟩ := List.cons.inj heq
    exact ⟨p, hp, hinner, ho.symm, hos.symm⟩

theorem mem_places_of_inner (hp : p ∈ places units) (hq : .nested q ∈ p.inner) :
    q ∈ places units := by
  obtain ⟨u, _, next, hp, hall⟩ := mem_placesFrom.mp hp
  exact hall q (inner_subset_placesInAll _ _ _ p hp q hq)

/-- A declaration stands behind the one around it. -/
theorem number_lt_of_inner (hq : .nested q ∈ p.inner) : p.number < q.number :=
  (number_of_mem_placesInAll (of_nested_mem_placeMembers hq).2.2).1

theorem number_lt_of_mem_places (h : q ∈ places units) {o : Nat × String}
    (ho : q.outers.head? = some o) : o.1 < q.number := by
  obtain ⟨os, houters⟩ := List.head?_eq_some_iff.mp ho
  obtain ⟨p, _, hinner, rfl, _⟩ := exists_inner_of_outers_eq h houters
  exact number_lt_of_inner hinner

end

/-! ## Entering -/

namespace DeclPlace

/-- Not in a declaration that is left out. -/
def IsOpenIn (entered : List DeclPlace) (p : DeclPlace) : Prop :=
  ∀ o ∈ p.outers.head?, o.1 ∈ numbers entered

instance (entered : List DeclPlace) (p : DeclPlace) : Decidable (p.IsOpenIn entered) :=
  inferInstanceAs (Decidable (∀ o ∈ p.outers.head?, o.1 ∈ numbers entered))

end DeclPlace

/-- Goes on to the next place and enters it if it is open and its name is free. -/
def enterPlace (entered : List DeclPlace) (p : DeclPlace) : List DeclPlace :=
  if p.IsOpenIn entered ∧ ∀ q ∈ entered, q.qualifiedName ≠ p.qualifiedName then entered ++ [p]
  else entered

/-- The places of units that are entered. -/
def enteredPlaces (units : List SourceUnit) : List DeclPlace := (places units).foldl enterPlace []

theorem exists_foldl_enterPlace (entered ps : List DeclPlace) :
    ∃ added, ps.foldl enterPlace entered = entered ++ added ∧ added.Sublist ps := by
  induction ps generalizing entered with
  | nil => exact ⟨[], by simp, List.Sublist.refl _⟩
  | cons p ps ih =>
    rw [List.foldl_cons]
    obtain ⟨added, hfold, hsub⟩ := ih (enterPlace entered p)
    unfold enterPlace at hfold ⊢
    split at hfold
    · rename_i hfree
      rw [if_pos hfree]
      exact ⟨p :: added, by simpa using hfold, hsub.cons_cons p⟩
    · rename_i hnot
      rw [if_neg hnot]
      exact ⟨added, hfold, hsub.cons p⟩

/-- Nothing is entered in a declaration that is left out. -/
theorem foldl_enterPlace_of_closed {entered ps : List DeclPlace}
    (h : ∀ p ∈ ps, ¬ p.IsOpenIn entered) : ps.foldl enterPlace entered = entered := by
  induction ps with
  | nil => rfl
  | cons p ps ih =>
    obtain ⟨hp, hps⟩ := List.forall_mem_cons.mp h
    rw [List.foldl_cons, enterPlace, if_neg fun hfree => hp hfree.1]
    exact ih hps

section
variable (units : List SourceUnit)

/-- What is entered is in the order of the places. -/
theorem enteredPlaces_sublist : (enteredPlaces units).Sublist (places units) := by
  obtain ⟨added, hfold, hsub⟩ := exists_foldl_enterPlace [] (places units)
  rw [enteredPlaces, hfold]
  exact hsub

theorem pairwise_enteredPlaces : (enteredPlaces units).Pairwise (·.number < ·.number) :=
  (pairwise_places units).sublist (enteredPlaces_sublist units)

theorem nodup_numbers_enteredPlaces : (numbers (enteredPlaces units)).Nodup :=
  List.pairwise_map.mpr ((pairwise_enteredPlaces units).imp Nat.ne_of_lt)

variable {units}

theorem eq_of_number_eq {p q : DeclPlace} (hp : p ∈ places units) (hq : q ∈ places units)
    (h : p.number = q.number) : p = q := by
  have hnodup : ((places units).map (·.number)).Nodup :=
    List.pairwise_map.mpr ((pairwise_places units).imp Nat.ne_of_lt)
  exact List.inj_on_of_nodup_map hnodup hp hq h

theorem mem_enteredPlaces_of_number {p : DeclPlace} (hp : p ∈ places units)
    (h : p.number ∈ numbers (enteredPlaces units)) : p ∈ enteredPlaces units := by
  obtain ⟨q, hq, heq⟩ := mem_numbers.mp h
  exact eq_of_number_eq ((enteredPlaces_sublist units).subset hq) hp heq ▸ hq

/-- A place is entered if what is around it is entered and no place entered before has its name. -/
theorem mem_enteredPlaces_iff {p : DeclPlace} (hp : p ∈ places units) :
    p ∈ enteredPlaces units ↔ p.IsOpenIn (enteredPlaces units) ∧
      ∀ q ∈ enteredPlaces units, q.number < p.number → q.qualifiedName ≠ p.qualifiedName := by
  obtain ⟨before, after, hsplit⟩ := List.append_of_mem hp
  have hsorted := pairwise_places units
  rw [hsplit] at hsorted
  obtain ⟨_, hcons, hbefore⟩ := List.pairwise_append.mp hsorted
  have hafter : ∀ q ∈ after, p.number < q.number := fun q hq => List.rel_of_pairwise_cons hcons hq
  obtain ⟨early, hearly, hearlysub⟩ := exists_foldl_enterPlace [] before
  obtain ⟨late, hlate, hlatesub⟩ := exists_foldl_enterPlace (enterPlace early p) after
  have hentered : enteredPlaces units = enterPlace early p ++ late := by
    rw [enteredPlaces, hsplit, List.foldl_append, List.foldl_cons, hearly, List.nil_append, hlate]
  have hless : ∀ q ∈ early, q.number < p.number := fun q hq =>
    hbefore q (hearlysub.subset hq) p List.mem_cons_self
  have hmore : ∀ q ∈ late, p.number < q.number := fun q hq => hafter q (hlatesub.subset hq)
  -- what counts for the place has been entered before it comes
  have hfree : p.IsOpenIn (enteredPlaces units) ∧
      (∀ q ∈ enteredPlaces units, q.number < p.number → q.qualifiedName ≠ p.qualifiedName) ↔
      p.IsOpenIn early ∧ ∀ q ∈ early, q.qualifiedName ≠ p.qualifiedName := by
    have hmem : ∀ q, q.number < p.number → (q ∈ enteredPlaces units ↔ q ∈ early) := by
      intro q hq
      have hnotlate : q ∉ late := fun h => Nat.lt_asymm hq (hmore q h)
      have hne : q ≠ p := fun h => Nat.lt_irrefl _ (h ▸ hq)
      rw [hentered, enterPlace]
      split
      · simp [hnotlate, hne]
      · simp [hnotlate]
    constructor
    · rintro ⟨hopen, hnames⟩
      refine ⟨fun o ho => ?_, fun q hq => hnames q ((hmem q (hless q hq)).mpr hq) (hless q hq)⟩
      obtain ⟨q, hq, heq⟩ := mem_numbers.mp (hopen o ho)
      have hlt : q.number < p.number := heq ▸ number_lt_of_mem_places hp ho
      exact mem_numbers.mpr ⟨q, (hmem q hlt).mp hq, heq⟩
    · rintro ⟨hopen, hnames⟩
      refine ⟨fun o ho => ?_, fun q hq hlt => hnames q ((hmem q hlt).mp hq)⟩
      obtain ⟨q, hq, heq⟩ := mem_numbers.mp (hopen o ho)
      exact mem_numbers.mpr ⟨q, (hmem q (hless q hq)).mpr hq, heq⟩
  rw [hfree, hentered, enterPlace]
  split
  · rename_i h
    simpa using h
  · rename_i h
    refine iff_of_false (fun hin => ?_) h
    rcases List.mem_append.mp hin with hin | hin
    · exact Nat.lt_irrefl _ (hless p hin)
    · exact Nat.lt_irrefl _ (hmore p hin)

/-- With the declaration around a place everything around it is entered. -/
theorem outers_entered_of_isOpenIn {p : DeclPlace} (hp : p ∈ places units)
    (hopen : p.IsOpenIn (enteredPlaces units)) :
    ∀ o ∈ p.outers, o.1 ∈ numbers (enteredPlaces units) := by
  generalize houters : p.outers = os
  induction os generalizing p with
  | nil => exact fun _ ho => absurd ho List.not_mem_nil
  | cons o os ih =>
    obtain ⟨q, hq, _, rfl, hos⟩ := exists_inner_of_outers_eq hp houters
    have hnumber : q.number ∈ numbers (enteredPlaces units) :=
      hopen q.asOuter (by rw [houters, List.head?_cons, Option.mem_some])
    have hqopen := ((mem_enteredPlaces_iff hq).mp (mem_enteredPlaces_of_number hq hnumber)).1
    exact List.forall_mem_cons.mpr ⟨hnumber, ih hq hqopen hos⟩

end

end ActorIdl
