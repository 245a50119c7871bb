import ActorIdl.Proofs.Declaration.Arena
import ActorIdl.Proofs.Declaration.Register
import ActorIdl.Proofs.Syntax.Names
import Mathlib.Data.List.Basic
/-! # What is entered for a declaration

    Entries are numbered in the order in which they are made, so the number of an entry is its
    place in the table.  An entry takes its package, file and imports from its unit, its names are
    made of its simple name and the names around it, and the names around it are made in the same
    way.  The proofs go along the tree, one lemma for a member and one for a list of members. -/

namespace ActorIdl

/-! ## Names and numbers -/

/-- The declarations around a place of a package, innermost first, with the names they have
    there. -/
inductive OutersFit (package : String) : List Outer → Prop where
  | nil : OutersFit package []
  | cons {o : Outer} {os : List Outer} : OutersFit package os →
      o.qualifiedName = qualifiedNameIn package os o.simpleName →
      o.binaryName = binaryNameIn package os o.simpleName → OutersFit package (o :: os)

/-- An entry has what its unit and the declarations around it give it. -/
structure Entry.Fits (u : SourceUnit) (e : Entry) : Prop where
  package : e.package = u.package
  file : e.file = u.file
  imports : e.imports = u.unit.imports
  qualifiedName : e.qualifiedName = qualifiedNameIn u.package e.outers e.simpleName
  binaryName : e.binaryName = binaryNameIn u.package e.outers e.simpleName
  outers : OutersFit u.package e.outers

/-- The names that an entry takes from the tree are well formed. -/
structure Entry.WellNamed (e : Entry) : Prop where
  head : e.head.WellNamed
  methods : ∀ m, .method m ∈ e.members → m.WellNamed
  outers : ∀ o ∈ e.outers, IsIdent o.simpleName

section
variable {P : String → Prop} {u : SourceUnit}
  (hP : ∀ (outers : List Outer) (simple : String), (∀ o ∈ outers, P o.qualifiedName) →
    IsIdent simple → P (qualifiedNameIn u.package outers simple))
include hP

/-- What goes from the names around a place to the names in it holds of all names around. -/
theorem OutersFit.forall_mem {outers : List Outer} (h : OutersFit u.package outers)
    (hs : ∀ o ∈ outers, IsIdent o.simpleName) : ∀ o ∈ outers, P o.qualifiedName := by
  induction h with
  | nil => exact fun _ ho => absurd ho List.not_mem_nil
  | cons _ hq _ ih =>
    obtain ⟨ho, hs⟩ := List.forall_mem_cons.mp hs
    refine List.forall_mem_cons.mpr ⟨?_, ih hs⟩
    rw [hq]
    exact hP _ _ (ih hs) ho

theorem Entry.Fits.of_qualifiedNameIn {e : Entry} (h : e.Fits u) (he : e.WellNamed) :
    P e.qualifiedName := by
  rw [h.qualifiedName]
  exact hP _ _ (h.outers.forall_mem hP he.outers) he.head.name

end

theorem length_entryNames (entries : List Entry) : (entryNames entries).length = entries.length :=
  List.length_map _

section
variable (u : SourceUnit)

/-- The entry that is made for a declaration unless its name is taken. -/
def Entry.made (outers : List Outer) (r : Register) (head : Syntax.DeclHead)
    (members : List Syntax.Member) : Entry :=
  let qualifiedName := qualifiedNameIn u.package outers head.name.text
  let binaryName := binaryNameIn u.package outers head.name.text
  let outer : Outer := ⟨r.next, head.name.text, qualifiedName, binaryName⟩
  ⟨r.next, head, qualifiedName, binaryName, u.package, outers,
    (enterMembers u (outer :: outers) (r.enter qualifiedName) members).members, u.file,
    u.unit.imports⟩

theorem enterMember_nested_of_mem {outers : List Outer} {r : Register}
    {head : Syntax.DeclHead} (members : List Syntax.Member)
    (h : qualifiedNameIn u.package outers head.name.text ∈ r) :
    (enterMember u outers r (.nested head members)).entries = [] ∧
      (enterMember u outers r (.nested head members)).members = none := by
  unfold enterMember
  dsimp only
  rw [if_pos (Register.mem_iff.mp h)]
  exact ⟨rfl, rfl⟩

theorem enterMember_nested_of_not_mem {outers : List Outer} {r : Register}
    {head : Syntax.DeclHead} (members : List Syntax.Member)
    (h : qualifiedNameIn u.package outers head.name.text ∉ r) :
    let e := Entry.made u outers r head members
    (enterMember u outers r (.nested head members)).entries =
        e :: (enterMembers u (e.asOuter :: outers) (r.enter e.qualifiedName) members).entries ∧
      (enterMember u outers r (.nested head members)).members = some (.type e.id) := by
  unfold enterMember
  dsimp only
  rw [if_neg (mt Register.mem_iff.mpr h)]
  exact ⟨rfl, rfl⟩

mutual

theorem ids_enterMember (outers : List Outer) (r : Register) (m : Syntax.Member) :
    (enterMember u outers r m).entries.map (·.id) =
      List.range' r.next (enterMember u outers r m).entries.length :=
  match m with
  | .method _ => rfl
  | .nested head members => by
    by_cases hname : qualifiedNameIn u.package outers head.name.text ∈ r
    · rw [(enterMember_nested_of_mem u members hname).1]
      rfl
    · rw [(enterMember_nested_of_not_mem u members hname).1]
      have ih := ids_enterMembers
        ((Entry.made u outers r head members).asOuter :: outers)
        (r.enter (Entry.made u outers r head members).qualifiedName) members
      rw [List.map_cons, List.length_cons, List.range'_succ, ih, Register.next_enter]
      rfl

/-- The numbers of entries follow each other from the number of names before. -/
theorem ids_enterMembers (outers : List Outer) (r : Register) (ms : List Syntax.Member) :
    (enterMembers u outers r ms).entries.map (·.id) =
      List.range' r.next (enterMembers u outers r ms).entries.length :=
  match ms with
  | [] => rfl
  | m :: ms => by
    have ihm := ids_enterMember outers r m
    have ihms := ids_enterMembers outers
      (r.enterAll (entryNames (enterMember u outers r m).entries)) ms
    rw [Register.next_enterAll, length_entryNames] at ihms
    rw [enterMembers_cons]
    dsimp only
    rw [List.map_append, List.length_append, ihm, ihms, List.range'_append_1]

end

/-! ## What holds of every entry -/

/-- What `I` says of a place and the member that stands there gives `P` of the entry of the member,
    and it goes down to the members of that entry. -/
def GoesDown (I : List Outer → Syntax.Member → Prop) (P : Entry → Prop) : Prop :=
  ∀ outers r head members, I outers (.nested head members) →
    P (Entry.made u outers r head members) ∧
      ∀ m ∈ members, I ((Entry.made u outers r head members).asOuter :: outers) m

mutual

theorem forall_mem_enterMember {I : List Outer → Syntax.Member → Prop} {P : Entry → Prop}
    (hI : GoesDown u I P) (outers : List Outer) (r : Register) (m : Syntax.Member)
    (hm : I outers m) : ∀ e ∈ (enterMember u outers r m).entries, P e :=
  match m with
  | .method _ => fun _ he => absurd he List.not_mem_nil
  | .nested head members => by
    by_cases hname : qualifiedNameIn u.package outers head.name.text ∈ r
    · rw [(enterMember_nested_of_mem u members hname).1]
      exact fun _ he => absurd he List.not_mem_nil
    · rw [(enterMember_nested_of_not_mem u members hname).1]
      obtain ⟨hmade, hmembers⟩ := hI outers r head members hm
      exact List.forall_mem_cons.mpr ⟨hmade, forall_mem_enterMembers hI _ _ members hmembers⟩

theorem forall_mem_enterMembers {I : List Outer → Syntax.Member → Prop} {P : Entry → Prop}
    (hI : GoesDown u I P) (outers : List Outer) (r : Register)
    (ms : List Syntax.Member) (hms : ∀ m ∈ ms, I outers m) :
    ∀ e ∈ (enterMembers u outers r ms).entries, P e :=
  match ms with
  | [] => fun _ he => absurd he List.not_mem_nil
  | m :: ms => by
    obtain ⟨hm, hms⟩ := List.forall_mem_cons.mp hms
    rw [enterMembers_cons]
    exact List.forall_mem_append.mpr
      ⟨forall_mem_enterMember hI outers r m hm, forall_mem_enterMembers hI outers _ ms hms⟩

end

/-- The entries that are made at a place fit it. -/
theorem fits_of_mem_enterMembers {outers : List Outer} (houters : OutersFit u.package outers)
    (r : Register) (ms : List Syntax.Member) :
    ∀ e ∈ (enterMembers u outers r ms).entries, e.Fits u := by
  refine forall_mem_enterMembers u (I := fun outers _ => OutersFit u.package outers)
    (fun outers r head members h => ⟨?_, fun _ _ => .cons h rfl rfl⟩) outers r ms
    fun _ _ => houters
  exact ⟨rfl, rfl, rfl, rfl, rfl, h⟩

/-- A method among the members of an entry stands in the body of the declaration. -/
theorem mem_of_method_mem_enterMembers {outers : List Outer} {r : Register}
    {ms : List Syntax.Member} {m : Syntax.Method}
    (h : .method m ∈ (enterMembers u outers r ms).members) : .method m ∈ ms := by
  induction ms generalizing r with
  | nil => cases h
  | cons first ms ih =>
    rw [enterMembers_cons] at h
    rcases List.mem_append.mp h with h | h
    · cases first with
      | method m' =>
        cases List.mem_singleton.mp h
        exact List.mem_cons_self
      | nested head members =>
        -- a declaration comes in as a number or, if its name is taken, not at all
        exfalso
        by_cases hname : qualifiedNameIn u.package outers head.name.text ∈ r
        · rw [(enterMember_nested_of_mem u members hname).2] at h
          cases h
        · rw [(enterMember_nested_of_not_mem u members hname).2] at h
          cases List.mem_singleton.mp h
    · exact List.mem_cons_of_mem _ (ih h)

theorem wellNamed_of_mem_enterMembers (r : Register) {ms : List Syntax.Member}
    (hms : ∀ m ∈ ms, m.WellNamed) : ∀ e ∈ (enterMembers u [] r ms).entries, e.WellNamed := by
  refine forall_mem_enterMembers u
    (I := fun outers m => m.WellNamed ∧ ∀ o ∈ outers, IsIdent o.simpleName)
    (fun outers r head members h => ?_) [] r ms fun m hm => ⟨hms m hm, by simp⟩
  obtain ⟨h, houters⟩ := h
  cases h with
  | nested hhead hmembers =>
    constructor
    · refine ⟨hhead, fun m hm => ?_, houters⟩
      cases hmembers _ (mem_of_method_mem_enterMembers u hm) with
      | method hm => exact hm
    · exact fun m hm => ⟨hmembers m hm, List.forall_mem_cons.mpr ⟨hhead.name, houters⟩⟩

/-- A declaration among the members of a place has an entry of its own there. -/
theorem entry_of_type_mem_enterMembers {outers : List Outer} {r : Register}
    {ms : List Syntax.Member} {id : DeclId}
    (h : .type id ∈ (enterMembers u outers r ms).members) :
    ∃ e ∈ (enterMembers u outers r ms).entries, e.id = id ∧ e.outers = outers ∧
      ∃ members, .nested e.head members ∈ ms := by
  induction ms generalizing r with
  | nil => cases h
  | cons first ms ih =>
    rw [enterMembers_cons] at h ⊢
    rcases List.mem_append.mp h with h | h
    · cases first with
      | method m => cases List.mem_singleton.mp h
      | nested head members =>
        by_cases hname : qualifiedNameIn u.package outers head.name.text ∈ r
        · rw [(enterMember_nested_of_mem u members hname).2] at h
          cases h
        · obtain ⟨hentries, hmember⟩ := enterMember_nested_of_not_mem u members hname
          rw [hmember] at h
          cases List.mem_singleton.mp h
          refine ⟨_, List.mem_append_left _ ?_, rfl, rfl, members, List.mem_cons_self⟩
          rw [hentries]
          exact List.mem_cons_self
    · obtain ⟨e, he, hid, houters, members, hmem⟩ := ih h
      exact ⟨e, List.mem_append_right _ he, hid, houters, members, List.mem_cons_of_mem _ hmem⟩

end

/-! ## The entries of all units -/

theorem ids_enterUnits (r : Register) (us : List SourceUnit) :
    (enterUnits r us).entries.map (·.id) =
      List.range' r.next (enterUnits r us).entries.length := by
  induction us generalizing r with
  | nil => rfl
  | cons u us ih =>
    have ihu := ids_enterMembers u [] r (u.unit.decls.map (·.toMember))
    have ihus := ih (r.enterAll (entryNames (enterUnit r u).entries))
    rw [Register.next_enterAll, length_entryNames] at ihus
    rw [enterUnits_cons]
    dsimp only
    rw [List.map_append, List.length_append, ihus]
    rw [enterUnit, ihu, List.range'_append_1]

/-- The number of an entry is its place. -/
theorem id_of_getElem? {us : List SourceUnit} {i : Nat} {e : Entry}
    (he : (enterUnits .start us).entries[i]? = some e) : e.id = i := by
  obtain ⟨hi, rfl⟩ := List.getElem?_eq_some_iff.mp he
  have hnth := congrArg (·[i]?) (ids_enterUnits .start us)
  simpa [hi] using hnth

theorem getElem?_of_mem_entries {us : List SourceUnit} {e : Entry}
    (he : e ∈ (enterUnits .start us).entries) : (enterUnits .start us).entries[e.id]? = some e := by
  obtain ⟨i, hi⟩ := List.mem_iff_getElem?.mp he
  rw [id_of_getElem? hi]
  exact hi

theorem mem_enterUnits {r : Register} {us : List SourceUnit} {e : Entry}
    (he : e ∈ (enterUnits r us).entries) :
    ∃ u ∈ us, ∃ r', e ∈ (enterUnit r' u).entries := by
  induction us generalizing r with
  | nil => cases he
  | cons u us ih =>
    rcases List.mem_append.mp he with he | he
    · exact ⟨u, List.mem_cons_self, r, he⟩
    · obtain ⟨u', hu', r', he⟩ := ih he
      exact ⟨u', List.mem_cons_of_mem _ hu', r', he⟩

/-- Every entry fits a unit, and its names are well formed if the unit is well named. -/
theorem fits_of_mem_enterUnits {r : Register} {us : List SourceUnit} {e : Entry}
    (he : e ∈ (enterUnits r us).entries) :
    ∃ u ∈ us, e.Fits u ∧ (u.unit.WellNamed → e.WellNamed) := by
  obtain ⟨u, hu, r', he⟩ := mem_enterUnits he
  refine ⟨u, hu, fits_of_mem_enterMembers u .nil r' _ e he, fun hwell => ?_⟩
  refine wellNamed_of_mem_enterMembers u r' (fun m hm => ?_) e he
  obtain ⟨d, hd, rfl⟩ := List.mem_map.mp hm
  exact hwell.decls d hd

/-- A root is the entry of a top-level declaration of a root unit. -/
theorem entry_of_mem_roots {r : Register} {us : List SourceUnit} {id : DeclId}
    (h : id ∈ (enterUnits r us).members) :
    ∃ u ∈ us, u.isRoot = true ∧ ∃ e ∈ (enterUnits r us).entries, e.id = id ∧ e.Fits u ∧
      e.outers = [] ∧ ∃ d ∈ u.unit.decls, e.head = d.head := by
  induction us generalizing r with
  | nil => cases h
  | cons u us ih =>
    rcases List.mem_append.mp h with h | h
    · split at h
      · rename_i hroot
        obtain ⟨m, hm, hid⟩ := List.mem_filterMap.mp h
        cases m with
        | method m => cases hid
        | type id' =>
          cases hid
          obtain ⟨e, he, hid, houters, members, hmem⟩ := entry_of_type_mem_enterMembers u hm
          obtain ⟨d, hd, heq⟩ := List.mem_map.mp hmem
          have hhead : e.head = d.head := (Syntax.Member.nested.inj heq).1.symm
          exact ⟨u, List.mem_cons_self, hroot, e, List.mem_append_left _ he, hid,
            fits_of_mem_enterMembers u .nil _ _ e he, houters, d, hd, hhead⟩
      · cases h
    · obtain ⟨u', hu', hroot, e, he, hrest⟩ := ih h
      exact ⟨u', List.mem_cons_of_mem _ hu', hroot, e, List.mem_append_right _ he, hrest⟩

/-! ## The table -/

/-- The entries of a build, in the order of their numbers. -/
def entriesOf (units : List SourceUnit) : List Entry := (enterUnits .start units).entries

namespace Table

variable {units : List SourceUnit}

theorem byName_build : (build units).1.byName = .of (entryNames (entriesOf units)) :=
  congrArg (·.byName) (register_enterUnits .start units)

/-- The stored declarations stand for those of the entries. -/
theorem standsFor_build (units : List SourceUnit) : List.Forall₂
    (Entry.StandsFor (.of (entryNames (entriesOf units))) (build units).1.methods)
    (build units).1.stored (entriesOf units) := by
  rw [← byName_build]
  exact Entry.standsFor_resolveAll _ List.prefix_rfl

theorem decls_build : (build units).1.decls =
    (entriesOf units).map (·.declared (.of (entryNames (entriesOf units)))) := by
  have hview := (standsFor_build units).imp fun _ _ h => h.view_eq
  exact List.forall₂_eq_eq_eq ▸
    List.forall₂_map_left_iff.mpr (List.forall₂_map_right_iff.mpr hview)

theorem get?_build {id : DeclId} : (build units).1.get? id =
    (entriesOf units)[id]?.map (·.declared (.of (entryNames (entriesOf units)))) := by
  have hdecls := congrArg (·[id]?) (@decls_build units)
  simp only [decls, List.getElem?_map] at hdecls
  exact hdecls

end Table

end ActorIdl
