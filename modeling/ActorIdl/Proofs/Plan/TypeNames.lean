import ActorIdl.Proofs.Interface.Overloads
import ActorIdl.Proofs.Plan.WellFormed
/-! # The names of the types in plans

    A reference resolves to the name of a declaration or of an import, or it stays as it is written,
    and in units that are well named and whose packages are dotted names all of these are dotted
    names.  So the names in the types of a plan are, whether the types are declared or not. -/

namespace ActorIdl

/-- A unit whose tree is well named and whose package is a dotted name, if it has one. -/
structure SourceUnit.NamesDotted (u : SourceUnit) : Prop where
  unit : u.unit.WellNamed
  hint : u.HasDottedHint

theorem SourceUnit.NamesDotted.package {u : SourceUnit} (h : u.NamesDotted) :
    u.package = "" ∨ IsDotted u.package :=
  SourceUnit.isDotted_package h.unit h.hint

/-! ## References -/

namespace Scope

variable {s : Scope}

/-- A scope in which only dotted names can be found. -/
structure FindsDotted (s : Scope) : Prop where
  names : ∀ name, s.declares name = true → IsDotted name
  outers : ∀ o ∈ s.outers, IsDotted o.qualifiedName
  imports : ∀ i ∈ s.imports, i.WellNamed

theorem FindsDotted.resolve (hs : s.FindsDotted) {q : Syntax.QualifiedName} (hq : q.WellNamed) :
    IsDotted (s.resolve q) :=
  resolve_of_forall hs.names hs.outers (fun i hi => (hs.imports i hi).isDotted) hq.isDotted

mutual

theorem FindsDotted.resolveType (hs : s.FindsDotted) (t : Syntax.TypeExpr) (ht : t.WellNamed) :
    ∀ n ∈ (s.resolveType t).names, IsDotted n :=
  match t, ht with
  | .mk _ args _ _, .mk hname hargs =>
    List.forall_mem_cons.mpr ⟨hs.resolve hname, hs.resolveTypes args hargs⟩

theorem FindsDotted.resolveTypes (hs : s.FindsDotted) (ts : List Syntax.TypeExpr)
    (hts : ∀ t ∈ ts, t.WellNamed) :
    ∀ n ∈ TypeRef.namesOfAll (s.resolveTypes ts), IsDotted n :=
  match ts with
  | [] => fun _ hn => absurd hn List.not_mem_nil
  | t :: ts => List.forall_mem_append.mpr
      ⟨hs.resolveType t (hts t List.mem_cons_self),
        hs.resolveTypes ts fun u hu => hts u (List.mem_cons_of_mem _ hu)⟩

end

end Scope

/-! ## Types of methods -/

section
variable {units : List SourceUnit} (hunits : ∀ u ∈ units, u.NamesDotted)
include hunits

theorem isDotted_of_mem_entriesOf {e : Entry} (he : e ∈ entriesOf units) :
    IsDotted e.qualifiedName := by
  obtain ⟨u, hu, hfits, hwell⟩ := fits_of_mem_enterUnits he
  exact hfits.isDotted (hunits u hu).package (hwell (hunits u hu).unit)

theorem findsDotted_bodyScope {e : Entry} (he : e ∈ entriesOf units) :
    (e.bodyScope (.of (entryNames (entriesOf units)))).FindsDotted := by
  obtain ⟨u, hu, hfits, hwell⟩ := fits_of_mem_enterUnits he
  have hdotted := hunits u hu
  have hwell := hwell hdotted.unit
  constructor
  · -- declared names, of whatever unit
    intro name hname
    obtain ⟨other, hother, rfl⟩ := List.mem_map.mp ((Scope.declares_iff rfl).mp hname)
    exact isDotted_of_mem_entriesOf hunits hother
  · show ∀ o ∈ e.asOuter :: e.outers, IsDotted o.qualifiedName
    rw [List.forall_mem_cons]
    refine ⟨isDotted_of_mem_entriesOf hunits he, ?_⟩
    exact hfits.outers.forall_mem
      (fun _ _ ho hs => isDotted_qualifiedNameIn hdotted.package hs ho) hwell.outers
  · show ∀ i ∈ e.imports, i.WellNamed
    rw [hfits.imports]
    exact hdotted.unit.imports

namespace Table

theorem isDotted_of_mem_methodsOf {id : DeclId} {m : Method}
    (hm : m ∈ (build units).1.methodsOf id) :
    (∀ n ∈ m.returnType.names, IsDotted n) ∧ ∀ p ∈ m.params, ∀ n ∈ p.type.names, IsDotted n := by
  obtain ⟨e, he, written, hentered, rfl⟩ := exists_written_of_mem_methodsOf hm
  obtain ⟨u, hu, _, hwell⟩ := fits_of_mem_enterUnits he
  have hwritten := (hwell (hunits u hu).unit).methods written hentered
  have hscope := findsDotted_bodyScope hunits he
  refine ⟨hscope.resolveType written.returnType hwritten.returnType, ?_⟩
  intro p hp
  obtain ⟨p', hp', rfl⟩ := List.mem_map.mp hp
  exact hscope.resolveType p'.type (hwritten.params p' hp').type

end Table

/-! ## Plans -/

/-- The types of a method of a plan have dotted names. -/
theorem isDotted_of_mem_plans {p : Plan} (hp : p ∈ (Table.build units).1.plans)
    {m : MethodDescriptor} (hm : m ∈ p.methods) :
    ∀ t ∈ m.returnType :: m.params.map (·.type), ∀ n ∈ t.names, IsDotted n := by
  obtain ⟨above, _, m', hm', hdescribes⟩ := Table.exists_method_of_mem_plans hp hm
  obtain ⟨hdotted, hparams⟩ := Table.isDotted_of_mem_methodsOf hunits hm'
  rw [hdescribes.returnType, hdescribes.types, List.forall_mem_cons, List.forall_mem_map]
  exact ⟨hdotted, hparams⟩

/-- The interface of a plan is named by an identifier. -/
theorem isIdent_simpleName_of_mem_plans {p : Plan} (hp : p ∈ (Table.build units).1.plans) :
    IsIdent p.simpleName := by
  obtain ⟨d, hd, hfor, _⟩ := Table.isFor_of_mem_plans hp
  rw [Table.get?_build] at hd
  obtain ⟨e, he, rfl⟩ := Option.map_eq_some_iff.mp hd
  obtain ⟨u, hu, _, hwell⟩ := fits_of_mem_enterUnits (List.mem_of_getElem? he)
  rw [hfor.simpleName]
  exact (hwell (hunits u hu).unit).head.name

end

end ActorIdl
