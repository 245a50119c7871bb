import ActorIdl.Declaration.Candidates
import ActorIdl.Declaration.Role
import ActorIdl.Proofs.Declaration.Search
import Mathlib.Data.List.Nodup
/-! # The declarations that a round is about

    A round is about its roots and what is nested in them, as far as the compiler wrote neither the
    declaration itself nor one around it.  The candidates are exactly these declarations, each once
    and under its own kind. -/

namespace ActorIdl.Table

/-- A root, or nested in such a declaration, with no mark of the compiler on it or around it. -/
inductive IsSubject (t : Table) : DeclId → Prop where
  | root {id : DeclId} : id ∈ t.roots → t.isGenerated id = false → IsSubject t id
  | nested {outer id : DeclId} : IsSubject t outer → id ∈ t.nestedOf outer →
      t.isGenerated id = false → IsSubject t id

variable {t : Table} {id : DeclId}

theorem IsSubject.not_generated (h : t.IsSubject id) : t.isGenerated id = false := by
  cases h with
  | root _ hg => exact hg
  | nested _ _ hg => exact hg

theorem lt_size_of_get? {d : Declaration} (h : t.get? id = some d) : id < t.size := by
  obtain ⟨stored, hstored, _⟩ := Option.map_eq_some_iff.mp h
  exact (List.getElem?_eq_some_iff.mp hstored).1

theorem mem_decls_of_get? {d : Declaration} (h : t.get? id = some d) : d ∈ t.decls := by
  obtain ⟨stored, hstored, rfl⟩ := Option.map_eq_some_iff.mp h
  exact List.mem_map_of_mem (List.mem_of_getElem? hstored)

theorem exists_get?_of_lt_size (h : id < t.size) : ∃ d, t.get? id = some d :=
  ⟨_, congrArg (Option.map _) (List.getElem?_eq_getElem h)⟩

theorem lt_size_of_lookup {name : String} (h : t.lookup name = some id) : id < t.size :=
  t.lt_length name id h

theorem lt_size_of_mem_nestedOf {outer : DeclId} (h : id ∈ t.nestedOf outer) : outer < t.size := by
  unfold nestedOf at h
  cases hd : t.get? outer with
  | none => simp [hd] at h
  | some d => exact lt_size_of_get? hd

theorem lt_size_of_isKind {kind : DeclKind} (h : t.isKind id kind = true) : id < t.size := by
  unfold isKind at h
  cases hd : t.get? id with
  | none => simp [hd] at h
  | some d => exact lt_size_of_get? hd

/-- Of a declaration that the compiler wrote nothing is opened. -/
theorem mem_openNested {outer : DeclId} :
    id ∈ t.openNested outer ↔ t.isGenerated outer = false ∧ id ∈ t.nestedOf outer := by
  unfold openNested
  cases t.isGenerated outer <;> simp

/-! ## Visited declarations -/

theorem isSubject_of_linked (h : Linked t.openNested (List.range t.size) t.roots id)
    (hg : t.isGenerated id = false) : t.IsSubject id := by
  induction h with
  | start hr _ => exact .root hr hg
  | step _ hn _ ih =>
    obtain ⟨hgo, hn⟩ := mem_openNested.mp hn
    exact .nested (ih hgo) hn hg

/-- The declarations on the way to a subject open something, so they are all in the table. -/
theorem linked_of_isSubject (h : t.IsSubject id) (hid : id < t.size) :
    Linked t.openNested (List.range t.size) t.roots id := by
  induction h with
  | root hr _ => exact .start hr (List.mem_range.mpr hid)
  | nested ho hn _ ih =>
    have ho' := ih (lt_size_of_mem_nestedOf hn)
    exact .step ho' (mem_openNested.mpr ⟨ho.not_generated, hn⟩) (List.mem_range.mpr hid)

theorem mem_visited : id ∈ t.visited ↔ t.IsSubject id ∧ id < t.size := by
  unfold visited
  rw [List.mem_filter, mem_breadthFirst, Bool.not_eq_true']
  constructor
  · rintro ⟨hl, hg⟩
    exact ⟨isSubject_of_linked hl hg, List.mem_range.mp hl.remains⟩
  · rintro ⟨hs, hid⟩
    exact ⟨linked_of_isSubject hs hid, hs.not_generated⟩

theorem nodup_visited : t.visited.Nodup := (nodup_breadthFirst List.nodup_range).filter _

/-! ## Candidates -/

theorem mem_filter_visited {kind : DeclKind} :
    id ∈ t.visited.filter (t.isKind · kind) ↔ t.IsSubject id ∧ t.isKind id kind = true := by
  rw [List.mem_filter, mem_visited]
  constructor
  · rintro ⟨⟨hs, _⟩, hk⟩
    exact ⟨hs, hk⟩
  · rintro ⟨hs, hk⟩
    exact ⟨⟨hs, lt_size_of_isKind hk⟩, hk⟩

theorem mem_interfaces :
    id ∈ t.candidates.interfaces ↔ t.IsSubject id ∧ t.isKind id .interfaceType = true :=
  mem_filter_visited

theorem mem_classes :
    id ∈ t.candidates.classes ↔ t.IsSubject id ∧ t.isKind id .classType = true :=
  mem_filter_visited

theorem nodup_interfaces : t.candidates.interfaces.Nodup := nodup_visited.filter _

theorem isKind_of_get? {d : Declaration} (hd : t.get? id = some d) :
    t.isKind id d.kind = true := by
  rw [isKind, hd]
  exact beq_self_eq_true _

theorem mem_all_candidates :
    id ∈ t.candidates.all ↔ t.IsSubject id ∧ id < t.size := by
  rw [← mem_visited]
  unfold Candidates.all candidates
  rw [List.mem_append, List.mem_append, List.mem_filter, List.mem_filter, List.mem_filter]
  constructor
  · rintro ((⟨h, _⟩ | ⟨h, _⟩) | ⟨h, _⟩) <;> exact h
  · intro h
    obtain ⟨d, hd⟩ := exists_get?_of_lt_size (mem_visited.mp h).2
    have hkind := isKind_of_get? hd
    cases hk : d.kind with
    | classType => exact .inl (.inl ⟨h, hk ▸ hkind⟩)
    | interfaceType => exact .inl (.inr ⟨h, hk ▸ hkind⟩)
    | annotationType => exact .inr ⟨h, hk ▸ hkind⟩

/-- No declaration has two kinds. -/
theorem disjoint_filter_isKind {kind kind' : DeclKind} (hne : kind ≠ kind') (ids : List DeclId) :
    (ids.filter (t.isKind · kind)).Disjoint (ids.filter (t.isKind · kind')) := by
  intro id h h'
  have hkind := (List.mem_filter.mp h).2
  have hkind' := (List.mem_filter.mp h').2
  rw [isKind, Option.any_eq_true] at hkind hkind'
  obtain ⟨d, hd, hdkind⟩ := hkind
  obtain ⟨d', hd', hdkind'⟩ := hkind'
  obtain rfl := Option.some.inj (hd.symm.trans hd')
  exact hne ((beq_iff_eq.mp hdkind).symm.trans (beq_iff_eq.mp hdkind'))

theorem nodup_all_candidates : t.candidates.all.Nodup := by
  have hnodup : ∀ kind, (t.visited.filter (t.isKind · kind)).Nodup := fun _ => nodup_visited.filter _
  refine ((hnodup _).append (hnodup _) (disjoint_filter_isKind (by decide) _)).append (hnodup _) ?_
  exact List.disjoint_append_left.mpr
    ⟨disjoint_filter_isKind (by decide) _, disjoint_filter_isKind (by decide) _⟩

/-- Where every root was written by the compiler there is nothing to do. -/
theorem candidates_of_generated_roots (h : ∀ id ∈ t.roots, t.isGenerated id = true) :
    t.candidates = ⟨[], [], []⟩ := by
  have hv : t.visited = [] := by
    rw [List.eq_nil_iff_forall_not_mem]
    intro id hid
    have hs := (mem_visited.mp hid).1
    -- every subject stands in a root that is one too
    induction hs with
    | root hr hg => simp [h _ hr] at hg
    | nested ho hn _ ih => exact ih (mem_visited.mpr ⟨ho, lt_size_of_mem_nestedOf hn⟩)
  simp [candidates, hv]

end ActorIdl.Table
