import ActorIdl.Interface.Descriptor
import ActorIdl.Proofs.Declaration.Resolution
import ActorIdl.Proofs.Declaration.SearchOrder
import ActorIdl.Proofs.Declaration.Subject
import ActorIdl.Proofs.Interface.Methods
/-! # Which methods an interface has

    An interface has the methods of the types that it inherits from, itself included.  These come
    in the order in which they are first discovered, nearer ones first, and nothing is inherited
    from the root type or through it.  Of the methods that are declared in them, one behind the
    other, the first of each signature counts.  So the declaration that is nearest to the interface
    wins. -/

namespace ActorIdl

/-! ## The first method of each signature -/

/-- What is left is the first method of each signature that has not been seen. -/
theorem firstOfSignature_eq (seen : List String) (ms : List MethodDescriptor) :
    firstOfSignature seen ms = (ms.filter (!seen.contains ·.signature)).eraseDupsBy
      fun m m' => m.signature == m'.signature := by
  induction ms generalizing seen with
  | nil => simp [firstOfSignature]
  | cons m ms ih =>
    unfold firstOfSignature
    by_cases hm : seen.contains m.signature = true
    · rw [if_pos hm, List.filter_cons_of_neg (by simpa using hm), ih]
    · rw [if_neg hm, List.filter_cons_of_pos (by simpa using hm), List.eraseDupsBy_cons,
        List.filter_filter, ih]
      congr 2
      refine List.filter_congr fun m' _ => ?_
      rw [List.contains_cons, Bool.not_or, Bool.eq_iff_iff]
      simp

/-- The first method of a signature stays unless the signature has been seen. -/
theorem mem_firstOfSignature_of_find? {seen : List String} {signature : String}
    (hseen : signature ∉ seen) {ms : List MethodDescriptor} {m : MethodDescriptor}
    (h : ms.find? (·.signature == signature) = some m) : m ∈ firstOfSignature seen ms := by
  induction ms generalizing seen with
  | nil => cases h
  | cons first ms ih =>
    unfold firstOfSignature
    by_cases heq : first.signature = signature
    · rw [List.find?_cons_of_pos (by simpa using heq)] at h
      cases h
      rw [if_neg (by simpa [heq] using hseen)]
      exact List.mem_cons_self
    · rw [List.find?_cons_of_neg (by simpa using heq)] at h
      split
      · exact ih hseen h
      · refine List.mem_cons_of_mem _ (ih ?_ h)
        exact fun hmem => (List.mem_cons.mp hmem).elim (fun h => heq h.symm) hseen

/-- Among lists one behind the other the first method of a signature comes from a list in front of
    or at the place of any other that has one. -/
theorem exists_nearest_of_mem {R : DeclId → DeclId → Prop} {types : List DeclId}
    (hrefl : ∀ x, R x x) (hpairwise : types.Pairwise R) {own : DeclId → List MethodDescriptor}
    {x : DeclId} (hx : x ∈ types) {m : MethodDescriptor} (hm : m ∈ own x) :
    ∃ m' ∈ firstOfSignature [] (types.flatMap own), m'.signature = m.signature ∧
      ∃ x' ∈ types, m' ∈ own x' ∧ R x' x := by
  have hhas : ((own x).find? (·.signature == m.signature)).isSome = true :=
    List.find?_isSome.mpr ⟨m, hm, by simp⟩
  cases hfind : (types.flatMap own).find? (·.signature == m.signature) with
  | none =>
    have hnone := List.find?_eq_none.mp hfind m (List.mem_flatMap.mpr ⟨x, hx, hm⟩)
    simp at hnone
  | some m' =>
    have hfirst := mem_firstOfSignature_of_find? List.not_mem_nil hfind
    have hsignature : m'.signature = m.signature := by simpa using List.find?_some hfind
    rw [List.find?_flatMap] at hfind
    obtain ⟨before, x', after, rfl, hx', hbefore⟩ := List.findSome?_eq_some_iff.mp hfind
    refine ⟨m', hfirst, hsignature, x', by simp, List.mem_of_find?_eq_some hx', ?_⟩
    -- the other list does not come before, since no list before has a method of the signature
    rcases List.mem_append.mp hx with hx | hx
    · rw [hbefore x hx] at hhas
      cases hhas
    · rcases List.mem_cons.mp hx with rfl | hx
      · exact hrefl x
      · exact List.rel_of_pairwise_cons (List.pairwise_append.mp hpairwise).2.1 hx

namespace Table

variable {t : Table} {id : DeclId}

/-! ## The types that an interface inherits from -/

/-- Inherited from over so many steps, each from a type to a declared type that it extends and none
    from the root type. -/
inductive Inherits (t : Table) (id : DeclId) : Nat → DeclId → Prop where
  | self : Inherits t id 0 id
  | extended {n : Nat} {x y : DeclId} {d : Declaration} {type : TypeRef} : Inherits t id n x →
      t.nameOf x ≠ Library.object → t.get? x = some d → type ∈ d.interfaces →
      t.lookup type.name = some y → Inherits t id (n + 1) y

theorem not_isRootType_iff : (!t.isRootType id) = true ↔ t.nameOf id ≠ Library.object := by
  simp [isRootType]

theorem mem_parents {x y : DeclId} : y ∈ t.parents x ↔ t.nameOf x ≠ Library.object ∧
    ∃ d, t.get? x = some d ∧ ∃ type ∈ d.interfaces, t.lookup type.name = some y := by
  unfold parents isRootType
  by_cases hroot : t.nameOf x = Library.object
  · simp [hroot]
  · cases hd : t.get? x with
    | none => simp
    | some d => simp [hroot, List.mem_filterMap]

theorem lt_size_of_mem_parents {x : DeclId} : ∀ y ∈ t.parents x, y ∈ List.range t.size := by
  intro y hy
  obtain ⟨_, _, _, _, _, hlookup⟩ := mem_parents.mp hy
  exact List.mem_range.mpr (lt_size_of_lookup hlookup)

theorem foundAfter_parents {n : Nat} {x : DeclId} :
    FoundAfter t.parents [id] n x ↔ t.Inherits id n x := by
  constructor
  · intro h
    induction h with
    | start hx => exact List.mem_singleton.mp hx ▸ .self
    | step _ hy ih =>
      obtain ⟨hroot, d, hd, type, htype, hlookup⟩ := mem_parents.mp hy
      exact .extended ih hroot hd htype hlookup
  · intro h
    induction h with
    | self => exact .start (List.mem_singleton_self _)
    | extended _ hroot hd htype hlookup ih =>
      exact .step ih (mem_parents.mpr ⟨hroot, _, hd, _, htype, hlookup⟩)

section
variable (hid : id < t.size)
include hid

theorem mem_range_of_mem_singleton : ∀ x ∈ [id], x ∈ List.range t.size :=
  fun _ hx => List.mem_range.mpr (List.mem_singleton.mp hx ▸ hid)

theorem breadthFirst_parents_eq :
    breadthFirst t.parents (List.range t.size) [id] = discovered t.parents [id] t.size := by
  have hsearch := breadthFirst_eq_discovered List.nodup_range (mem_range_of_mem_singleton hid)
    fun x => lt_size_of_mem_parents (x := x)
  rwa [List.length_range] at hsearch

/-- The lineage of a declaration in the order of discovery. -/
theorem lineage_eq :
    t.lineage id = (discovered t.parents [id] t.size).filter (!t.isRootType ·) := by
  rw [lineage, breadthFirst_parents_eq hid]

theorem mem_discovered_parents {x : DeclId} :
    x ∈ discovered t.parents [id] t.size ↔ ∃ n, t.Inherits id n x := by
  have hmem := mem_breadthFirst_iff_foundAfter List.nodup_range (mem_range_of_mem_singleton hid)
    (fun x => lt_size_of_mem_parents (x := x)) (x := x)
  rw [breadthFirst_parents_eq hid] at hmem
  exact hmem.trans (exists_congr fun n => foundAfter_parents)

theorem mem_lineage {x : DeclId} :
    x ∈ t.lineage id ↔ (∃ n, t.Inherits id n x) ∧ t.nameOf x ≠ Library.object := by
  rw [lineage_eq hid, List.mem_filter, mem_discovered_parents hid, not_isRootType_iff]

end

/-- Of two types that are inherited from, the one that comes first is not farther away. -/
theorem pairwise_discovered_parents (n : Nat) :
    (discovered t.parents [id] n).Pairwise fun x y =>
      ∀ k, t.Inherits id k y → ∃ m ≤ k, t.Inherits id m x := by
  refine (pairwise_discovered n).imp fun {x y} h k hk => ?_
  obtain ⟨m, hm, hx⟩ := h k (foundAfter_parents.mpr hk)
  exact ⟨m, hm, foundAfter_parents.mp hx⟩

/-! ## The methods -/

/-- What the effective methods of a declaration are to have. -/
structure AreEffective (t : Table) (id : DeclId) (methods : List MethodDescriptor) : Prop where
  /-- Each is a method that is declared in a type that is inherited from, with the parameters as
      they are declared, numbered from 0. -/
  declared : ∀ m ∈ methods, ∃ n x, t.Inherits id n x ∧ t.nameOf x ≠ Library.object ∧
    ∃ m' ∈ t.methodsOf x, m = .ofMethod (t.nameOf x) m' ∧
      m.params.map (·.name) = m'.params.map (·.name) ∧
      m.params.map (·.type) = m'.params.map (·.type) ∧
      m.params.map (·.index) = List.range m'.params.length
  distinct : (methods.map (·.signature)).Nodup
  /-- Every signature of a type that is inherited from is there, from a declaration that is at
      least as near. -/
  nearest : ∀ n x, t.Inherits id n x → t.nameOf x ≠ Library.object → ∀ m ∈ t.ownMethods x,
    ∃ m' ∈ methods, m'.signature = m.signature ∧
      ∃ n' ≤ n, ∃ x', t.Inherits id n' x' ∧ t.nameOf x' ≠ Library.object ∧ m' ∈ t.ownMethods x'

theorem areEffective_effectiveMethods (hid : id < t.size) :
    t.AreEffective id (t.effectiveMethods id) where
  declared := by
    intro m hm
    obtain ⟨x, hx, m', hm', rfl⟩ := mem_effectiveMethods hm
    obtain ⟨⟨n, hinherits⟩, hroot⟩ := (mem_lineage hid).mp hx
    refine ⟨n, x, hinherits, hroot, m', hm', rfl, ?_, ?_, ?_⟩
    · exact List.ext_getElem (by simp [MethodDescriptor.ofMethod])
        (by simp [MethodDescriptor.ofMethod])
    · exact List.ext_getElem (by simp [MethodDescriptor.ofMethod])
        (by simp [MethodDescriptor.ofMethod])
    · rw [MethodDescriptor.indices_ofMethod]
      simp [MethodDescriptor.ofMethod]
  distinct := (signatures_firstOfSignature [] _).1
  nearest := by
    intro n x hinherits hroot m hm
    -- the lineage lists nearer interfaces in front of farther ones
    have hpairwise : (t.lineage id).Pairwise fun x y =>
        ∀ k, t.Inherits id k y → ∃ m ≤ k, t.Inherits id m x := by
      rw [lineage_eq hid]
      exact (pairwise_discovered_parents t.size).filter _
    obtain ⟨m', hm', hsignature, x', hx', hown, hnear⟩ := exists_nearest_of_mem
      (fun _ k hk => ⟨k, Nat.le_refl k, hk⟩) hpairwise
      ((mem_lineage hid).mpr ⟨⟨n, hinherits⟩, hroot⟩) hm
    obtain ⟨n', hn', hinherits'⟩ := hnear n hinherits
    exact ⟨m', hm', hsignature, n', hn', x', hinherits', ((mem_lineage hid).mp hx').2, hown⟩

theorem methods_eq_of_describe {isActor : Bool} {i : InterfaceDescriptor}
    (h : t.describe id isActor = some i) : i.methods = t.effectiveMethods id := by
  obtain ⟨d, _, rfl⟩ := Option.map_eq_some_iff.mp h
  rfl

/-- Every declaration has a descriptor, whatever its hierarchy looks like.  Its methods are the
    first of each signature among those of the types that it inherits from.  These are the types
    that can be reached over extended interfaces without a step from the root type, each once, in
    the order of first discovery. -/
theorem methods_of_describe (t : Table) {id : DeclId} {d : Declaration} (hd : t.get? id = some d)
    (isActor : Bool) :
    let types := discovered t.parents [id] t.size
    let declared := (types.filter (t.nameOf · != Library.object)).flatMap t.ownMethods
    ∃ i, t.describe id isActor = some i ∧
      i.methods = declared.eraseDupsBy (fun m m' => m.signature == m'.signature) ∧
      types.Nodup ∧ (∀ x, x ∈ types ↔ ∃ n, t.Inherits id n x) ∧
      (types.Pairwise fun x y => ∀ k, t.Inherits id k y → ∃ m ≤ k, t.Inherits id m x) ∧
      t.AreEffective id i.methods := by
  intro types declared
  have hid := lt_size_of_get? hd
  obtain ⟨i, hi⟩ : ∃ i, t.describe id isActor = some i := by
    rw [describe, hd]
    exact ⟨_, rfl⟩
  have hmethods := methods_eq_of_describe hi
  refine ⟨i, hi, ?_, nodup_discovered _, fun _ => mem_discovered_parents hid,
    pairwise_discovered_parents _, ?_⟩
  · have hnone : ∀ ms : List MethodDescriptor,
        ms.filter (!([] : List String).contains ·.signature) = ms :=
      fun ms => List.filter_eq_self.mpr fun _ _ => rfl
    rw [hmethods, effectiveMethods, firstOfSignature_eq, hnone, lineage_eq hid]
    rfl
  · rw [hmethods]
    exact areEffective_effectiveMethods hid

/-- A hierarchy that comes back to its start.  A method is declared again farther away, and the root
    type is extended. -/
theorem methods_of_describe_cyclic :
    let t := (build (unitsOfText none
        "package orbit.lang; interface Object { T h(); } interface A extends B, C { T f(int x); }" ++
      unitsOfText none
        "package orbit.lang; interface B extends C { T g(); }" ++
      unitsOfText none
        "package orbit.lang; interface C extends A, Object { T f(int y); T k(); T g(); }")).1
    ∃ d i, t.get? 1 = some d ∧ t.describe 1 true = some i ∧ t.AreEffective 1 i.methods ∧
      discovered t.parents [1] t.size = [1, 2, 3, 0] ∧
      i.methods.map (·.declaredIn) = ["orbit.lang.A", "orbit.lang.B", "orbit.lang.C"] ∧
      i.methods.map (·.signature) = ["f(int)", "g()", "k()"] := by
  intro t
  obtain ⟨hsome, hfound, hdeclared, hsignatures⟩ : (t.get? 1).isSome = true ∧
      discovered t.parents [1] t.size = [1, 2, 3, 0] ∧
      (t.effectiveMethods 1).map (·.declaredIn) =
        ["orbit.lang.A", "orbit.lang.B", "orbit.lang.C"] ∧
      (t.effectiveMethods 1).map (·.signature) = ["f(int)", "g()", "k()"] := by
    unfold t
    rw [unitsOfText_eq _ _ rfl, unitsOfText_eq _ _ rfl, unitsOfText_eq _ _ rfl]
    decide +kernel
  obtain ⟨d, hd⟩ := Option.isSome_iff_exists.mp hsome
  obtain ⟨i, hi, _, _, _, _, heffective⟩ := methods_of_describe t hd true
  have hmethods := methods_eq_of_describe hi
  refine ⟨d, i, hd, hi, heffective, hfound, ?_, ?_⟩
  · rw [hmethods]
    exact hdeclared
  · rw [hmethods]
    exact hsignatures

end Table

end ActorIdl
