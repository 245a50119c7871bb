import ActorIdl.Proofs.Build.Single
import ActorIdl.Proofs.Declaration.Renumbering
import ActorIdl.Proofs.Declaration.Subject
import ActorIdl.Proofs.Plan.Compatibility
/-! # Plans do not depend on the order of the units

    What a table says about a declaration goes through numbers only to come back to names: the types
    above a declaration, its role, the methods that it inherits and the order in which it inherits
    them.  So a renumbered table gives the same plans, up to the number of the interface and the
    places of the methods, which are all that a plan keeps of the table it was made from. -/

namespace ActorIdl

/-! ## Without numbers and places -/

/-- The method without the place where it stands. -/
def MethodDescriptor.unplaced (m : MethodDescriptor) : MethodDescriptor :=
  { m with location := default }

/-- The descriptor without the number of its interface and the places of its methods. -/
def InterfaceDescriptor.unplaced (i : InterfaceDescriptor) : InterfaceDescriptor :=
  { i with
    decl := 0
    methods := i.methods.map (·.unplaced) }

/-- The plan without the number of its interface and the places of its methods. -/
def Plan.unplaced (p : Plan) : Plan :=
  { p with
    decl := 0
    methods := p.methods.map (·.unplaced) }

theorem firstOfSignature_unplaced (seen : List String) (ms : List MethodDescriptor) :
    firstOfSignature seen (ms.map (·.unplaced)) = (firstOfSignature seen ms).map (·.unplaced) := by
  induction ms generalizing seen with
  | nil => rfl
  | cons m ms ih =>
    have hsig : m.unplaced.signature = m.signature := rfl
    rw [List.map_cons, firstOfSignature, firstOfSignature, hsig]
    split
    · exact ih seen
    · rw [List.map_cons, ih]

namespace InterfaceDescriptor

variable (i : InterfaceDescriptor)

theorem keepValid_unplaced : i.unplaced.keepValid = i.keepValid.unplaced := by
  unfold keepValid unplaced
  rw [List.filter_map]
  rfl

theorem assignIds_unplaced : i.unplaced.assignIds = i.assignIds.unplaced := by
  unfold assignIds unplaced
  rw [List.map_map, List.map_map]
  rfl

theorem dropCollisions_unplaced : i.unplaced.dropCollisions = i.dropCollisions.unplaced := by
  have hown : i.unplaced.hasOwnId ∘ (·.unplaced) = i.hasOwnId := by
    funext m
    have hlength : ∀ id, (i.unplaced.methodsWithId id).length = (i.methodsWithId id).length := by
      intro id
      unfold methodsWithId unplaced
      rw [List.filter_map, List.length_map]
      rfl
    show i.unplaced.hasOwnId m.unplaced = i.hasOwnId m
    unfold hasOwnId
    simp only [hlength]
    rfl
  unfold dropCollisions
  rw [show i.unplaced.methods = i.methods.map (·.unplaced) from rfl, List.filter_map,
    hown]
  rfl

theorem ofDescriptor_unplaced : Plan.ofDescriptor i.unplaced = (Plan.ofDescriptor i).unplaced := by
  unfold Plan.ofDescriptor Plan.unplaced unplaced
  rw [List.map_map, List.map_map]
  rfl

end InterfaceDescriptor

/-- A search over all declarations finds declarations only. -/
theorem Table.lt_size_of_mem_search {t : Table} {next : DeclId → List DeclId}
    {pending : List DeclId} {id : DeclId}
    (hid : id ∈ breadthFirst next (List.range t.size) pending) : id < t.size :=
  List.mem_range.mp (mem_breadthFirst.mp hid).remains

theorem Table.lt_size_of_mem_remotes {t : Table} {id : DeclId} (hid : id ∈ t.remotes) :
    id < t.size :=
  lt_size_of_isKind (mem_interfaces.mp (List.mem_filter.mp hid).1).2

namespace Table.Renumbers

variable {t t' : Table} {f : DeclId → DeclId} (h : t.Renumbers t' f) {id : DeclId}
include h

/-! ## Declarations under other numbers -/

theorem exists_get? (hid : id < t.size) :
    ∃ d file, t.get? id = some d ∧ t'.get? (f id) = some (d.renumber f file) := by
  obtain ⟨d, hd⟩ := exists_get?_of_lt_size hid
  obtain ⟨file, hd'⟩ := h.get? id d hd
  exact ⟨_, file, hd, hd'⟩

theorem lt_size (hid : id < t.size) : f id < t'.size := by
  obtain ⟨d, file, _, hd'⟩ := h.exists_get? hid
  exact lt_size_of_get? hd'

theorem nameOf (hid : id < t.size) : t'.nameOf (f id) = t.nameOf id := by
  obtain ⟨d, file, hd, hd'⟩ := h.exists_get? hid
  rw [Table.nameOf, Table.nameOf, hd, hd']
  rfl

theorem isGenerated (hid : id < t.size) : t'.isGenerated (f id) = t.isGenerated id := by
  obtain ⟨d, file, hd, hd'⟩ := h.exists_get? hid
  rw [Table.isGenerated, Table.isGenerated, Table.isMarked, Table.isMarked, hd, hd']
  rfl

theorem isKind (hid : id < t.size) (kind : DeclKind) : t'.isKind (f id) kind = t.isKind id kind := by
  obtain ⟨d, file, hd, hd'⟩ := h.exists_get? hid
  rw [Table.isKind, Table.isKind, hd, hd']
  rfl

theorem nestedOf (hid : id < t.size) : t'.nestedOf (f id) = (t.nestedOf id).map f := by
  obtain ⟨d, file, hd, hd'⟩ := h.exists_get? hid
  rw [Table.nestedOf, Table.nestedOf, hd, hd']
  exact d.nested_renumber f file

theorem filterMap_lookup (names : List String) :
    names.filterMap t'.lookup = (names.filterMap t.lookup).map f := by
  rw [List.map_filterMap]
  exact List.filterMap_congr fun name _ => h.lookup name

theorem supertypeNames (hid : id < t.size) : t'.supertypeNames (f id) = t.supertypeNames id := by
  obtain ⟨d, file, hd, hd'⟩ := h.exists_get? hid
  rw [Table.supertypeNames, Table.supertypeNames, hd, hd']
  rfl

theorem supertypes (hid : id < t.size) : t'.supertypes (f id) = (t.supertypes id).map f := by
  rw [Table.supertypes, Table.supertypes, h.supertypeNames hid, h.filterMap_lookup]

theorem isRootType (hid : id < t.size) : t'.isRootType (f id) = t.isRootType id := by
  rw [Table.isRootType, Table.isRootType, h.nameOf hid]

theorem parents (hid : id < t.size) : t'.parents (f id) = (t.parents id).map f := by
  rw [Table.parents, Table.parents, h.isRootType hid]
  split
  · rfl
  · obtain ⟨d, file, hd, hd'⟩ := h.exists_get? hid
    rw [hd, hd']
    have hlookup := h.filterMap_lookup (d.interfaces.map (·.name))
    rw [List.filterMap_map, List.filterMap_map] at hlookup
    exact hlookup

/-! ## Searches -/

/-- A search over all declarations finds the same under other numbers. -/
theorem search {next next' : DeclId → List DeclId}
    (hclosed : ∀ x, x < t.size → ∀ y ∈ next x, y < t.size)
    (hnext : ∀ x, x < t.size → next' (f x) = (next x).map f) (hid : id < t.size) :
    breadthFirst next' (List.range t'.size) [f id] =
      (breadthFirst next (List.range t.size) [id]).map f := by
  have hremaining : ∀ x, x < t.size → (f x ∈ List.range t'.size ↔ x ∈ List.range t.size) := by
    intro x hx
    rw [List.mem_range, List.mem_range]
    exact iff_of_true (h.lt_size hx) hx
  have hpending : ∀ x ∈ [id], x < t.size := List.forall_mem_singleton.mpr hid
  exact breadthFirst_map hclosed hnext h.inj List.nodup_range List.nodup_range hremaining hpending

theorem ancestry (hid : id < t.size) : t'.ancestry (f id) = (t.ancestry id).map f := by
  refine h.search (fun _ _ _ hy => ?_) (fun _ hx => h.supertypes hx) hid
  obtain ⟨_, _, hname⟩ := List.mem_filterMap.mp hy
  exact lt_size_of_lookup hname

theorem reaches (hid : id < t.size) (name : String) :
    t'.reaches (f id) name = t.reaches id name := by
  rw [Table.reaches, Table.reaches, h.ancestry hid, List.any_map, Bool.eq_iff_iff,
    List.any_eq_true, List.any_eq_true]
  refine exists_congr fun above => and_congr_right fun habove => ?_
  rw [Function.comp, h.supertypeNames (lt_size_of_mem_search habove)]

theorem role (hid : id < t.size) : t'.role (f id) = t.role id := by
  rw [Table.role, Table.role, h.reaches hid, h.reaches hid]

theorem lineage (hid : id < t.size) : t'.lineage (f id) = (t.lineage id).map f := by
  have hclosed : ∀ x, x < t.size → ∀ y ∈ t.parents x, y < t.size := by
    intro x _ y hy
    rw [Table.parents] at hy
    split at hy
    · cases hy
    · obtain ⟨_, _, hname⟩ := List.mem_filterMap.mp hy
      exact lt_size_of_lookup hname
  rw [Table.lineage, Table.lineage, h.search hclosed (fun _ hx => h.parents hx) hid, List.filter_map]
  refine congrArg (List.map f) (List.filter_congr fun above habove => ?_)
  rw [Function.comp, h.isRootType (lt_size_of_mem_search habove)]

/-! ## Methods -/

theorem ownMethods (hid : id < t.size) :
    (t'.ownMethods (f id)).map (·.unplaced) = (t.ownMethods id).map (·.unplaced) := by
  obtain ⟨d, file, hd, hd'⟩ := h.exists_get? hid
  rw [Table.ownMethods, Table.ownMethods, h.nameOf hid, Table.methodsOf, Table.methodsOf, hd, hd']
  rw [Option.map_some, Option.map_some, Option.getD_some, Option.getD_some, d.methods_renumber,
    List.map_map, List.map_map, List.map_map]
  rfl

theorem effectiveMethods (hid : id < t.size) :
    (t'.effectiveMethods (f id)).map (·.unplaced) = (t.effectiveMethods id).map (·.unplaced) := by
  rw [Table.effectiveMethods, Table.effectiveMethods, ← firstOfSignature_unplaced,
    ← firstOfSignature_unplaced, h.lineage hid, List.map_flatMap, List.map_flatMap,
    List.flatMap_map]
  refine congrArg _ (List.flatMap_congr fun above habove => ?_)
  exact h.ownMethods (lt_size_of_mem_search (List.mem_filter.mp habove).1)

theorem describe (hid : id < t.size) (isActor : Bool) :
    (t'.describe (f id) isActor).map (·.unplaced) = (t.describe id isActor).map (·.unplaced) := by
  have hmethods := h.effectiveMethods hid
  obtain ⟨d, file, hd, hd'⟩ := h.exists_get? hid
  rw [Table.describe, Table.describe, hd, hd']
  rw [Option.map_some, Option.map_some, Option.map_some, Option.map_some]
  unfold InterfaceDescriptor.unplaced
  dsimp only
  rw [hmethods]
  rfl

/-! ## The plans -/

theorem isSubject (hs : t.IsSubject id) (hid : id < t.size) : t'.IsSubject (f id) := by
  induction hs with
  | root hr hg => exact .root (h.roots _ hr) ((h.isGenerated hid).trans hg)
  | nested _ hn hg ih =>
    have hlt := lt_size_of_mem_nestedOf hn
    refine .nested (ih hlt) ?_ ((h.isGenerated hid).trans hg)
    rw [h.nestedOf hlt]
    exact List.mem_map_of_mem hn

theorem mem_remotes (hid : id ∈ t.remotes) : f id ∈ t'.remotes := by
  obtain ⟨hi, hrole⟩ := List.mem_filter.mp hid
  obtain ⟨hs, hk⟩ := mem_interfaces.mp hi
  have hlt := lt_size_of_isKind hk
  refine List.mem_filter.mpr ⟨mem_interfaces.mpr ⟨h.isSubject hs hlt, ?_⟩, ?_⟩
  · rwa [h.isKind hlt]
  · rwa [h.role hlt]

theorem remotes_subperm : (t.remotes.map f).Subperm t'.remotes := by
  refine List.subperm_of_subset ?_ fun id' hid' => ?_
  · refine List.Nodup.map_on (fun x hx y hy heq => ?_) (nodup_interfaces.filter _)
    exact h.inj x y (lt_size_of_mem_remotes hx) (lt_size_of_mem_remotes hy) heq
  · obtain ⟨id, hid, rfl⟩ := List.mem_map.mp hid'
    exact h.mem_remotes hid

end Table.Renumbers

namespace Table

/-- The plan of a remote interface without numbers and places. -/
def unplacedPlan? (t : Table) (id : DeclId) : Option Plan :=
  (t.describe id (t.role id == .actor)).map fun i =>
    (Plan.ofDescriptor i.keepValid.assignIds.dropCollisions).unplaced

theorem map_unplaced_plans (t : Table) :
    t.plans.map (·.unplaced) = t.remotes.filterMap t.unplacedPlan? := by
  rw [plans, descriptors, described, List.map_map, List.map_map, List.map_filterMap]
  rfl

theorem Renumbers.unplacedPlan? {t t' : Table} {f : DeclId → DeclId} (h : t.Renumbers t' f)
    {id : DeclId} (hid : id < t.size) : t'.unplacedPlan? (f id) = t.unplacedPlan? id := by
  have hplan : ∀ i : InterfaceDescriptor,
      (Plan.ofDescriptor i.keepValid.assignIds.dropCollisions).unplaced =
        Plan.ofDescriptor i.unplaced.keepValid.assignIds.dropCollisions := by
    intro i
    rw [i.keepValid_unplaced, InterfaceDescriptor.assignIds_unplaced,
      InterfaceDescriptor.dropCollisions_unplaced, InterfaceDescriptor.ofDescriptor_unplaced]
  have hdescribe := h.describe hid (t.role id == .actor)
  have hmap := congrArg (Option.map fun i : InterfaceDescriptor =>
    Plan.ofDescriptor i.keepValid.assignIds.dropCollisions) hdescribe
  rw [Option.map_map, Option.map_map] at hmap
  rw [Table.unplacedPlan?, Table.unplacedPlan?, h.role hid]
  simp only [hplan]
  exact hmap

/-- Tables that are renumberings of each other have the same plans. -/
theorem plans_perm_of_renumbers {t t' : Table} {f f' : DeclId → DeclId} (h : t.Renumbers t' f)
    (h' : t'.Renumbers t f') : (t.plans.map (·.unplaced)).Perm (t'.plans.map (·.unplaced)) := by
  have hremotes : (t.remotes.map f).Perm t'.remotes := by
    refine h.remotes_subperm.perm_of_length_le ?_
    have hle := h'.remotes_subperm.length_le
    rwa [List.length_map] at hle ⊢
  have hplans : (t.remotes.map f).filterMap t'.unplacedPlan? = t.remotes.filterMap t.unplacedPlan? := by
    rw [List.filterMap_map]
    exact List.filterMap_congr fun id hid => h.unplacedPlan? (lt_size_of_mem_remotes hid)
  rw [map_unplaced_plans, map_unplaced_plans, ← hplans]
  exact hremotes.filterMap _

end Table

/-- Root units that together with those in front of them declare no qualified name twice can be
    given in any order and from any files: a round makes the same plans, up to the numbers of the
    interfaces and the places of their methods, and therefore with the same identifiers. -/
theorem plans_of_reordered {σ : Type} (filer : Filer σ) (renderer : Renderer) (s s' : σ)
    (prelude roots roots' : List SourceUnit)
    (hperm : (roots.map (·.inFile 0)).Perm (roots'.map (·.inFile 0)))
    (hnames : ((prelude ++ roots).flatMap (·.declaredNames)).Nodup) :
    ((processRound filer renderer (Table.build (prelude ++ roots)).1 .plan s).1.plans.map
        (·.unplaced)).Perm
      ((processRound filer renderer (Table.build (prelude ++ roots')).1 .plan s').1.plans.map
        (·.unplaced)) := by
  have hunits : ((prelude ++ roots).map (·.inFile 0)).Perm ((prelude ++ roots').map (·.inFile 0)) := by
    rw [List.map_append, List.map_append]
    exact hperm.append_left _
  have hnames' := (Table.declaredNames_perm hunits).nodup hnames
  rw [plans_processRound filer renderer _ s (by decide),
    plans_processRound filer renderer _ s' (by decide)]
  exact Table.plans_perm_of_renumbers (Table.renumbers_of_perm hunits hnames)
    (Table.renumbers_of_perm hunits.symm hnames')

/-- The units of the library, which a build has in front of all others. -/
def preludeUnits : List SourceUnit :=
  Build.unitsOf (Build.parseTexts 0 Build.libraryTexts.1).1 Build.librarySources.length

/-- The units of two sources behind the library. -/
def unitsOfPair (first second : String) : List SourceUnit :=
  (unitsOfText none first).map (·.inFile 4) ++ (unitsOfText none second).map (·.inFile 5)

/-- The plans of two sources behind the library. -/
def plansOfPair (first second : String) : List Plan :=
  (processRound Outputs.filer .default (Table.build (preludeUnits ++ unitsOfPair first second)).1
    .plan (.empty [])).1.plans

theorem unitsOfPair_perm (first second : String) :
    ((unitsOfPair first second).map (·.inFile 0)).Perm
      ((unitsOfPair second first).map (·.inFile 0)) := by
  simp only [unitsOfPair, List.map_append, List.map_map]
  exact List.perm_append_comm

/-- Two interfaces that refer to each other. -/
theorem plans_of_reordered_pair :
    let first := "interface I extends Actor { Task f(J j); }"
    let second := "interface J extends I { Task g(); }"
    (plansOfPair first second).map (·.outline) =
        [("I", [("f(J)", ["j"])]), ("J", [("g()", []), ("f(J)", ["j"])])] ∧
      ((plansOfPair first second).map (·.unplaced)).Perm
        ((plansOfPair second first).map (·.unplaced)) := by
  refine ⟨by decide +kernel, ?_⟩
  exact plans_of_reordered Outputs.filer .default (.empty []) (.empty []) preludeUnits _ _
    (unitsOfPair_perm _ _) (by decide +kernel)

end ActorIdl
