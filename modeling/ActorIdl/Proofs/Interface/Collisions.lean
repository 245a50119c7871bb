import ActorIdl.Interface.Collision
import ActorIdl.Proofs.Lists
/-! # Shared identifiers

    Methods of one interface can share an identifier, and so can interfaces of one round.  In both
    cases the elements of a list are grouped by a key that some of them have, and in each group with
    two or more elements every two neighbours are reported, which makes one report less than there
    are elements.

    Of the methods that share an identifier with another method of their interface none is left, and
    all others are.  So the identifiers that are left tell the methods apart, whether or not every
    method has one. -/

namespace ActorIdl

/-! ## Positions in a list -/

section
variable {α : Type}

theorem filterMap_getElem?_range (xs : List α) :
    (List.range xs.length).filterMap (xs[·]?) = xs := by
  induction xs with
  | nil => rfl
  | cons x xs ih =>
    rw [List.length_cons, List.range_succ_eq_map, List.filterMap_cons_some List.getElem?_cons_zero,
      List.filterMap_map]
    exact congrArg (x :: ·) ih

/-- To filter a list is to keep the positions of the elements that stay. -/
theorem filter_eq_filterMap_positions (keep : α → Bool) (xs : List α) :
    xs.filter keep =
      ((List.range xs.length).filter fun k => xs[k]?.any keep).filterMap (xs[·]?) := by
  rw [List.filterMap_filter]
  conv_lhs => rw [← filterMap_getElem?_range xs, List.filter_filterMap]
  refine List.filterMap_congr fun k _ => ?_
  cases xs[k]? with
  | none => exact (ite_self _).symm
  | some x => exact Option.filter_some

/-- Where one element has a property, two or more have it exactly if one has it elsewhere. -/
theorem two_le_length_filter_iff {p : α → Bool} {xs : List α} {k : Nat} {x : α}
    (hk : xs[k]? = some x) (hx : p x = true) :
    2 ≤ (xs.filter p).length ↔ ∃ (j : Nat) (y : α), j ≠ k ∧ xs[j]? = some y ∧ p y = true := by
  induction xs generalizing k with
  | nil => cases hk
  | cons a rest ih =>
    cases k with
    | zero =>
      -- the others are those of the rest
      obtain rfl : a = x := Option.some.inj hk
      rw [List.filter_cons_of_pos hx, List.length_cons]
      constructor
      · intro htwo
        obtain ⟨y, hy⟩ := List.exists_mem_of_length_pos (l := rest.filter p) (by omega)
        obtain ⟨hmem, hp⟩ := List.mem_filter.mp hy
        obtain ⟨j, hj⟩ := List.mem_iff_getElem?.mp hmem
        exact ⟨j + 1, y, Nat.succ_ne_zero j, hj, hp⟩
      · rintro ⟨j, y, hne, hj, hp⟩
        obtain ⟨j, rfl⟩ := Nat.exists_eq_succ_of_ne_zero hne
        have hmem : y ∈ rest.filter p := List.mem_filter.mpr ⟨List.mem_of_getElem? hj, hp⟩
        have := List.length_pos_of_mem hmem
        omega
    | succ k =>
      by_cases ha : p a = true
      · -- then the first element is another one
        have hmem : x ∈ rest.filter p := List.mem_filter.mpr ⟨List.mem_of_getElem? hk, hx⟩
        have := List.length_pos_of_mem hmem
        rw [List.filter_cons_of_pos ha, List.length_cons]
        exact iff_of_true (by omega) ⟨0, a, (Nat.succ_ne_zero k).symm, rfl, ha⟩
      · rw [List.filter_cons_of_neg ha, ih hk]
        constructor
        · rintro ⟨j, y, hne, hj, hp⟩
          exact ⟨j + 1, y, fun heq => hne (Nat.succ.inj heq), hj, hp⟩
        · rintro ⟨j, y, hne, hj, hp⟩
          cases j with
          | zero =>
            obtain rfl := Option.some.inj hj
            exact absurd hp ha
          | succ j => exact ⟨j, y, fun heq => hne (congrArg Nat.succ heq), hj, hp⟩

end

/-! ## Groups -/

section
variable {α κ : Type} {key : α → Option κ} {value : κ → Int32} {xs : List α}

/-- The elements of a list that share keys, grouped by key: each key that two or more elements have,
    together with all of these in their order.  The keys ascend. -/
structure GroupsShared [BEq κ] (key : α → Option κ) (value : κ → Int32) (xs : List α)
    (groups : List (κ × List α)) : Prop where
  ascending : groups.Pairwise fun g g' => value g.1 < value g'.1
  elements : ∀ g ∈ groups, g.2 = xs.filter (key · == some g.1)
  shared : ∀ k, (∃ g ∈ groups, g.1 = k) ↔ 2 ≤ (xs.filter (key · == some k)).length

/-- One error report about every two neighbours in a group, so one less than there are elements. -/
structure ReportsGroup (code : String) (report : κ → α → α → Diagnostic) (g : κ × List α)
    (ds : List Diagnostic) : Prop where
  pairs : ds = (g.2.zip g.2.tail).map fun pair => report g.1 pair.1 pair.2
  count : ds.length + 1 = g.2.length
  errors : ∀ d ∈ ds, d.isError = true ∧ d.cause.code? = some code

/-- The elements that share keys are reported group by group. -/
def ReportsShared [BEq κ] (key : α → Option κ) (value : κ → Int32) (xs : List α) (code : String)
    (report : κ → α → α → Diagnostic) (ds : List Diagnostic) : Prop :=
  ∃ (groups : List (κ × List α)) (reports : κ × List α → List Diagnostic),
    GroupsShared key value xs groups ∧ ds = groups.flatMap reports ∧
      ∀ g ∈ groups, ReportsGroup code report g (reports g)

theorem neighbours_eq_zip (xs : List α) : neighbours xs = xs.zip xs.tail := by
  induction xs with
  | nil => rfl
  | cons a rest ih =>
    cases rest with
    | nil => rfl
    | cons b rest => exact congrArg ((a, b) :: ·) ih

theorem neighbours_eq_nil {xs : List α} (h : ¬ 2 ≤ xs.length) : neighbours xs = [] := by
  rw [neighbours_eq_zip, List.eq_nil_iff_length_eq_zero, List.length_zip, List.length_tail]
  omega

/-- Keys that fewer than two elements have add nothing. -/
theorem flatMap_neighbours (group : κ → List α) (report : κ → α × α → Diagnostic) (ks : List κ) :
    (ks.flatMap fun k => (neighbours (group k)).map (report k)) =
      ((ks.filter fun k => 2 ≤ (group k).length).map fun k => (k, group k)).flatMap
        fun g => (neighbours g.2).map (report g.1) := by
  induction ks with
  | nil => rfl
  | cons k ks ih =>
    rw [List.flatMap_cons, ih, List.filter_cons]
    by_cases hk : 2 ≤ (group k).length
    · rw [if_pos (decide_eq_true hk), List.map_cons, List.flatMap_cons]
    · rw [if_neg (by simpa using hk), neighbours_eq_nil hk]
      rfl

variable [BEq κ] [LawfulBEq κ]

/-- The distinct keys of a list in ascending order. -/
theorem pairwise_ascending (hinj : Function.Injective value) (ks : List κ) :
    (ks.eraseDups.mergeSort fun a b => value a ≤ value b).Pairwise (value · < value ·) := by
  have htrans : ∀ a b c : κ, decide (value a ≤ value b) = true →
      decide (value b ≤ value c) = true → decide (value a ≤ value c) = true :=
    fun a b c hab hbc =>
      decide_eq_true (Int32.le_trans (of_decide_eq_true hab) (of_decide_eq_true hbc))
  have htotal : ∀ a b : κ, (decide (value a ≤ value b) || decide (value b ≤ value a)) = true := by
    intro a b
    rw [Bool.or_eq_true, decide_eq_true_iff, decide_eq_true_iff]
    exact Int32.le_total _ _
  have hsorted := List.pairwise_mergeSort htrans htotal ks.eraseDups
  have hnodup : (ks.eraseDups.mergeSort fun a b => value a ≤ value b).Nodup :=
    List.nodup_mergeSort.mpr (nodup_eraseDups ks)
  refine hsorted.imp₂ (fun a b hle hne => ?_) hnodup
  exact Int32.lt_of_le_of_ne (of_decide_eq_true hle) fun h => hne (hinj h)

/-- To go through the keys in ascending order and report neighbours is to report what is shared. -/
theorem reportsShared_of_keys (hinj : Function.Injective value) {code : String}
    {report : κ → α → α → Diagnostic}
    (hreport : ∀ k a b, (report k a b).isError = true ∧ (report k a b).cause.code? = some code)
    {ks : List κ} (hks : ks = (xs.filterMap key).eraseDups.mergeSort fun a b => value a ≤ value b) :
    ReportsShared key value xs code report
      (ks.flatMap fun k => (neighbours (xs.filter (key · == some k))).map
        fun pair => report k pair.1 pair.2) := by
  refine ⟨_, _, ⟨?_, ?_, fun k => ?_⟩,
    flatMap_neighbours (fun k => xs.filter (key · == some k)) (fun k pair => report k pair.1 pair.2)
      ks, fun g hg => ?_⟩
  · exact List.pairwise_map.mpr ((hks ▸ pairwise_ascending hinj _).filter _)
  · intro g hg
    obtain ⟨k, _, rfl⟩ := List.mem_map.mp hg
    rfl
  · constructor
    · rintro ⟨g, hg, rfl⟩
      obtain ⟨k, hk, rfl⟩ := List.mem_map.mp hg
      exact of_decide_eq_true (List.mem_filter.mp hk).2
    · -- a key that elements have is among the keys
      intro htwo
      obtain ⟨x, hx⟩ := List.exists_mem_of_length_pos (l := xs.filter (key · == some k)) (by omega)
      obtain ⟨hmem, hkey⟩ := List.mem_filter.mp hx
      refine ⟨_, List.mem_map_of_mem (List.mem_filter.mpr ⟨?_, decide_eq_true htwo⟩), rfl⟩
      rw [hks, List.mem_mergeSort, List.mem_eraseDups, List.mem_filterMap]
      exact ⟨x, hmem, beq_iff_eq.mp hkey⟩
  · obtain ⟨k, hk, rfl⟩ := List.mem_map.mp hg
    have htwo : 2 ≤ (xs.filter (key · == some k)).length :=
      of_decide_eq_true (List.mem_filter.mp hk).2
    refine ⟨by rw [neighbours_eq_zip], ?_, fun d hd => ?_⟩
    · dsimp only
      rw [List.length_map, neighbours_eq_zip, List.length_zip, List.length_tail]
      omega
    · obtain ⟨pair, _, rfl⟩ := List.mem_map.mp hd
      exact hreport k _ _

end

/-! ## Methods -/

namespace InterfaceDescriptor

variable {i : InterfaceDescriptor} {k : Nat}

/-- The method at a position has an identifier, and a method at another position has it too. -/
def SharesId (i : InterfaceDescriptor) (k : Nat) : Prop :=
  ∃ (m m' : MethodDescriptor) (id : MethodId) (j : Nat), j ≠ k ∧ i.methods[k]? = some m ∧
    i.methods[j]? = some m' ∧ m.methodId = some id ∧ m'.methodId = some id

/-- What is left of an interface: it loses the methods that share an identifier, and all else stays
    as it is, the other methods in their order. -/
structure LosesSharers (i left : InterfaceDescriptor) : Prop where
  kept : ∃ positions : List Nat, positions.Pairwise (· < ·) ∧
    (∀ k, k ∈ positions ↔ k < i.methods.length ∧ ¬ i.SharesId k) ∧
      left = { i with methods := positions.filterMap (i.methods[·]?) }
  distinct : (left.methods.filterMap (·.methodId)).Nodup

theorem hasOwnId_iff {m : MethodDescriptor} (hm : i.methods[k]? = some m) :
    i.hasOwnId m = true ↔ ¬ i.SharesId k := by
  unfold hasOwnId
  cases hid : m.methodId with
  | none =>
    refine iff_of_true rfl ?_
    rintro ⟨m', _, id, _, _, hm', _, hid', _⟩
    obtain rfl := Option.some.inj (hm.symm.trans hm')
    rw [hid] at hid'
    cases hid'
  | some id =>
    -- the method is among those with its id, so a second one is another method
    have hshared := two_le_length_filter_iff (p := fun m => m.methodId == some id) hm
      (by rw [hid]; exact beq_self_eq_true _)
    have hiff : i.SharesId k ↔ 2 ≤ (i.methodsWithId id).length := by
      rw [methodsWithId, hshared]
      constructor
      · rintro ⟨m₁, m₂, id', j, hne, hm₁, hm₂, hid₁, hid₂⟩
        obtain rfl := Option.some.inj (hm.symm.trans hm₁)
        obtain rfl := Option.some.inj (hid.symm.trans hid₁)
        exact ⟨j, m₂, hne, hm₂, beq_iff_eq.mpr hid₂⟩
      · rintro ⟨j, m₂, hne, hm₂, hid₂⟩
        exact ⟨m, m₂, id, j, hne, hm, hm₂, hid, beq_iff_eq.mp hid₂⟩
    rw [hiff, decide_eq_true_iff, Nat.not_le]

/-- The identifiers that are left are distinct. -/
theorem nodup_ids_dropCollisions (i : InterfaceDescriptor) :
    (i.dropCollisions.methods.filterMap (·.methodId)).Nodup := by
  rw [List.nodup_iff_count_le_one]
  intro id
  rw [List.count_filterMap]
  by_cases hleft : ∃ m ∈ i.dropCollisions.methods, m.methodId = some id
  · -- it occurs once among all methods, so at most once among those that stay
    obtain ⟨m, hm, hid⟩ := hleft
    have hlt : (i.methodsWithId id).length < 2 := by
      simpa [hasOwnId, hid] using (List.mem_filter.mp hm).2
    calc i.dropCollisions.methods.countP (·.methodId == some id)
        ≤ i.methods.countP (·.methodId == some id) := List.filter_sublist.countP_le
      _ = (i.methodsWithId id).length := List.countP_eq_length_filter
      _ ≤ 1 := by omega
  · rw [List.countP_eq_zero.mpr fun m hm h => hleft ⟨m, hm, beq_iff_eq.mp h⟩]
    exact Nat.zero_le 1

theorem losesSharers_dropCollisions (i : InterfaceDescriptor) :
    i.LosesSharers i.dropCollisions where
  kept := by
    refine ⟨(List.range i.methods.length).filter fun k => i.methods[k]?.any i.hasOwnId,
      List.pairwise_lt_range.filter _, fun k => ?_, ?_⟩
    · rw [List.mem_filter, List.mem_range]
      refine and_congr_right fun hlt => ?_
      rw [List.getElem?_eq_getElem hlt, Option.any_some,
        hasOwnId_iff (List.getElem?_eq_getElem hlt)]
    · rw [← filter_eq_filterMap_positions]
      rfl
  distinct := i.nodup_ids_dropCollisions

theorem reportsShared_collisionReports (t : Table) (i : InterfaceDescriptor) :
    ReportsShared (·.methodId) (·.value) i.methods "E0301"
      (fun id first second =>
        t.reportAt i.decl (.methodIdCollision id first.signature second.signature))
      (i.collisionReports t) :=
  reportsShared_of_keys (fun a b h => by cases a; cases b; exact congrArg MethodId.mk h)
    (fun _ _ _ => ⟨rfl, rfl⟩) rfl

end InterfaceDescriptor

/-! ## Interfaces -/

theorem reportsShared_interfaceCollisionReports (t : Table) (is : List InterfaceDescriptor) :
    ReportsShared (fun i => some i.interfaceId) (·.value) is "E0302"
      (fun id first second =>
        t.reportAt second.decl (.interfaceIdCollision id first.qualifiedName second.qualifiedName))
      (interfaceCollisionReports t is) := by
  have hids : interfaceIds is =
      (is.filterMap fun i => some i.interfaceId).eraseDups.mergeSort fun a b => a.value ≤ b.value := by
    rw [interfaceIds, List.filterMap_eq_map']
  exact reportsShared_of_keys (fun a b h => by cases a; cases b; exact congrArg InterfaceId.mk h)
    (fun _ _ _ => ⟨rfl, rfl⟩) hids

/-- Each interface stays and loses exactly the methods that share an identifier with another one of
    its methods.  Reported are, interface by interface, the pairs of neighbouring methods with one
    identifier, then the pairs of neighbouring interfaces with one identifier, and nothing else. -/
theorem collisions_of_interfaces (t : Table) (is : List InterfaceDescriptor) :
    List.Forall₂ InterfaceDescriptor.LosesSharers is (is.map (·.dropCollisions)) ∧
      collisionReports t is = is.flatMap (·.collisionReports t) ++ interfaceCollisionReports t is ∧
      (∀ i ∈ is, ReportsShared (·.methodId) (·.value) i.methods "E0301"
        (fun id first second =>
          t.reportAt i.decl (.methodIdCollision id first.signature second.signature))
        (i.collisionReports t)) ∧
      ReportsShared (fun i => some i.interfaceId) (·.value) is "E0302"
        (fun id first second =>
          t.reportAt second.decl
            (.interfaceIdCollision id first.qualifiedName second.qualifiedName))
        (interfaceCollisionReports t is) := by
  refine ⟨?_, rfl, fun i _ => i.reportsShared_collisionReports t,
    reportsShared_interfaceCollisionReports t is⟩
  rw [List.forall₂_map_right_iff, List.forall₂_same]
  exact fun i _ => i.losesSharers_dropCollisions

end ActorIdl
