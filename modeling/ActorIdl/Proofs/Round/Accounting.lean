import ActorIdl.Proofs.Declaration.Resolution
import ActorIdl.Proofs.Plan.WellFormed
import ActorIdl.Proofs.Round.Reports
/-! # Declared methods are accounted for

    A remote interface can lose methods in three places.  The contract leaves out methods that break
    one of its rules, and methods that share an identifier are left out together; both report
    everything that they leave out.  Before that, only the first of the methods with one signature
    becomes an effective method, and those of the root type do not count at all; nothing is reported
    there.

    So a method that an interface declares itself is in the plan of the interface or in a report,
    unless an earlier method of the interface has its signature or the interface is the root
    type. -/

namespace ActorIdl

/-! ## What is left out is reported -/

/-- An error report about a method: at its place about a rule of the contract, or with its signature
    about an identifier that is shared. -/
inductive Diagnostic.IsAbout (d : Diagnostic) (m : MethodDescriptor) : Prop where
  | violation {code : String} : d.isError = true → d.location = some m.location →
      code ∈ ["E0201", "E0202", "E0203", "E0206"] → d.cause.code? = some code → IsAbout d m
  | collision {id : MethodId} {first second : String} : d.isError = true →
      d.cause.code? = some "E0301" → d.cause = .methodIdCollision id first second →
      m.signature ∈ [first, second] → IsAbout d m

namespace MethodDescriptor

theorem isAbout_of_violation {m : MethodDescriptor} {cause : Cause}
    (h : m.violation? = some cause) :
    (⟨cause, some m.location, some m.originName⟩ : Diagnostic).IsAbout m := by
  rcases violation?_cases h with rfl | rfl | rfl | ⟨name, rfl⟩
  · exact .violation rfl rfl (by decide) rfl
  · exact .violation rfl rfl (by decide) rfl
  · exact .violation rfl rfl (by decide) rfl
  · exact .violation rfl rfl (by decide) rfl

/-- Identifiers change neither the place nor the signature of a method. -/
theorem isAbout_assignId {m : MethodDescriptor} {d : Diagnostic} (h : d.IsAbout m.assignId) :
    d.IsAbout m := by
  cases h with
  | violation herror hlocation hmem hcode => exact .violation herror hlocation hmem hcode
  | collision herror hcode hcause hsignature => exact .collision herror hcode hcause hsignature

end MethodDescriptor

/-- In a list of two or more every element has a neighbour. -/
theorem exists_neighbours {α : Type} {x : α} {xs : List α} (hx : x ∈ xs)
    (hlength : 2 ≤ xs.length) : ∃ pair ∈ neighbours xs, x = pair.1 ∨ x = pair.2 := by
  induction xs with
  | nil => cases hx
  | cons a rest ih =>
    cases rest with
    | nil => simp at hlength
    | cons b rest =>
      unfold neighbours
      rcases List.mem_cons.mp hx with rfl | hx
      · exact ⟨_, List.mem_cons_self, .inl rfl⟩
      rcases List.mem_cons.mp hx with rfl | hrest
      · exact ⟨_, List.mem_cons_self, .inr rfl⟩
      · -- then there is a third one, so what follows has two as well
        have htwo : 2 ≤ (b :: rest).length := by
          have := List.length_pos_of_mem hrest
          rw [List.length_cons]
          omega
        obtain ⟨pair, hpair, hor⟩ := ih hx htwo
        exact ⟨pair, List.mem_cons_of_mem _ hpair, hor⟩

namespace InterfaceDescriptor

variable {i : InterfaceDescriptor} {m : MethodDescriptor}

theorem mem_keepValid_or_reported (hm : m ∈ i.methods) :
    m ∈ i.keepValid.methods ∨ ∃ d ∈ i.violationReports, d.IsAbout m := by
  cases h : m.violation? with
  | none => exact .inl (List.mem_filter.mpr ⟨hm, by rw [h]; rfl⟩)
  | some cause =>
    refine .inr ⟨_, List.mem_filterMap.mpr ⟨m, hm, ?_⟩, MethodDescriptor.isAbout_of_violation h⟩
    rw [MethodDescriptor.violationReport?, h]
    rfl

theorem mem_methodIds {id : MethodId} (hm : m ∈ i.methods) (hid : m.methodId = some id) :
    id ∈ i.methodIds := by
  unfold methodIds
  rw [List.mem_mergeSort, List.mem_eraseDups, List.mem_filterMap]
  exact ⟨m, hm, hid⟩

theorem mem_dropCollisions_or_reported (t : Table) (hm : m ∈ i.methods) :
    m ∈ i.dropCollisions.methods ∨ ∃ d ∈ i.collisionReports t, d.IsAbout m := by
  by_cases hown : i.hasOwnId m = true
  · exact .inl (List.mem_filter.mpr ⟨hm, hown⟩)
  · right
    cases hid : m.methodId with
    | none => simp [hasOwnId, hid] at hown
    | some id =>
      -- the method is one of several with its identifier, so it stands in some pair of them
      have hshared : 2 ≤ (i.methodsWithId id).length := by
        rw [hasOwnId, hid] at hown
        exact Nat.le_of_not_lt fun hlt => hown (decide_eq_true hlt)
      have hmem : m ∈ i.methodsWithId id :=
        List.mem_filter.mpr ⟨hm, by rw [hid]; exact beq_self_eq_true _⟩
      obtain ⟨pair, hpair, hor⟩ := exists_neighbours hmem hshared
      refine ⟨_, List.mem_flatMap.mpr ⟨id, mem_methodIds hm hid, List.mem_map_of_mem hpair⟩,
        .collision rfl rfl rfl ?_⟩
      rcases hor with rfl | rfl
      · exact List.mem_cons_self
      · exact List.mem_cons_of_mem _ List.mem_cons_self

/-- An effective method is left with its identifier, or there is a report about it. -/
theorem mem_methods_or_reported (t : Table) (hm : m ∈ i.methods) :
    m.assignId ∈ i.keepValid.assignIds.dropCollisions.methods ∨
      (∃ d ∈ i.violationReports, d.IsAbout m) ∨
        ∃ d ∈ i.keepValid.assignIds.collisionReports t, d.IsAbout m := by
  rcases mem_keepValid_or_reported hm with hvalid | hreported
  · have hassigned : m.assignId ∈ i.keepValid.assignIds.methods := List.mem_map_of_mem hvalid
    rcases mem_dropCollisions_or_reported t hassigned with hleft | ⟨d, hd, habout⟩
    · exact .inl hleft
    · exact .inr (.inr ⟨d, hd, MethodDescriptor.isAbout_assignId habout⟩)
  · exact .inr (.inl hreported)

end InterfaceDescriptor

/-! ## The effective methods of an interface -/

/-- The first method with a signature counts. -/
theorem mem_firstOfSignature {seen : List String} {before after : List MethodDescriptor}
    {m : MethodDescriptor} (hseen : m.signature ∉ seen)
    (hbefore : ∀ m' ∈ before, m'.signature ≠ m.signature) :
    m ∈ firstOfSignature seen (before ++ m :: after) := by
  induction before generalizing seen with
  | nil =>
    rw [List.nil_append, firstOfSignature, if_neg (by simpa using hseen)]
    exact List.mem_cons_self
  | cons b before ih =>
    obtain ⟨hb, hbefore⟩ := List.forall_mem_cons.mp hbefore
    rw [List.cons_append, firstOfSignature]
    split
    · exact ih hseen hbefore
    · refine List.mem_cons_of_mem _ (ih ?_ hbefore)
      exact List.not_mem_cons_of_ne_of_not_mem hb.symm hseen

namespace Table

variable {t : Table} {id : DeclId}

/-- The methods of the interface itself come before those that it inherits. -/
theorem exists_lineage (hid : id < t.size) (hroot : t.nameOf id ≠ Library.object) :
    ∃ above, t.lineage id = id :: above := by
  have hkept : (!t.isRootType id) = true := by
    simpa [isRootType] using hroot
  unfold lineage
  rw [breadthFirst_cons_of_mem (List.mem_range.mpr hid), List.filter_cons, if_pos hkept]
  exact ⟨_, rfl⟩

theorem ofMethod_mem_effectiveMethods (hid : id < t.size) (hroot : t.nameOf id ≠ Library.object)
    {before after : List Method} {m : Method} (hmethods : t.methodsOf id = before ++ m :: after)
    (hfirst : ∀ m' ∈ before, (MethodDescriptor.ofMethod (t.nameOf id) m').signature ≠
      (MethodDescriptor.ofMethod (t.nameOf id) m).signature) :
    .ofMethod (t.nameOf id) m ∈ t.effectiveMethods id := by
  obtain ⟨above, hlineage⟩ := exists_lineage hid hroot
  unfold effectiveMethods
  rw [hlineage, List.flatMap_cons, ownMethods, hmethods, List.map_append, List.map_cons,
    List.append_assoc, List.cons_append]
  refine mem_firstOfSignature List.not_mem_nil fun m' hm' => ?_
  obtain ⟨m₀, hm₀, rfl⟩ := List.mem_map.mp hm'
  exact hfirst m₀ hm₀

end Table

/-! ## A whole round -/

/-- A method that a candidate interface declares is in the plan of the interface, or there is an
    error report about it.  The interface must be an actor or observer interface other than the root
    type, and no earlier method of it may have the same signature. -/
theorem planned_or_reported {σ : Type} (filer : Filer σ) (renderer : Renderer) (s : σ) (t : Table)
    (id : DeclId) (hid : id ∈ t.candidates.interfaces)
    (hrole : t.role id = .actor ∨ t.role id = .observer) (hroot : t.nameOf id ≠ Library.object)
    (before after : List Method) (m : Method) (hmethods : t.methodsOf id = before ++ m :: after)
    (hfirst : ∀ m' ∈ before, (MethodDescriptor.ofMethod (t.nameOf id) m').signature ≠
      (MethodDescriptor.ofMethod (t.nameOf id) m).signature) :
    let r := (processRound filer renderer t .plan s).1
    let declared := MethodDescriptor.ofMethod (t.nameOf id) m
    (∃ p ∈ r.plans, p.decl = id ∧ declared.assignId ∈ p.methods ∧
        declared.assignId.location = m.location) ∨
      ∃ d ∈ r.reports, d.IsAbout declared := by
  intro r declared
  have hr : r = .planned t := congrArg Prod.fst (processRound_plan filer renderer t s)
  have hremote : id ∈ t.remotes := by
    refine List.mem_filter.mpr ⟨hid, ?_⟩
    rcases hrole with hrole | hrole <;> rw [hrole] <;> rfl
  obtain ⟨d, hd⟩ := Table.get?_of_mem_remotes hremote
  obtain ⟨i, hi, hdecl, heffective⟩ : ∃ i, t.describe id (t.role id == .actor) = some i ∧
      i.decl = id ∧ i.methods = t.effectiveMethods id :=
    ⟨_, Table.describe_eq_some_iff.mpr ⟨d, hd, rfl⟩, rfl, rfl⟩
  have hdescribed : i ∈ t.described := List.mem_filterMap.mpr ⟨id, hremote, hi⟩
  have hdeclared : declared ∈ i.methods := by
    rw [heffective]
    exact Table.ofMethod_mem_effectiveMethods (Table.lt_size_of_get? hd) hroot hmethods hfirst
  rw [hr, Round.reports_planned, Round.plans_planned]
  -- an effective method is left, or the contract or the collisions report it
  rcases InterfaceDescriptor.mem_methods_or_reported t hdeclared with
    hleft | ⟨report, hreport, habout⟩ | ⟨report, hreport, habout⟩
  · refine .inl ⟨_, Table.mem_plans.mpr ⟨id, hremote, i, hi, rfl⟩, hdecl, ?_, rfl⟩
    rw [InterfaceDescriptor.methods_ofDescriptor]
    exact hleft
  · refine .inr ⟨report, ?_, habout⟩
    exact List.mem_append_left _ (List.mem_append_right _
      (List.mem_flatMap.mpr ⟨i, hdescribed, hreport⟩))
  · refine .inr ⟨report, List.mem_append_right _ (List.mem_append_left _ ?_), habout⟩
    exact List.mem_flatMap.mpr ⟨_, List.mem_map_of_mem hdescribed, hreport⟩

/-- An actor interface with a method and an overload of it that is not a remote method. -/
def overloadSource : String :=
  "interface I extends orbit.actors.Actor { orbit.concurrent.Task f(int x); void f(long x); }"

theorem planned_or_reported_overload :
    let t := (Table.build (unitsOfText none overloadSource)).1
    ∃ m ∈ t.methodsOf 0, ∃ d ∈ (processRound Outputs.filer .default t .plan (.empty [])).1.reports,
      d.IsAbout (.ofMethod (t.nameOf 0) m) := by
  intro t
  obtain ⟨hid, hrole, hroot, hmethods, hplans⟩ : t.candidates.interfaces = [0] ∧
      t.role 0 = .actor ∧ t.nameOf 0 ≠ Library.object ∧
      (t.methodsOf 0).map (fun m => ((MethodDescriptor.ofMethod (t.nameOf 0) m).signature,
        m.location)) = [("f(int)", ⟨0, ⟨41, 72⟩⟩), ("f(long)", ⟨0, ⟨73, 88⟩⟩)] ∧
      (processRound Outputs.filer .default t .plan (.empty [])).1.plans.map
        (·.methods.map (·.location)) = [[⟨0, ⟨41, 72⟩⟩]] := by
    unfold t
    rw [unitsOfText_eq none overloadSource rfl]
    decide +kernel
  obtain ⟨f, rest, hmethods, hf, hrest⟩ := List.map_eq_cons_iff.mp hmethods
  obtain ⟨g, rest, rfl, hg, hnil⟩ := List.map_eq_cons_iff.mp hrest
  rw [List.map_eq_nil_iff.mp hnil] at hmethods
  refine ⟨g, by simp [hmethods], ?_⟩
  have hfirst : ∀ m ∈ [f], (MethodDescriptor.ofMethod (t.nameOf 0) m).signature ≠
      (MethodDescriptor.ofMethod (t.nameOf 0) g).signature := by
    intro m hm
    rw [List.mem_singleton.mp hm, (Prod.mk.inj hf).1, (Prod.mk.inj hg).1]
    decide
  have hmem : 0 ∈ t.candidates.interfaces := by simp [hid]
  -- the plan has only the other one
  rcases planned_or_reported Outputs.filer .default (.empty []) t 0 hmem (.inl hrole) hroot [f] [] g
    hmethods hfirst with ⟨p, hp, _, hm, hlocation⟩ | hreported
  · have hlocations := List.mem_map_of_mem (f := fun p => p.methods.map (·.location)) hp
    rw [hplans, List.mem_singleton] at hlocations
    have hplace := List.mem_map_of_mem (f := (·.location)) hm
    rw [hlocations, hlocation, (Prod.mk.inj hg).2] at hplace
    exact absurd hplace (by decide)
  · exact hreported

/-! ## Methods that are lost -/

/-- Some method that a remote interface of a source declares is neither in the plan of the interface
    nor in a report. -/
def LosesMethod (text : String) : Prop :=
  let t := (Table.build (unitsOfText none text)).1
  let r := (processRound Outputs.filer .default t .plan (.empty [])).1
  ∃ id ∈ t.candidates.interfaces, (t.role id = .actor ∨ t.role id = .observer) ∧
    ∃ m ∈ t.methodsOf id,
      (∀ p ∈ r.plans, p.decl = id → ∀ m' ∈ p.methods, m'.location ≠ m.location) ∧
        ∀ d ∈ r.reports, ¬ d.IsAbout (.ofMethod (t.nameOf id) m)

/-- Whether the first declaration of a source is an actor interface with a method that no plan has,
    and nothing is reported. -/
def losesMethod (cs : List Char) : Bool :=
  let t := (Table.build ((Syntax.parseChars cs).unit.toList.map fun unit =>
    ⟨unit, 0, none, true⟩)).1
  let r := (processRound Outputs.filer .default t .plan (.empty [])).1
  t.candidates.interfaces.contains 0 && t.role 0 == .actor && r.reports.isEmpty &&
    (t.methodsOf 0).any fun m => r.plans.all fun p => p.methods.all (·.location != m.location)

theorem LosesMethod.of_eq_true {text : String} {cs : List Char} (htext : text = String.ofList cs)
    (h : losesMethod cs = true) : LosesMethod text := by
  unfold losesMethod at h
  rw [← unitsOfText_eq none text htext] at h
  simp only [Bool.and_eq_true, List.contains_iff_mem, beq_iff_eq, List.isEmpty_iff,
    List.any_eq_true, List.all_eq_true, bne_iff_ne] at h
  obtain ⟨⟨⟨hid, hrole⟩, hreports⟩, m, hm, hplans⟩ := h
  refine ⟨0, hid, .inl hrole, m, hm, fun p hp _ => hplans p hp, fun d hd => ?_⟩
  rw [hreports] at hd
  cases hd

/-- Of methods with one signature the later ones are lost, and so are all methods of the root type
    where it is an interface. -/
theorem losesMethod_of_signature :
    LosesMethod "interface I extends orbit.actors.Actor {
        orbit.concurrent.Task f(int x); orbit.concurrent.Task f(int y); }" ∧
      LosesMethod "package orbit.lang;
        interface Object extends orbit.actors.Actor { orbit.concurrent.Task f(); }" := by
  constructor
  · exact .of_eq_true rfl (by decide +kernel)
  · exact .of_eq_true rfl (by decide +kernel)

end ActorIdl
