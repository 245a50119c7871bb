import ActorIdl.Proofs.Declaration.Resolution
import ActorIdl.Proofs.Declaration.Subject
import ActorIdl.Proofs.Interface.Methods
import ActorIdl.Proofs.Plan.Dispatch
import ActorIdl.Proofs.Round.Planning
/-! # Plans are complete and well formed

    A round plans every remote interface among its candidates once, in the order of the walk.  What
    makes a plan usable on both sides of a call is stated as `Plan.WellFormed`: methods that keep
    the contract, signatures and identifiers that tell them apart, and a dispatch table that is the
    inverse of the method list.  The stages establish this one after the other, and what one of them
    has established the later ones keep. -/

namespace ActorIdl

/-- A method of a plan: it keeps the contract, its parameters are numbered in order, and its
    identifier is that of its signature. -/
structure MethodDescriptor.WellFormed (m : MethodDescriptor) : Prop extends m.KeepsContract where
  indices : m.params.map (·.index) = List.range m.params.length
  own_id : m.methodId = some (.ofSignature m.signature)

/-- A method of a plan has what the declared method has.  In particular, the parameter at each
    position is the declared one at this position. -/
structure MethodDescriptor.Describes (m : MethodDescriptor) (declaredIn : String) (m' : Method) :
    Prop where
  name : m.name = m'.name
  returnType : m.returnType = m'.returnType
  params : ∀ i, m.params[i]? = m'.params[i]?.map fun p => ParamDescriptor.mk p.name p.type i
  isOneWay : m.isOneWay = m'.isMarked Library.oneWay
  declaredIn : m.declaredIn = declaredIn
  location : m.location = m'.location

/-- A plan whose methods are well formed and can be told apart, by signature and by identifier. -/
structure Plan.WellFormed (p : Plan) : Prop where
  methods : ∀ m ∈ p.methods, m.WellFormed
  signatures : (p.methods.map (·.signature)).Nodup
  ids : (p.methods.map (·.methodId)).Nodup
  dispatch : ∀ id i, p.dispatchTable.get? id = some i ↔
    ∃ m, p.methods[i]? = some m ∧ m.methodId = some id

/-- A plan has the number and the names of a declaration. -/
structure Plan.IsFor (p : Plan) (id : DeclId) (d : Declaration) : Prop where
  decl : p.decl = id
  interfaceName : p.interfaceName = d.qualifiedName
  binaryName : p.binaryName = d.binaryName
  package : p.package = d.package
  simpleName : p.simpleName = d.simpleName
  interfaceId : p.interfaceId = .ofName d.qualifiedName
  factoryName : p.factoryName = baseName d.simpleName ++ "Factory"

/-! ## The methods of a plan -/

namespace MethodDescriptor

theorem describes_ofMethod (declaredIn : String) (m : Method) :
    (ofMethod declaredIn m).assignId.Describes declaredIn m where
  name := rfl
  returnType := rfl
  params := fun _ => List.getElem?_mapIdx
  isOneWay := rfl
  declaredIn := rfl
  location := rfl

theorem Describes.types {m : MethodDescriptor} {declaredIn : String} {m' : Method}
    (h : m.Describes declaredIn m') : m.params.map (·.type) = m'.params.map (·.type) := by
  refine List.ext_getElem? fun i => ?_
  rw [List.getElem?_map, List.getElem?_map, h.params, Option.map_map]
  rfl

theorem effectiveId_of_methodId {m : MethodDescriptor} {id : MethodId} (h : m.methodId = some id) :
    m.effectiveId = id := by
  rw [effectiveId, h, Option.getD_some]

theorem fixId_of_methodId {m : MethodDescriptor} {id : MethodId} (h : m.methodId = some id) :
    m.fixId = m := by
  rw [fixId, effectiveId_of_methodId h, ← h]

end MethodDescriptor

namespace InterfaceDescriptor

/-- After the last filter every method still has the identifier that it was given. -/
theorem mem_methods_dropCollisions {i : InterfaceDescriptor} {m : MethodDescriptor}
    (hm : m ∈ i.keepValid.assignIds.dropCollisions.methods) :
    ∃ m₀ ∈ i.methods, m₀.KeepsContract ∧ m = m₀.assignId := by
  have hm := (List.mem_filter.mp hm).1
  obtain ⟨m₀, hm₀, rfl⟩ := List.mem_map.mp hm
  obtain ⟨hmem, hvalid⟩ := List.mem_filter.mp hm₀
  exact ⟨m₀, hmem, m₀.violation?_eq_none_iff.mp (by simpa using hvalid), rfl⟩

theorem methods_ofDescriptor (i : InterfaceDescriptor) :
    (Plan.ofDescriptor i.keepValid.assignIds.dropCollisions).methods =
      i.keepValid.assignIds.dropCollisions.methods := by
  change List.map _ _ = _
  rw [List.map_congr_left (g := id), List.map_id]
  intro m hm
  obtain ⟨m₀, _, _, rfl⟩ := mem_methods_dropCollisions hm
  exact MethodDescriptor.fixId_of_methodId rfl

/-- The plan of a descriptor whose signatures and indices are in order is well formed. -/
theorem wellFormed_ofDescriptor {i : InterfaceDescriptor}
    (hsigs : (i.methods.map (·.signature)).Nodup)
    (hindices : ∀ m ∈ i.methods, m.params.map (·.index) = List.range m.params.length) :
    (Plan.ofDescriptor i.keepValid.assignIds.dropCollisions).WellFormed := by
  have hmethods : ∀ m ∈ (Plan.ofDescriptor i.keepValid.assignIds.dropCollisions).methods,
      m.WellFormed := by
    intro m hm
    rw [methods_ofDescriptor] at hm
    obtain ⟨m₀, hm₀, hkeeps, rfl⟩ := mem_methods_dropCollisions hm
    exact ⟨⟨hkeeps.returns_task, hkeeps.one_way, hkeeps.names⟩, hindices m₀ hm₀, rfl⟩
  have hids : ((Plan.ofDescriptor i.keepValid.assignIds.dropCollisions).methods.map
      (·.methodId)).Nodup := by
    rw [methods_ofDescriptor]
    apply ids_dropCollisions
    intro m hm
    obtain ⟨m₀, _, rfl⟩ := List.mem_map.mp hm
    rfl
  refine ⟨hmethods, ?_, hids, fun id j => ?_⟩
  · -- both filters leave a part of the list, and identifiers do not change signatures
    rw [methods_ofDescriptor]
    have hsub : (i.keepValid.assignIds.dropCollisions.methods.map (·.signature)).Sublist
        (i.methods.map (·.signature)) := by
      calc (i.keepValid.assignIds.dropCollisions.methods.map (·.signature)).Sublist
            (i.keepValid.assignIds.methods.map (·.signature)) := List.filter_sublist.map _
        _ = i.keepValid.methods.map (·.signature) := List.map_map
        List.Sublist _ (i.methods.map (·.signature)) := List.filter_sublist.map _
    exact hsub.nodup hsigs
  · -- every method has been given an identifier, so the table has no other
    have heff : ∀ m ∈ (Plan.ofDescriptor i.keepValid.assignIds.dropCollisions).methods,
        ∀ id, m.effectiveId = id ↔ m.methodId = some id := by
      intro m hm id
      rw [MethodDescriptor.effectiveId_of_methodId (hmethods m hm).own_id, (hmethods m hm).own_id,
        Option.some.injEq]
    have heffs : ((Plan.ofDescriptor i.keepValid.assignIds.dropCollisions).methods.map
        (·.effectiveId)).Nodup := by
      apply List.Nodup.of_map some
      have hsome : ((Plan.ofDescriptor i.keepValid.assignIds.dropCollisions).methods.map
          (some ∘ (·.effectiveId))) = _ :=
        List.map_congr_left fun m hm => ((heff m hm _).mp rfl).symm
      rw [List.map_map, hsome]
      exact hids
    rw [Plan.dispatchTable, DispatchTable.get?_ofMethods_eq_some_iff heffs]
    refine exists_congr fun m => and_congr_right fun hm => heff m (List.mem_of_getElem? hm) id

end InterfaceDescriptor

/-! ## The plans of a round -/

namespace Table

variable {t : Table} {id : DeclId}

theorem get?_of_mem_remotes (h : id ∈ t.remotes) : ∃ d, t.get? id = some d := by
  have hk := (mem_interfaces.mp (List.mem_filter.mp h).1).2
  exact exists_get?_of_lt_size (lt_size_of_isKind hk)

theorem describe_eq_some_iff {isActor : Bool} {i : InterfaceDescriptor} :
    t.describe id isActor = some i ↔ ∃ d, t.get? id = some d ∧ i =
      { decl := id, qualifiedName := d.qualifiedName, binaryName := d.binaryName,
        package := d.package, simpleName := d.simpleName, doc := d.doc,
        annotations := d.annotations, isActor, isNoIdentity := d.isMarked Library.noIdentity,
        methods := t.effectiveMethods id } := by
  rw [describe, Option.map_eq_some_iff]
  exact exists_congr fun d => and_congr_right fun _ => eq_comm

/-- The plan that a remote interface gets. -/
theorem mem_plans {p : Plan} : p ∈ t.plans ↔ ∃ id ∈ t.remotes, ∃ i,
    t.describe id (t.role id == .actor) = some i ∧
      p = .ofDescriptor i.keepValid.assignIds.dropCollisions := by
  simp only [plans, descriptors, described, List.mem_map, List.mem_filterMap]
  constructor
  · rintro ⟨_, ⟨i, ⟨id, hid, hi⟩, rfl⟩, rfl⟩
    exact ⟨id, hid, i, hi, rfl⟩
  · rintro ⟨id, hid, i, hi, rfl⟩
    exact ⟨_, ⟨i, ⟨id, hid, hi⟩, rfl⟩, rfl⟩

/-- There is one plan for each remote interface, in their order. -/
theorem decls_plans (t : Table) : t.plans.map (·.decl) = t.remotes := by
  have hdecl : ∀ ids : List DeclId, (∀ id ∈ ids, ∃ d, t.get? id = some d) →
      (ids.filterMap fun id => t.describe id (t.role id == .actor)).map (·.decl) = ids := by
    intro ids hids
    induction ids with
    | nil => rfl
    | cons id ids ih =>
      obtain ⟨d, hd⟩ := hids id List.mem_cons_self
      obtain ⟨i, hi, hid⟩ : ∃ i, t.describe id (t.role id == .actor) = some i ∧ i.decl = id :=
        ⟨_, describe_eq_some_iff.mpr ⟨d, hd, rfl⟩, rfl⟩
      have htail := ih fun id hid => hids id (List.mem_cons_of_mem _ hid)
      simp only [List.filterMap_cons, hi, List.map_cons, hid, htail]
  rw [plans, descriptors, List.map_map, List.map_map]
  exact hdecl _ fun id hid => get?_of_mem_remotes hid

/-- A method of a plan is declared in the interface or in a type that it inherits from. -/
theorem exists_method_of_mem_plans {p : Plan} (hp : p ∈ t.plans) {m : MethodDescriptor}
    (hm : m ∈ p.methods) : ∃ above ∈ t.lineage p.decl, ∃ m' ∈ t.methodsOf above,
      m.Describes (t.nameOf above) m' := by
  obtain ⟨id, _, i, hi, rfl⟩ := mem_plans.mp hp
  obtain ⟨d, _, rfl⟩ := describe_eq_some_iff.mp hi
  rw [InterfaceDescriptor.methods_ofDescriptor] at hm
  obtain ⟨m₀, hm₀, _, rfl⟩ := InterfaceDescriptor.mem_methods_dropCollisions hm
  obtain ⟨above, habove, m', hm', rfl⟩ := mem_effectiveMethods hm₀
  exact ⟨above, habove, m', hm', MethodDescriptor.describes_ofMethod (t.nameOf above) m'⟩

theorem wellFormed_of_mem_plans {p : Plan} (hp : p ∈ t.plans) : p.WellFormed := by
  obtain ⟨id, _, i, hi, rfl⟩ := mem_plans.mp hp
  obtain ⟨d, _, rfl⟩ := describe_eq_some_iff.mp hi
  apply InterfaceDescriptor.wellFormed_ofDescriptor
  · exact (signatures_firstOfSignature _ _).1
  · intro m hm
    obtain ⟨above, _, m', _, rfl⟩ := mem_effectiveMethods hm
    exact MethodDescriptor.indices_ofMethod _ _

theorem isFor_of_mem_plans {p : Plan} (hp : p ∈ t.plans) :
    ∃ d, t.get? p.decl = some d ∧ p.IsFor p.decl d ∧ p.isActor = (t.role p.decl == .actor) := by
  obtain ⟨id, _, i, hi, rfl⟩ := mem_plans.mp hp
  obtain ⟨d, hd, rfl⟩ := describe_eq_some_iff.mp hi
  exact ⟨d, hd, ⟨rfl, rfl, rfl, rfl, rfl, rfl, rfl⟩, rfl⟩

end Table

/-- The plans of a round are those of the candidate interfaces that are actor or observer
    interfaces, one for each in the order of the walk, and every one of them is well formed.  Its
    methods are declared in the interface or above it, with their parameters in the same order. -/
theorem plans_of_round {σ : Type} (filer : Filer σ) (renderer : Renderer)
    (units : List SourceUnit) (last : Stage) (hlast : .plan ∈ last.required) (s : σ) :
    let t := (Table.build units).1
    let plans := (processRound filer renderer t last s).1.plans
    plans.map (·.decl) =
        t.candidates.interfaces.filter (fun id => t.role id = .actor ∨ t.role id = .observer) ∧
      (plans.map (·.decl)).Nodup ∧
      ∀ p ∈ plans, p.WellFormed ∧
        (∀ m ∈ p.methods, ∃ above ∈ t.lineage p.decl, ∃ m' ∈ t.methodsOf above,
          m.Describes (t.nameOf above) m') ∧
        ∃ d, t.get? p.decl = some d ∧ p.IsFor p.decl d ∧
          p.isActor = (t.role p.decl == .actor) := by
  intro t plans
  have hplans : plans = t.plans := plans_processRound filer renderer t s hlast
  rw [hplans, Table.decls_plans]
  refine ⟨?_, Table.nodup_interfaces.filter _, fun p hp => ?_⟩
  · rw [Table.remotes]
    apply List.filter_congr
    intro id _
    cases t.role id <;> decide
  · exact ⟨Table.wellFormed_of_mem_plans hp, fun _ hm => Table.exists_method_of_mem_plans hp hm,
      Table.isFor_of_mem_plans hp⟩

/-- An actor interface with an overload, a one-way method and an inherited method, beside an
    interface that no actor has. -/
def storeSource : String := "
package shop; import orbit.concurrent.Task;
interface Sized { Task<int> size(); }
interface IBase extends orbit.actors.Actor, Sized { Task<string> name(); }
interface IStore extends IBase {
    Task<string> get(string key, int version);
    Task<string> get(string key);
    @orbit.actors.annotation.OneWay Task put(string key, string value);
    Task clear(string key, string key);
}"

set_option maxRecDepth 10000 in
theorem plans_of_round_store :
    let t := (Table.build (unitsOfText none storeSource)).1
    let plans := (processRound Outputs.filer .default t .register (.empty [])).1.plans
    .plan ∈ Stage.register.required ∧
      plans.map (·.interfaceName) = ["shop.IBase", "shop.IStore"] ∧
      plans.map (·.methods.map fun m => (m.originName, m.params.map (·.name), m.isOneWay)) =
        [[("shop.IBase#name", [], false), ("shop.Sized#size", [], false)],
          [("shop.IStore#get", ["key", "version"], false), ("shop.IStore#get", ["key"], false),
            ("shop.IStore#put", ["key", "value"], true), ("shop.IBase#name", [], false),
            ("shop.Sized#size", [], false)]] ∧
      ∀ p ∈ plans, p.WellFormed ∧
        (∀ m ∈ p.methods, ∃ above ∈ t.lineage p.decl, ∃ m' ∈ t.methodsOf above,
          m.Describes (t.nameOf above) m') ∧
        ∀ i m, p.methods[i]? = some m →
          p.dispatchTable.get? (.ofSignature m.signature) = some i := by
  intro t plans
  have hlast : .plan ∈ Stage.register.required := by decide
  refine ⟨hlast, and_assoc.mp ⟨?_, fun p hp => ?_⟩⟩
  · unfold plans t
    rw [unitsOfText_eq none storeSource rfl]
    decide +kernel
  · obtain ⟨hwell, hdeclared, _⟩ :=
      (plans_of_round Outputs.filer .default (unitsOfText none storeSource) .register hlast
        (.empty [])).2.2 p hp
    refine ⟨hwell, hdeclared, fun i m hm => (hwell.dispatch _ i).mpr ⟨m, hm, ?_⟩⟩
    exact (hwell.methods m (List.mem_of_getElem? hm)).own_id

end ActorIdl
