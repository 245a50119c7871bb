import ActorIdl.Plan.Call
import ActorIdl.Proofs.Plan.WellFormed
/-! # Packing and dispatching

    A proxy puts arguments that name every parameter once at the positions of their parameters.  A
    dispatcher finds the method of an identifier and pairs the names of its parameters with the
    arguments in order.  Both rest on what makes a plan well formed: positions that count up and
    names, signatures and identifiers that do not repeat. -/

namespace ActorIdl

/-- Where keys do not repeat, the search for a key finds the element that has it. -/
theorem find?_eq_some_of_mem {β : Type} {key : β → String} {xs : List β} (h : (xs.map key).Nodup)
    {x : β} (hx : x ∈ xs) : xs.find? (key · == key x) = some x := by
  induction xs with
  | nil => cases hx
  | cons y ys ih =>
    obtain ⟨hy, hys⟩ := List.nodup_cons.mp h
    rcases List.mem_cons.mp hx with rfl | hx
    · exact List.find?_cons_of_pos (by simp)
    · have hne : key y ≠ key x := fun heq => hy (heq ▸ List.mem_map_of_mem hx)
      rw [List.find?_cons_of_neg (by simpa using hne)]
      exact ih hys hx

/-! ## Parameters by position -/

section
variable {params : List ParamDescriptor}
  (hindices : params.map (·.index) = List.range params.length)
include hindices

theorem index_of_getElem? {i : Nat} {p : ParamDescriptor} (hp : params[i]? = some p) :
    p.index = i := by
  obtain ⟨hi, rfl⟩ := List.getElem?_eq_some_iff.mp hp
  have h : (params.map (·.index))[i]? = some i := by
    rw [hindices, List.getElem?_range hi]
  simpa [hi] using h

theorem getElem?_index {p : ParamDescriptor} (hp : p ∈ params) : params[p.index]? = some p := by
  obtain ⟨i, hi, rfl⟩ := List.mem_iff_getElem.mp hp
  rw [index_of_getElem? hindices (List.getElem?_eq_getElem hi)]
  exact List.getElem?_eq_getElem hi

end

namespace Plan

variable {α : Type}

/-! ## Packing -/

/-- Each argument overwrites the position of its parameter, so the last value that is given for a
    name is there in the end.  Other positions keep what they hold. -/
theorem pack_of_known {params : List ParamDescriptor} (signature : String)
    (hindices : params.map (·.index) = List.range params.length)
    (hnames : (params.map (·.name)).Nodup) (args : List (String × α))
    (hknown : ∀ a ∈ args, a.1 ∈ params.map (·.name))
    (packed : List α) (hlength : packed.length = params.length) :
    ∃ result, pack signature params args packed = .ok result ∧ result.length = params.length ∧
      ∀ (i : Nat) (p : ParamDescriptor), params[i]? = some p →
        result[i]? = (args.reverse.lookup p.name).or packed[i]? := by
  induction args generalizing packed with
  | nil => exact ⟨packed, rfl, hlength, fun _ _ _ => rfl⟩
  | cons a args ih =>
    obtain ⟨name, value⟩ := a
    obtain ⟨hname, hothers⟩ := List.forall_mem_cons.mp hknown
    obtain ⟨param, hparam, rfl⟩ := List.mem_map.mp hname
    have hlength' : (packed.set param.index value).length = params.length := by
      rw [List.length_set, hlength]
    obtain ⟨result, hresult, hlen, hget⟩ := ih hothers _ hlength'
    refine ⟨result, ?_, hlen, fun i p hp => ?_⟩
    · rw [pack, find?_eq_some_of_mem hnames hparam]
      exact hresult
    · rw [hget i p hp, List.reverse_cons, List.lookup_append, Option.or_assoc]
      congr 1
      by_cases hi : param.index = i
      · -- the parameter itself
        have hpp : p = param := by
          have := getElem?_index hindices hparam
          rw [hi, hp] at this
          exact Option.some.inj this
        subst hpp
        have hlt : i < packed.length := by
          rw [hlength]
          exact (List.getElem?_eq_some_iff.mp hp).1
        rw [List.lookup_cons_self, hi, List.getElem?_set_self hlt]
        rfl
      · -- another parameter: it has another name, since it has another position
        have hne : p.name ≠ param.name := by
          intro heq
          have hfound := find?_eq_some_of_mem hnames (List.mem_of_getElem? hp)
          rw [heq, find?_eq_some_of_mem hnames hparam] at hfound
          cases hfound
          exact hi (index_of_getElem? hindices hp)
        have hbeq : (p.name == param.name) = false := by simpa using hne
        rw [List.getElem?_set_ne hi, List.lookup_cons, hbeq, List.lookup_nil, Option.none_or]

/-- Parameters that are numbered from some position on take the values from there on. -/
theorem filterMap_index (params : List ParamDescriptor) (values : List α) (start : Nat)
    (hindices : params.map (·.index) = List.range' start params.length)
    (hlength : values.length = start + params.length) :
    (params.filterMap fun param => (values[param.index]?).map (param.name, ·)) =
      (params.map (·.name)).zip (values.drop start) := by
  induction params generalizing start with
  | nil => rfl
  | cons param params ih =>
    rw [List.map_cons, List.length_cons, List.range'_succ] at hindices
    obtain ⟨hindex, hrest⟩ := List.cons.inj hindices
    rw [List.length_cons] at hlength
    have hlt : start < values.length := by omega
    rw [List.filterMap_cons, hindex, List.getElem?_eq_getElem hlt, Option.map_some,
      List.drop_eq_getElem_cons hlt, List.map_cons, List.zip_cons_cons,
      ih (start + 1) hrest (by omega)]

variable {p : Plan} (hp : p.WellFormed)
include hp

theorem methodBySignature?_of_mem {m : MethodDescriptor} (hm : m ∈ p.methods) :
    p.methodBySignature? m.signature = some m :=
  find?_eq_some_of_mem hp.signatures hm

/-- A method of a well-formed plan can be called with as many arguments as it has parameters, if all
    of them name parameters.  A parameter that no argument names has the blank value. -/
theorem proxyCall_of_known {m : MethodDescriptor} (hm : m ∈ p.methods) (blank : α)
    {args : List (String × α)} (hlength : args.length = m.params.length)
    (hknown : ∀ a ∈ args, a.1 ∈ m.params.map (·.name)) :
    ∃ values, p.proxyCall blank m.signature args =
        .ok ⟨⟨p.interfaceId, .ofSignature m.signature, values⟩, !m.isOneWay⟩ ∧
      values.length = m.params.length ∧
      ∀ (i : Nat) (param : ParamDescriptor), m.params[i]? = some param →
        values[i]? = some ((args.reverse.lookup param.name).getD blank) := by
  have hwell := hp.methods m hm
  obtain ⟨values, hpack, hvalues, hget⟩ := pack_of_known m.signature hwell.indices hwell.names args
    hknown (List.replicate m.params.length blank) List.length_replicate
  refine ⟨values, ?_, hvalues, fun i param hparam => ?_⟩
  · rw [proxyCall, methodBySignature?_of_mem hp hm]
    dsimp only
    rw [if_neg (fun h => h hlength), hpack,
      MethodDescriptor.effectiveId_of_methodId hwell.own_id]
    rfl
  · have hlt : i < m.params.length := (List.getElem?_eq_some_iff.mp hparam).1
    rw [hget i param hparam, List.getElem?_replicate, if_pos hlt]
    cases args.reverse.lookup param.name with
    | none => rfl
    | some v => rfl

/-- A method of a well-formed plan can be called with arguments that name its parameters. -/
theorem proxyCall_of_perm {m : MethodDescriptor} (hm : m ∈ p.methods) (blank : α)
    {args : List (String × α)} (hargs : (args.map (·.1)).Perm (m.params.map (·.name))) :
    ∃ values, p.proxyCall blank m.signature args =
        .ok ⟨⟨p.interfaceId, .ofSignature m.signature, values⟩, !m.isOneWay⟩ ∧
      values.length = m.params.length ∧
      ∀ (i : Nat) (param : ParamDescriptor), m.params[i]? = some param →
        ∃ v, (param.name, v) ∈ args ∧ values[i]? = some v := by
  have hlength : args.length = m.params.length := by
    simpa using hargs.length_eq
  have hknown : ∀ a ∈ args, a.1 ∈ m.params.map (·.name) := fun a ha =>
    hargs.mem_iff.mp (List.mem_map_of_mem ha)
  obtain ⟨values, hcall, hvalues, hget⟩ := proxyCall_of_known hp hm blank hlength hknown
  refine ⟨values, hcall, hvalues, fun i param hparam => ?_⟩
  have hname : param.name ∈ args.map (·.1) :=
    hargs.mem_iff.mpr (List.mem_map_of_mem (List.mem_of_getElem? hparam))
  -- some argument has the name of the parameter, so a value is found
  cases hv : args.reverse.lookup param.name with
  | none =>
    obtain ⟨a, ha, heq⟩ := List.mem_map.mp hname
    have hne := List.lookup_eq_none_iff.mp hv a (List.mem_reverse.mpr ha)
    exact absurd heq.symm (by simpa using hne)
  | some v =>
    refine ⟨v, ?_, by rw [hget i param hparam, hv, Option.getD_some]⟩
    obtain ⟨l₁, l₂, heq, _⟩ := List.lookup_eq_some_iff.mp hv
    exact List.mem_reverse.mp (heq ▸ List.mem_append_right _ List.mem_cons_self)

/-! ## Dispatching -/

/-- The method that the dispatch table leads to is the one that has the identifier. -/
theorem bind_get?_dispatchTable {id : MethodId} {m : MethodDescriptor} :
    (p.dispatchTable.get? id).bind (p.methods[·]?) = some m ↔
      m ∈ p.methods ∧ m.methodId = some id := by
  constructor
  · intro h
    obtain ⟨index, hindex, hm⟩ := Option.bind_eq_some_iff.mp h
    obtain ⟨m', hm', hid⟩ := (hp.dispatch id index).mp hindex
    cases hm.symm.trans hm'
    exact ⟨List.mem_of_getElem? hm, hid⟩
  · rintro ⟨hm, hid⟩
    obtain ⟨index, hindex⟩ := List.mem_iff_getElem?.mp hm
    rw [(hp.dispatch id index).mpr ⟨m, hindex, hid⟩]
    exact hindex

/-- The dispatcher of a well-formed plan finds the method of an identifier and names its
    arguments. -/
theorem dispatch_of_mem {n : MethodDescriptor} (hn : n ∈ p.methods) {values : List α}
    (hlength : values.length = n.params.length) :
    p.dispatch ⟨p.interfaceId, .ofSignature n.signature, values⟩ =
      .ok ⟨n, (n.params.map (·.name)).zip values, !n.isOneWay⟩ := by
  have hwell := hp.methods n hn
  have hfound := (bind_get?_dispatchTable hp).mpr ⟨hn, hwell.own_id⟩
  have hindices : n.params.map (·.index) = List.range' 0 n.params.length := by
    rw [hwell.indices, List.range_eq_range']
  have harguments := filterMap_index n.params values 0 hindices (by omega)
  rw [dispatch]
  dsimp only
  rw [if_neg (fun h => h rfl), hfound]
  dsimp only
  rw [if_neg (fun h => h hlength), harguments, List.drop_zero]

/-- A call with another number of arguments than its method has parameters is refused. -/
theorem dispatch_of_arity {n : MethodDescriptor} (hn : n ∈ p.methods) {values : List α}
    (hlength : values.length ≠ n.params.length) :
    p.dispatch ⟨p.interfaceId, .ofSignature n.signature, values⟩ =
      .error (.arity n.signature n.params.length values.length) := by
  have hfound := (bind_get?_dispatchTable hp).mpr ⟨hn, (hp.methods n hn).own_id⟩
  rw [dispatch]
  dsimp only
  rw [if_neg (fun h => h rfl), hfound]
  dsimp only
  rw [if_pos hlength]

end Plan

end ActorIdl
