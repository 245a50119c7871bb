import ActorIdl.Proofs.Plan.Packing
/-! # Which invocations a dispatcher accepts

    A dispatcher accepts an invocation that has the identifier of its interface, the identifier of
    one of its methods and as many arguments as that method has parameters.  What it binds says all
    that the invocation says: a proxy of the same plan that calls the bound method with the bound
    arguments sends the invocation again. -/

namespace ActorIdl.Plan

variable {α : Type}

section
variable {p : Plan} (hp : p.WellFormed)
include hp

/-! ## Accepted invocations -/

/-- Every identifier in the dispatch table leads to a method. -/
theorem lt_length_of_get?_dispatchTable {id : MethodId} {index : Nat}
    (h : p.dispatchTable.get? id = some index) : index < p.methods.length := by
  obtain ⟨m, hm, _⟩ := (hp.dispatch id index).mp h
  exact (List.getElem?_eq_some_iff.mp hm).1

/-- An accepted invocation, and what is bound for it. -/
theorem dispatch_eq_ok_iff {i : Invocation α} {bound : BoundCall α} :
    p.dispatch i = .ok bound ↔ ∃ m ∈ p.methods, i.interfaceId = p.interfaceId ∧
      m.methodId = some i.methodId ∧ i.args.length = m.params.length ∧
      bound = ⟨m, (m.params.map (·.name)).zip i.args, !m.isOneWay⟩ := by
  have haccepted : ∀ m ∈ p.methods, i.interfaceId = p.interfaceId → m.methodId = some i.methodId →
      i.args.length = m.params.length →
      p.dispatch i = .ok ⟨m, (m.params.map (·.name)).zip i.args, !m.isOneWay⟩ := by
    intro m hm hinterface hmethod hlength
    have hid := (hp.methods m hm).own_id.symm.trans hmethod
    rw [← dispatch_of_mem hp hm hlength, ← hinterface, Option.some.inj hid]
  constructor
  · intro h
    -- the interface, the method and the number of arguments are checked one after the other
    by_cases hinterface : i.interfaceId = p.interfaceId
    · cases hfound : (p.dispatchTable.get? i.methodId).bind (p.methods[·]?) with
      | none =>
        rw [dispatch, if_neg (fun h => h hinterface), hfound] at h
        cases h
      | some m =>
        obtain ⟨hm, hmethod⟩ := (bind_get?_dispatchTable hp).mp hfound
        by_cases hlength : i.args.length = m.params.length
        · rw [haccepted m hm hinterface hmethod hlength] at h
          exact ⟨m, hm, hinterface, hmethod, hlength, (Except.ok.inj h).symm⟩
        · rw [dispatch, if_neg (fun h => h hinterface), hfound] at h
          dsimp only at h
          rw [if_pos hlength] at h
          cases h
    · rw [dispatch, if_pos hinterface] at h
      cases h
  · rintro ⟨m, hm, hinterface, hmethod, hlength, rfl⟩
    exact haccepted m hm hinterface hmethod hlength

/-! ## Calling again -/

/-- A proxy that is given what a dispatcher has bound sends what the dispatcher was sent. -/
theorem proxyCall_of_dispatch {i : Invocation α} {bound : BoundCall α}
    (h : p.dispatch i = .ok bound) (blank : α) {args : List (String × α)}
    (hargs : args.Perm bound.arguments) :
    p.proxyCall blank bound.method.signature args = .ok ⟨i, bound.replies⟩ := by
  obtain ⟨m, hm, hinterface, hmethod, hlength, rfl⟩ := (dispatch_eq_ok_iff hp).mp h
  have hwell := hp.methods m hm
  have hnames : ((m.params.map (·.name)).zip i.args).map (·.1) = m.params.map (·.name) :=
    List.map_fst_zip (by simp [hlength])
  have hperm : (args.map (·.1)).Perm (m.params.map (·.name)) := by
    have hmap := hargs.map (·.1)
    rwa [hnames] at hmap
  obtain ⟨values, hcall, hvalues, hget⟩ := proxyCall_of_perm hp hm blank hperm
  -- at every position stands the value that was bound to the parameter there
  have hsame : values = i.args := by
    refine List.ext_getElem (hvalues.trans hlength.symm) fun k hk hk' => ?_
    have hparam : m.params[k]? = some m.params[k] := List.getElem?_eq_getElem (hvalues ▸ hk)
    obtain ⟨v, hv, hkv⟩ := hget k _ hparam
    have hbound : (m.params[k].name, i.args[k]) ∈ (m.params.map (·.name)).zip i.args := by
      refine List.mem_of_getElem? (i := k) ?_
      rw [List.getElem?_zip_eq_some, List.getElem?_map, hparam]
      exact ⟨rfl, List.getElem?_eq_getElem hk'⟩
    have heq := List.inj_on_of_nodup_map (hnames.symm ▸ hwell.names) (hargs.mem_iff.mp hv) hbound rfl
    rw [List.getElem?_eq_getElem hk] at hkv
    rw [Option.some.inj hkv, (Prod.mk.inj heq).2]
  have hid := hwell.own_id.symm.trans hmethod
  rw [hcall, hsame, ← hinterface, Option.some.inj hid]

/-- What is bound are the names of the parameters and the values of the invocation, in order. -/
theorem arguments_of_dispatch {i : Invocation α} {bound : BoundCall α}
    (h : p.dispatch i = .ok bound) :
    bound.method ∈ p.methods ∧ bound.method.methodId = some i.methodId ∧
      bound.arguments.map (·.1) = bound.method.params.map (·.name) ∧
      bound.arguments.map (·.2) = i.args ∧ bound.replies = !bound.method.isOneWay := by
  obtain ⟨m, hm, _, hmethod, hlength, rfl⟩ := (dispatch_eq_ok_iff hp).mp h
  exact ⟨hm, hmethod, List.map_fst_zip (by simp [hlength]), List.map_snd_zip (by simp [hlength]),
    rfl⟩

end

/-- A dispatcher accepts exactly the invocations that have the identifier of its interface, that of
    a method and a number of arguments that fits.  What it looks up is always there: positions in
    the dispatch table are those of methods, and positions of parameters are those of arguments.
    Whatever it accepts, the bound method can be called with the bound arguments in any order, and
    the proxy then sends the same invocation. -/
theorem replay_of_dispatch {σ : Type} (filer : Filer σ) (renderer : Renderer) (t : Table)
    (last : Stage) (s : σ) {p : Plan} (hp : p ∈ (processRound filer renderer t last s).1.plans)
    (i : Invocation α) :
    ((∃ bound, p.dispatch i = .ok bound) ↔ i.interfaceId = p.interfaceId ∧
        ∃ m ∈ p.methods, m.methodId = some i.methodId ∧ i.args.length = m.params.length) ∧
      (∀ id index, p.dispatchTable.get? id = some index → index < p.methods.length) ∧
      (∀ m ∈ p.methods, i.args.length = m.params.length →
        ∀ param ∈ m.params, param.index < i.args.length) ∧
      ∀ bound, p.dispatch i = .ok bound →
        (bound.method ∈ p.methods ∧ bound.method.methodId = some i.methodId ∧
          bound.arguments.map (·.1) = bound.method.params.map (·.name) ∧
          bound.arguments.map (·.2) = i.args ∧ bound.replies = !bound.method.isOneWay) ∧
        ∀ (blank : α) (args : List (String × α)), args.Perm bound.arguments →
          p.proxyCall blank bound.method.signature args = .ok ⟨i, bound.replies⟩ := by
  have hwell := Table.wellFormed_of_mem_plans (mem_plans_of_processRound filer renderer _ s hp)
  refine ⟨⟨?_, ?_⟩, fun id index => lt_length_of_get?_dispatchTable hwell,
    fun m hm hlength param hparam => hlength ▸ index_lt_of_mem hwell hm hparam,
    fun bound h => ⟨arguments_of_dispatch hwell h,
      fun blank args hargs => proxyCall_of_dispatch hwell h blank hargs⟩⟩
  · rintro ⟨bound, h⟩
    obtain ⟨m, hm, hinterface, hmethod, hlength, _⟩ := (dispatch_eq_ok_iff hwell).mp h
    exact ⟨hinterface, m, hm, hmethod, hlength⟩
  · rintro ⟨hinterface, m, hm, hmethod, hlength⟩
    exact ⟨_, (dispatch_eq_ok_iff hwell).mpr ⟨m, hm, hinterface, hmethod, hlength, rfl⟩⟩

/-- What was bound is given back in the opposite order. -/
theorem replay_of_dispatch_reversed : ∃ p ∈ plansOfText none shortSource,
    let i : Invocation Nat := ⟨p.interfaceId, .ofSignature "f(int,long)", [1, 2]⟩
    ∃ bound, p.dispatch i = .ok bound ∧
      p.proxyCall 0 bound.method.signature bound.arguments.reverse = .ok ⟨i, bound.replies⟩ := by
  obtain ⟨p, hp, m, hmethods, hsig, hnames⟩ := exists_plan_of_shortSource
  have hm : m ∈ p.methods := by simp [hmethods]
  have hwell := Table.wellFormed_of_mem_plans
    (mem_plans_of_processRound Outputs.filer .default _ _ hp)
  refine ⟨p, hp, ?_⟩
  intro i
  obtain ⟨hok, _, _, hreplay⟩ := replay_of_dispatch Outputs.filer .default _ .plan (.empty []) hp i
  have hid : m.methodId = some i.methodId := by
    rw [(hwell.methods m hm).own_id, hsig]
  have hlength : i.args.length = m.params.length := by
    obtain ⟨a, b, hparams, _⟩ := exists_pair_of_names hnames
    rw [hparams]
    rfl
  obtain ⟨bound, hbound⟩ := hok.mpr ⟨rfl, m, hm, hid, hlength⟩
  exact ⟨bound, hbound, (hreplay bound hbound).2 0 _ (List.reverse_perm _)⟩

end ActorIdl.Plan
