import ActorIdl.Proofs.Plan.Compatibility
/-! # Which calls a proxy packs

    A proxy refuses a call for three reasons: no method has the signature, the number of arguments
    is not that of the parameters, or an argument names no parameter.  Of arguments with different
    names only those pass that name every parameter once, and then every position gets its value.
    A name that is given twice passes as well: the last value counts, and some other parameter keeps
    the value that positions are filled with. -/

namespace ActorIdl.Plan

variable {α : Type}

/-! ## Names that are no parameters -/

/-- Packing stops at the first argument that names no parameter. -/
theorem pack_of_unknown (signature : String) {params : List ParamDescriptor}
    {args : List (String × α)} {a : String × α}
    (ha : args.find? (!(params.map (·.name)).contains ·.1) = some a) (packed : List α) :
    pack signature params args packed = .error (.unknownParameter signature a.1) := by
  induction args generalizing packed with
  | nil => cases ha
  | cons first args ih =>
    obtain ⟨name, value⟩ := first
    rw [pack]
    cases hfind : params.find? (·.name == name) with
    | none =>
      -- this is the argument that is reported
      have hunknown : name ∉ params.map (·.name) := by
        intro hmem
        obtain ⟨param, hparam, rfl⟩ := List.mem_map.mp hmem
        simpa using List.find?_eq_none.mp hfind param hparam
      rw [List.find?_cons_of_pos (by simpa using hunknown)] at ha
      cases ha
      rfl
    | some param =>
      have hname : param.name = name := by simpa using List.find?_some hfind
      have hknown : name ∈ params.map (·.name) :=
        hname ▸ List.mem_map_of_mem (List.mem_of_find?_eq_some hfind)
      rw [List.find?_cons_of_neg (by simpa using hknown)] at ha
      exact ih ha _

/-- Arguments with different names that name only parameters, and as many as there are, name every
    parameter once. -/
theorem perm_iff_of_nodup {args : List (String × α)} {names : List String}
    (hargs : (args.map (·.1)).Nodup) :
    (args.map (·.1)).Perm names ↔ args.length = names.length ∧ ∀ a ∈ args, a.1 ∈ names := by
  constructor
  · intro h
    exact ⟨by simpa using h.length_eq, fun a ha => h.mem_iff.mp (List.mem_map_of_mem ha)⟩
  · rintro ⟨hlength, hknown⟩
    have hsub : args.map (·.1) ⊆ names := List.forall_mem_map.mpr hknown
    exact (List.subperm_of_subset hargs hsub).perm_of_length_le (by simp [hlength])

/-! ## The outcome of a call -/

/-- Why a proxy refuses a call.  Of several names that are no parameters the first is reported. -/
inductive Refuses (p : Plan) (signature : String) (args : List (String × α)) :
    InvokeError → Prop where
  | signature : (∀ m ∈ p.methods, m.signature ≠ signature) →
      Refuses p signature args (.unknownSignature signature)
  | arity {m : MethodDescriptor} : m ∈ p.methods → m.signature = signature →
      args.length ≠ m.params.length →
      Refuses p signature args (.arity signature m.params.length args.length)
  | parameter {m : MethodDescriptor} {a : String × α} : m ∈ p.methods → m.signature = signature →
      args.length = m.params.length →
      args.find? (!(m.params.map (·.name)).contains ·.1) = some a →
      Refuses p signature args (.unknownParameter signature a.1)

section
variable {p : Plan} (hp : p.WellFormed)
include hp

/-- Every parameter has a position among the values of a call. -/
theorem index_lt_of_mem {m : MethodDescriptor} (hm : m ∈ p.methods) {param : ParamDescriptor}
    (hparam : param ∈ m.params) : param.index < m.params.length :=
  (List.getElem?_eq_some_iff.mp (getElem?_index (hp.methods m hm).indices hparam)).1

/-- A call is refused for one of the three reasons, or it is packed. -/
theorem proxyCall_cases (blank : α) (signature : String) (args : List (String × α)) :
    (∃ e, p.proxyCall blank signature args = .error e ∧ p.Refuses signature args e) ∨
      ∃ m ∈ p.methods, m.signature = signature ∧ args.length = m.params.length ∧
        ∀ a ∈ args, a.1 ∈ m.params.map (·.name) := by
  -- the signature, the number of arguments and their names are checked one after the other
  by_cases hmethod : ∃ m ∈ p.methods, m.signature = signature
  · obtain ⟨m, hm, rfl⟩ := hmethod
    have hfind := methodBySignature?_of_mem hp hm
    by_cases hlength : args.length = m.params.length
    · cases hunknown : args.find? (!(m.params.map (·.name)).contains ·.1) with
      | none =>
        refine .inr ⟨m, hm, rfl, hlength, fun a ha => ?_⟩
        simpa using List.find?_eq_none.mp hunknown a ha
      | some a =>
        refine .inl ⟨_, ?_, .parameter hm rfl hlength hunknown⟩
        rw [proxyCall, hfind]
        dsimp only
        rw [if_neg (fun h => h hlength), pack_of_unknown m.signature hunknown]
        rfl
    · refine .inl ⟨_, ?_, .arity hm rfl hlength⟩
      rw [proxyCall, hfind]
      dsimp only
      rw [if_pos hlength]
  · have hnone : ∀ m ∈ p.methods, m.signature ≠ signature := by simpa using hmethod
    refine .inl ⟨_, ?_, .signature hnone⟩
    have hfind : p.methodBySignature? signature = none := by
      simpa [methodBySignature?] using hnone
    rw [proxyCall, hfind]

theorem proxyCall_eq_ok_iff (blank : α) (signature : String) (args : List (String × α)) :
    (∃ call, p.proxyCall blank signature args = .ok call) ↔
      ∃ m ∈ p.methods, m.signature = signature ∧ args.length = m.params.length ∧
        ∀ a ∈ args, a.1 ∈ m.params.map (·.name) := by
  constructor
  · rintro ⟨call, hcall⟩
    rcases proxyCall_cases hp blank signature args with ⟨e, he, _⟩ | h
    · rw [hcall] at he
      cases he
    · exact h
  · rintro ⟨m, hm, rfl, hlength, hknown⟩
    obtain ⟨values, hcall, _⟩ := proxyCall_of_known hp hm blank hlength hknown
    exact ⟨_, hcall⟩

/-- What is packed: the last value that is given for each parameter, or the blank value. -/
theorem values_of_proxyCall {blank : α} {signature : String} {args : List (String × α)}
    {call : ProxyCall α} (h : p.proxyCall blank signature args = .ok call) :
    ∃ m ∈ p.methods, m.signature = signature ∧
      call.invocation.interfaceId = p.interfaceId ∧ m.methodId = some call.invocation.methodId ∧
      call.awaitsReply = !m.isOneWay ∧ call.invocation.args.length = m.params.length ∧
      ∀ param ∈ m.params, call.invocation.args[param.index]? =
        some ((args.reverse.lookup param.name).getD blank) := by
  obtain ⟨m, hm, rfl, hlength, hknown⟩ := (proxyCall_eq_ok_iff hp _ _ _).mp ⟨call, h⟩
  obtain ⟨values, hcall, hvalues, hget⟩ := proxyCall_of_known hp hm blank hlength hknown
  cases h.symm.trans hcall
  have hwell := hp.methods m hm
  exact ⟨m, hm, rfl, rfl, hwell.own_id, rfl, hvalues, fun param hparam =>
    hget _ param (getElem?_index hwell.indices hparam)⟩

end

/-! ## Complete calls -/

/-- A proxy packs a call exactly if a method has the signature and the arguments are as many as its
    parameters and name no others, and it refuses every other call with a reason.  Values are put
    only at positions that there are.  What it packs has the last value that is given for each
    parameter at the position of the parameter.  If no name is given twice, the arguments of the
    calls that it packs name every parameter once, and no position is left blank. -/
theorem complete_of_proxyCall {σ : Type} (filer : Filer σ) (renderer : Renderer) (t : Table)
    (last : Stage) (s : σ) {p : Plan} (hp : p ∈ (processRound filer renderer t last s).1.plans)
    (blank : α) (signature : String) (args : List (String × α)) :
    ((∃ call, p.proxyCall blank signature args = .ok call) ↔
        ∃ m ∈ p.methods, m.signature = signature ∧ args.length = m.params.length ∧
          ∀ a ∈ args, a.1 ∈ m.params.map (·.name)) ∧
      ((∃ call, p.proxyCall blank signature args = .ok call) ∨
        ∃ e, p.proxyCall blank signature args = .error e ∧ p.Refuses signature args e) ∧
      (∀ m ∈ p.methods, ∀ param ∈ m.params, param.index < m.params.length) ∧
      (∀ call, p.proxyCall blank signature args = .ok call →
        ∃ m ∈ p.methods, m.signature = signature ∧
          call.invocation.interfaceId = p.interfaceId ∧ m.methodId = some call.invocation.methodId ∧
          call.awaitsReply = !m.isOneWay ∧ call.invocation.args.length = m.params.length ∧
          ∀ param ∈ m.params, call.invocation.args[param.index]? =
            some ((args.reverse.lookup param.name).getD blank)) ∧
      ((args.map (·.1)).Nodup →
        ((∃ call, p.proxyCall blank signature args = .ok call) ↔
          ∃ m ∈ p.methods, m.signature = signature ∧
            (args.map (·.1)).Perm (m.params.map (·.name))) ∧
        ∀ call, p.proxyCall blank signature args = .ok call →
          ∃ m ∈ p.methods, m.signature = signature ∧
            call.invocation.args.length = m.params.length ∧
            ∀ param ∈ m.params, ∃ v, (param.name, v) ∈ args ∧
              call.invocation.args[param.index]? = some v) := by
  have hwell := Table.wellFormed_of_mem_plans (mem_plans_of_processRound filer renderer _ s hp)
  have hok := proxyCall_eq_ok_iff hwell blank signature args
  refine ⟨hok, ?_, fun m hm param hparam => index_lt_of_mem hwell hm hparam,
    fun call hcall => values_of_proxyCall hwell hcall, fun hdistinct => ?_⟩
  · rcases proxyCall_cases hwell blank signature args with hrefused | hpacked
    · exact .inr hrefused
    · exact .inl (hok.mpr hpacked)
  · -- as many different names of parameters as there are parameters are all of them
    have hperm : ∀ m : MethodDescriptor, (args.map (·.1)).Perm (m.params.map (·.name)) ↔
        args.length = m.params.length ∧ ∀ a ∈ args, a.1 ∈ m.params.map (·.name) := by
      intro m
      rw [perm_iff_of_nodup hdistinct, List.length_map]
    refine ⟨by simpa only [hperm] using hok, fun call hcall => ?_⟩
    obtain ⟨m, hm, rfl, hnamed⟩ := hok.mp ⟨call, hcall⟩
    obtain ⟨values, hcall', hlength, hvalues⟩ :=
      proxyCall_of_perm hwell hm blank ((hperm m).mpr hnamed)
    cases hcall.symm.trans hcall'
    exact ⟨m, hm, rfl, hlength, fun param hparam =>
      hvalues _ param (getElem?_index (hwell.methods m hm).indices hparam)⟩

/-- The plan of an interface with one method. -/
theorem exists_plan_of_shortSource : ∃ p ∈ plansOfText none shortSource, ∃ m,
    p.methods = [m] ∧ m.signature = "f(int,long)" ∧ m.params.map (·.name) = ["a", "b"] := by
  have hshort : (plansOfText none shortSource).map (·.outline) =
      [("I", [("f(int,long)", ["a", "b"])])] := by
    rw [plansOfText_eq none shortSource rfl]
    decide +kernel
  obtain ⟨p, hp, houtline⟩ := exists_plan_of_outline hshort (List.mem_singleton_self _)
  obtain ⟨m, hmethods, hm⟩ := List.map_eq_singleton_iff.mp (congrArg Prod.snd houtline)
  exact ⟨p, hp, m, hmethods, congrArg Prod.fst hm, congrArg Prod.snd hm⟩

/-- Arguments in another order than the parameters, and arguments one of which is no parameter. -/
theorem complete_of_proxyCall_reordered : ∃ p ∈ plansOfText none shortSource,
    (∃ call, p.proxyCall 0 "f(int,long)" [("b", 2), ("a", 1)] = .ok call) ∧
      ∃ e, p.proxyCall 0 "f(int,long)" [("b", 2), ("c", 1)] = .error e := by
  obtain ⟨p, hp, m, hmethods, hsig, hnames⟩ := exists_plan_of_shortSource
  refine ⟨p, hp, ?_, ?_⟩
  · obtain ⟨_, _, _, _, hdistinct⟩ := complete_of_proxyCall Outputs.filer .default _ .plan (.empty [])
      hp 0 "f(int,long)" [("b", 2), ("a", 1)]
    refine (hdistinct (by decide)).1.mpr ⟨m, by simp [hmethods], hsig, ?_⟩
    rw [hnames]
    exact List.Perm.swap _ _ _
  · obtain ⟨_, hcases, _, _, hdistinct⟩ := complete_of_proxyCall Outputs.filer .default _ .plan
      (.empty []) hp 0 "f(int,long)" [("b", 2), ("c", 1)]
    rcases hcases with hok | ⟨e, he, _⟩
    · obtain ⟨m', hm', _, hperm⟩ := (hdistinct (by decide)).1.mp hok
      rw [hmethods, List.mem_singleton] at hm'
      rw [hm', hnames] at hperm
      exact absurd (hperm.mem_iff.mp (by simp : "c" ∈ _)) (by decide)
    · exact ⟨e, he⟩

/-- A call that names one of two parameters twice is packed.  The other position is left blank. -/
theorem packs_repeatedName : ∃ p ∈ plansOfText none shortSource,
    (∀ m ∈ p.methods, ¬ ["a", "a"].Perm (m.params.map (·.name))) ∧
      ∃ call, p.proxyCall 0 "f(int,long)" [("a", 1), ("a", 2)] = .ok call ∧
        call.invocation.args = [2, 0] := by
  obtain ⟨p, hp, m, hmethods, hsig, hnames⟩ := exists_plan_of_shortSource
  have hwell := Table.wellFormed_of_mem_plans
    (mem_plans_of_processRound Outputs.filer .default _ _ hp)
  refine ⟨p, hp, fun m' hm' hperm => ?_, ?_⟩
  · rw [hmethods, List.mem_singleton] at hm'
    rw [hm', hnames] at hperm
    exact absurd (hperm.mem_iff.mpr (by simp : "b" ∈ _)) (by decide)
  · obtain ⟨a, b, hparams, ha, hb⟩ := exists_pair_of_names hnames
    have hknown : ∀ a ∈ [("a", 1), ("a", 2)], a.1 ∈ m.params.map (·.name) := by simp [hnames]
    obtain ⟨values, hcall, hlength, hvalues⟩ := proxyCall_of_known hwell
      (by simp [hmethods] : m ∈ p.methods) 0 (by simp [hparams]) hknown
    rw [hparams] at hlength hvalues
    -- the last value of `a`, and none of `b`
    have hfirst := hvalues 0 a rfl
    have hsecond := hvalues 1 b rfl
    obtain ⟨x, y, rfl⟩ := List.length_eq_two.mp hlength
    rw [hsig] at hcall
    refine ⟨_, hcall, ?_⟩
    rw [ha] at hfirst
    rw [hb] at hsecond
    cases hfirst
    cases hsecond
    rfl

end ActorIdl.Plan
