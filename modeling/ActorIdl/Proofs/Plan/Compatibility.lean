import ActorIdl.Proofs.Declaration.Resolution
import ActorIdl.Proofs.Plan.Call
/-! # Builds that are made apart

    A proxy of one build can call a dispatcher of another if both are made for interfaces with one
    qualified name.  The identifiers are hashes of names and signatures alone, so the method that is
    found is the one with the signature of the call.  The arguments travel by position.  That they
    fit rests on the signature: it determines the types of the parameters and hence their number. -/

namespace ActorIdl

/-- The signature of a method that is declared in clean units can be read back. -/
theorem isPlain_of_mem_plans {units : List SourceUnit} (hunits : ∀ u ∈ units, u.IsClean) {p : Plan}
    (hp : p ∈ (Table.build units).1.plans) {m : MethodDescriptor} (hm : m ∈ p.methods) :
    '(' ∉ m.name.toList ∧ TypeRef.ArePlain (m.params.map (·.type)) := by
  obtain ⟨above, _, m', hm', hdescribes⟩ := Table.exists_method_of_mem_plans hp hm
  obtain ⟨hident, hplain⟩ := Table.isPlain_of_mem_methodsOf hunits hm'
  rw [hdescribes.name, hdescribes.types]
  refine ⟨hident.1.not_mem (by decide), TypeRef.arePlain_iff.mpr ?_⟩
  rw [List.forall_mem_map]
  exact hplain

/-- Methods with one signature take arguments of the same types. -/
theorem types_of_signature_eq {units units' : List SourceUnit} (hunits : ∀ u ∈ units, u.IsClean)
    (hunits' : ∀ u ∈ units', u.IsClean) {p q : Plan} (hp : p ∈ (Table.build units).1.plans)
    (hq : q ∈ (Table.build units').1.plans) {m n : MethodDescriptor} (hm : m ∈ p.methods)
    (hn : n ∈ q.methods) (h : m.signature = n.signature) :
    m.params.map (·.type) = n.params.map (·.type) := by
  obtain ⟨hmname, hmtypes⟩ := isPlain_of_mem_plans hunits hp hm
  obtain ⟨hnname, hntypes⟩ := isPlain_of_mem_plans hunits' hq hn
  unfold MethodDescriptor.signature at h
  have htexts : ∀ params : List ParamDescriptor,
      params.map (·.type.text) = (params.map (·.type)).map (·.text) := by
    intro params
    rw [List.map_map]
    rfl
  rw [htexts, htexts] at h
  exact (signature_inj hmname hnname hmtypes hntypes h).2

theorem interfaceId_of_mem_plans {t : Table} {p : Plan} (hp : p ∈ t.plans) :
    p.interfaceId = .ofName p.interfaceName := by
  obtain ⟨d, _, hd, _⟩ := Table.isFor_of_mem_plans hp
  rw [hd.interfaceId, hd.interfaceName]

/-- A call that one build packs arrives in another build at the method with its signature, with
    every value under the name that the other build has for its position. -/
theorem dispatch_proxyCall {σ τ α : Type} (filer : Filer σ) (filer' : Filer τ)
    (renderer renderer' : Renderer) (last last' : Stage) (s : σ) (s' : τ)
    (units units' : List SourceUnit)
    (hunits : ∀ u ∈ units, u.IsParsed ∧ u.HasCleanHint)
    (hunits' : ∀ u ∈ units', u.IsParsed ∧ u.HasCleanHint)
    (p q : Plan)
    (hp : p ∈ (processRound filer renderer (Table.build units).1 last s).1.plans)
    (hq : q ∈ (processRound filer' renderer' (Table.build units').1 last' s').1.plans)
    (hname : p.interfaceName = q.interfaceName)
    (m n : MethodDescriptor) (hm : m ∈ p.methods) (hn : n ∈ q.methods)
    (hsig : m.signature = n.signature) (blank : α) (args : List (String × α))
    (hargs : (args.map (·.1)).Perm (m.params.map (·.name))) :
    ∃ call bound, p.proxyCall blank m.signature args = .ok call ∧
      q.dispatch call.invocation = .ok bound ∧ bound.method = n ∧
      bound.arguments.length = n.params.length ∧ m.params.length = n.params.length ∧
      (∀ (i : Nat) (pm pn : ParamDescriptor), m.params[i]? = some pm → n.params[i]? = some pn →
        ∃ v, (pm.name, v) ∈ args ∧ bound.arguments[i]? = some (pn.name, v)) ∧
      (m.isOneWay = n.isOneWay → bound.replies = call.awaitsReply) := by
  have hp := mem_plans_of_processRound filer renderer _ s hp
  have hq := mem_plans_of_processRound filer' renderer' _ s' hq
  have hclean : ∀ u ∈ units, u.IsClean := fun u hu => (hunits u hu).1.isClean (hunits u hu).2
  have hclean' : ∀ u ∈ units', u.IsClean := fun u hu => (hunits' u hu).1.isClean (hunits' u hu).2
  -- the number of parameters is all that the positions depend on
  have hparams : m.params.length = n.params.length := by
    have := congrArg List.length (types_of_signature_eq hclean hclean' hp hq hm hn hsig)
    simpa using this
  have hid : p.interfaceId = q.interfaceId := by
    rw [interfaceId_of_mem_plans hp, interfaceId_of_mem_plans hq, hname]
  obtain ⟨values, hcall, hlength, hvalues⟩ :=
    Plan.proxyCall_of_perm (Table.wellFormed_of_mem_plans hp) hm blank hargs
  have hdispatch := Plan.dispatch_of_mem (Table.wellFormed_of_mem_plans hq) hn
    (hlength.trans hparams)
  -- what the proxy sends names the interface and the method of the other build
  rw [← hid, ← hsig] at hdispatch
  refine ⟨_, _, hcall, hdispatch, rfl, ?_, hparams, ?_, fun h => ?_⟩
  · rw [List.length_zip, List.length_map, hlength, hparams, Nat.min_self]
  · intro i pm pn hpm hpn
    obtain ⟨v, hv, hi⟩ := hvalues i pm hpm
    refine ⟨v, hv, ?_⟩
    rw [List.getElem?_zip_eq_some]
    exact ⟨by rw [List.getElem?_map, hpn]; rfl, hi⟩
  · rw [h]

/-! ## Sources that are compiled alone -/

/-- The plans of a source that is compiled alone. -/
def plansOfText (hint : Option String) (text : String) : List Plan :=
  (processRound Outputs.filer .default (Table.build (unitsOfText hint text)).1 .plan
    (.empty [])).1.plans

/-- The plans of a source by its characters. -/
theorem plansOfText_eq (hint : Option String) (text : String) {cs : List Char}
    (h : text = String.ofList cs) : plansOfText hint text =
      (processRound Outputs.filer .default (Table.build
        ((Syntax.parseChars cs).unit.toList.map fun unit => ⟨unit, 0, hint, true⟩)).1 .plan
          (.empty [])).1.plans := by
  rw [plansOfText, unitsOfText_eq hint text h]

/-- The name of the interface of a plan, its signatures and the names of its parameters. -/
def Plan.outline (p : Plan) : String × List (String × List String) :=
  (p.interfaceName, p.methods.map fun m => (m.signature, m.params.map (·.name)))

theorem exists_plan_of_outline {plans : List Plan} {o : String × List (String × List String)}
    {os : List (String × List (String × List String))} (h : plans.map (·.outline) = os)
    (ho : o ∈ os) : ∃ p ∈ plans, p.outline = o := by
  rw [← h] at ho
  exact List.mem_map.mp ho

theorem exists_method_of_outline {p : Plan} {name sig : String} {params : List String}
    {ms : List (String × List String)} (hp : p.outline = (name, ms)) (hm : (sig, params) ∈ ms) :
    ∃ m ∈ p.methods, m.signature = sig ∧ m.params.map (·.name) = params := by
  cases hp
  obtain ⟨m, hmem, heq⟩ := List.mem_map.mp hm
  cases heq
  exact ⟨m, hmem, rfl, rfl⟩

theorem exists_pair_of_names {params : List ParamDescriptor} {x y : String}
    (h : params.map (·.name) = [x, y]) : ∃ a b, params = [a, b] ∧ a.name = x ∧ b.name = y := by
  obtain ⟨a, rest, rfl, ha, hrest⟩ := List.map_eq_cons_iff.mp h
  obtain ⟨b, rest, rfl, hb, hrest⟩ := List.map_eq_cons_iff.mp hrest
  rw [List.map_eq_nil_iff.mp hrest]
  exact ⟨a, b, rfl, ha, hb⟩

/-- An actor interface with one method. -/
def shortSource : String :=
  "interface I extends orbit.actors.Actor { orbit.concurrent.Task f(int a, long b); }"

/-- The same interface with another method before that one and other names for its parameters. -/
def longSource : String := "
interface I extends orbit.actors.Actor {
    orbit.concurrent.Task g();
    orbit.concurrent.Task f(int c, long d);
}"

theorem dispatch_proxyCall_apart :
    ∃ p ∈ plansOfText none shortSource, ∃ q ∈ plansOfText none longSource, ∃ call bound,
      p.proxyCall 0 "f(int,long)" [("b", 2), ("a", 1)] = .ok call ∧
        q.dispatch call.invocation = .ok bound ∧ bound.arguments = [("c", 1), ("d", 2)] := by
  have hshort : (plansOfText none shortSource).map (·.outline) =
      [("I", [("f(int,long)", ["a", "b"])])] := by
    rw [plansOfText_eq none shortSource rfl]
    decide +kernel
  have hlong : (plansOfText none longSource).map (·.outline) =
      [("I", [("g()", []), ("f(int,long)", ["c", "d"])])] := by
    rw [plansOfText_eq none longSource rfl]
    decide +kernel
  obtain ⟨p, hp, hpo⟩ := exists_plan_of_outline hshort (List.mem_singleton_self _)
  obtain ⟨q, hq, hqo⟩ := exists_plan_of_outline hlong (List.mem_singleton_self _)
  obtain ⟨m, hm, hmsig, hmnames⟩ := exists_method_of_outline hpo (List.mem_singleton_self _)
  obtain ⟨n, hn, hnsig, hnnames⟩ := exists_method_of_outline hqo
    (List.mem_cons_of_mem _ (List.mem_singleton_self _))
  have hunits : ∀ text, ∀ u ∈ unitsOfText none text, u.IsParsed ∧ u.HasCleanHint := by
    intro text u hu
    obtain ⟨hparsed, hhint⟩ := isParsed_of_mem_unitsOfText hu
    exact ⟨hparsed, fun _ => by simp [hhint]⟩
  have hargs : ([("b", 2), ("a", 1)].map (·.1)).Perm (m.params.map (·.name)) := by
    rw [hmnames]
    exact List.Perm.swap _ _ _
  have hname : p.interfaceName = q.interfaceName :=
    (congrArg Prod.fst hpo).trans (congrArg Prod.fst hqo).symm
  obtain ⟨call, bound, hcall, hbound, _, hlength, _, hvalues, _⟩ :=
    dispatch_proxyCall Outputs.filer Outputs.filer .default .default .plan .plan (.empty [])
      (.empty []) _ _ (hunits _) (hunits _) p q hp hq hname m n hm hn (hmsig.trans hnsig.symm) 0
      [("b", 2), ("a", 1)] hargs
  rw [hmsig] at hcall
  refine ⟨p, hp, q, hq, call, bound, hcall, hbound, ?_⟩
  obtain ⟨a, b, hab, ha, hb⟩ := exists_pair_of_names hmnames
  obtain ⟨c, d, hcd, hc, hd⟩ := exists_pair_of_names hnnames
  rw [hab, hcd] at hvalues
  obtain ⟨v, hv, hfirst⟩ := hvalues 0 a c rfl rfl
  obtain ⟨w, hw, hsecond⟩ := hvalues 1 b d rfl rfl
  rw [hcd] at hlength
  have hv : v = 1 := by simpa [ha] using hv
  have hw : w = 2 := by simpa [hb] using hw
  obtain ⟨x, y, hxy⟩ := List.length_eq_two.mp hlength
  rw [hxy] at hfirst hsecond ⊢
  cases hfirst
  cases hsecond
  rw [hv, hw, hc, hd]

/-! ## Ambiguous signatures -/

/-- Some call from a build of one source to a build of another is refused, although the interface
    has the same name in both and the method the same signature. -/
def RefusesCall (hint : Option String) (caller callee : String) : Prop :=
  ∃ p ∈ plansOfText hint caller, ∃ q ∈ plansOfText hint callee,
    p.interfaceName = q.interfaceName ∧ ∃ m ∈ p.methods, ∃ n ∈ q.methods,
      m.signature = n.signature ∧ ∃ args : List (String × Nat),
        (args.map (·.1)).Perm (m.params.map (·.name)) ∧
          ∃ call, p.proxyCall 0 m.signature args = .ok call ∧
            ∀ bound, q.dispatch call.invocation ≠ .ok bound

/-- Methods whose signatures are equal although they differ in the number of their parameters. -/
theorem refusesCall_of_lengths {hint : Option String} {caller callee name sig : String}
    {xs ys : List String}
    (hcaller : (plansOfText hint caller).map (·.outline) = [(name, [(sig, xs)])])
    (hcallee : (plansOfText hint callee).map (·.outline) = [(name, [(sig, ys)])])
    (hlength : xs.length ≠ ys.length) : RefusesCall hint caller callee := by
  obtain ⟨p, hp, hpo⟩ := exists_plan_of_outline hcaller (List.mem_singleton_self _)
  obtain ⟨q, hq, hqo⟩ := exists_plan_of_outline hcallee (List.mem_singleton_self _)
  obtain ⟨m, hm, hmsig, hmnames⟩ := exists_method_of_outline hpo (List.mem_singleton_self _)
  obtain ⟨n, hn, hnsig, hnnames⟩ := exists_method_of_outline hqo (List.mem_singleton_self _)
  have hname : p.interfaceName = q.interfaceName :=
    (congrArg Prod.fst hpo).trans (congrArg Prod.fst hqo).symm
  have hsig : m.signature = n.signature := hmsig.trans hnsig.symm
  have hp' := mem_plans_of_processRound Outputs.filer .default _ _ hp
  have hq' := mem_plans_of_processRound Outputs.filer .default _ _ hq
  have hargs : ((xs.map fun x => (x, 0)).map (·.1)).Perm (m.params.map (·.name)) := by
    rw [hmnames, List.map_map]
    exact List.Perm.of_eq (List.map_id _)
  obtain ⟨values, hcall, hvalues, _⟩ :=
    Plan.proxyCall_of_perm (Table.wellFormed_of_mem_plans hp') hm 0 hargs
  -- the proxy packs a value for each of its own parameters
  have harity : values.length ≠ n.params.length := by
    rw [hvalues]
    have hm := congrArg List.length hmnames
    have hn := congrArg List.length hnnames
    rw [List.length_map] at hm hn
    omega
  have hrefused := Plan.dispatch_of_arity (Table.wellFormed_of_mem_plans hq') hn harity
  rw [← hsig, interfaceId_of_mem_plans hq', ← hname, ← interfaceId_of_mem_plans hp'] at hrefused
  refine ⟨p, hp, q, hq, hname, m, hm, n, hn, hsig, _, hargs, _, hcall, fun bound hbound => ?_⟩
  rw [hrefused] at hbound
  cases hbound

/-- Under a hint that is no package name a signature can be ambiguous, be it by a comma or by an
    opening bracket of arguments in the hint. -/
theorem refusesCall_of_hints :
    RefusesCall (some "int,b")
        "interface I extends orbit.actors.Actor { orbit.concurrent.Task f(T x); } class T;"
        "interface I extends orbit.actors.Actor { orbit.concurrent.Task f(int x, b.T y); }" ∧
      RefusesCall (some "a<b")
        "interface I extends orbit.actors.Actor { orbit.concurrent.Task f(T x, a<b.T> y); } class T;"
        "interface I extends orbit.actors.Actor { orbit.concurrent.Task f(a<b.T, T> x); } class T;" := by
  constructor
  · have hcaller : (plansOfText (some "int,b")
        "interface I extends orbit.actors.Actor { orbit.concurrent.Task f(T x); } class T;").map
          (·.outline) = [("int,b.I", [("f(int,b.T)", ["x"])])] := by
      rw [plansOfText_eq _ _ rfl]
      decide +kernel
    have hcallee : (plansOfText (some "int,b")
        "interface I extends orbit.actors.Actor { orbit.concurrent.Task f(int x, b.T y); }").map
          (·.outline) = [("int,b.I", [("f(int,b.T)", ["x", "y"])])] := by
      rw [plansOfText_eq _ _ rfl]
      decide +kernel
    exact refusesCall_of_lengths hcaller hcallee (by decide)
  · have hcaller : (plansOfText (some "a<b")
        "interface I extends orbit.actors.Actor { orbit.concurrent.Task f(T x, a<b.T> y); } class T;").map
          (·.outline) = [("a<b.I", [("f(a<b.T,a<b.T>)", ["x", "y"])])] := by
      rw [plansOfText_eq _ _ rfl]
      decide +kernel
    have hcallee : (plansOfText (some "a<b")
        "interface I extends orbit.actors.Actor { orbit.concurrent.Task f(a<b.T, T> x); } class T;").map
          (·.outline) = [("a<b.I", [("f(a<b.T,a<b.T>)", ["x"])])] := by
      rw [plansOfText_eq _ _ rfl]
      decide +kernel
    exact refusesCall_of_lengths hcaller hcallee (by decide)

end ActorIdl
