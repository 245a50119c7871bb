import ActorIdl.Proofs.Declaration.Growth
import ActorIdl.Proofs.Declaration.Resolution
import ActorIdl.Proofs.Plan.WellFormed
import ActorIdl.Proofs.Round.Loops
/-! # Failures stay where they are

    A round writes for one declaration after the other, and any of its outputs can be refused.  What
    becomes of the outputs of one declaration depends on these alone: whether they are refused, and
    whether they are taken.  So two rounds over one table, with other paths refused in the one than
    in the other, treat a declaration alike if neither refuses its outputs and no other declaration
    asks for them. -/

namespace ActorIdl

/-! ## Two states of the filer -/

namespace Outputs

/-- Two states of the filer that do the same with the outputs under some kinds and paths: they hold
    the same there, and they refuse the same paths. -/
structure Alike (K : OutputKind × String → Prop) (o o' : Outputs) : Prop where
  get? : ∀ kind path, K (kind, path) → o.get? kind path = o'.get? kind path
  failing : ∀ kind path, K (kind, path) → o.failing.contains path = o'.failing.contains path

namespace Alike

variable {K : OutputKind × String → Prop} {o o' o'' : Outputs} {f : OutputFile}

theorem refl (o : Outputs) : Alike K o o := ⟨fun _ _ _ => rfl, fun _ _ _ => rfl⟩

theorem symm (h : Alike K o o') : Alike K o' o :=
  ⟨fun k p hK => (h.get? k p hK).symm, fun k p hK => (h.failing k p hK).symm⟩

theorem trans (h : Alike K o o') (h' : Alike K o' o'') : Alike K o o'' :=
  ⟨fun k p hK => (h.get? k p hK).trans (h'.get? k p hK),
    fun k p hK => (h.failing k p hK).trans (h'.failing k p hK)⟩

theorem equivalence : Equivalence (Alike K) := ⟨refl, symm, trans⟩

/-- An output elsewhere does not matter. -/
theorem keeps (hf : ¬K f.key) : filer.Keeps (Alike K · o') f := by
  intro o h
  rcases filer_cases f.kind f.path f.contents o with ⟨e, hrefused⟩ | ⟨_, hcreated⟩
  · rw [hrefused]
    exact h
  · rw [hcreated]
    refine ⟨fun kind path hK => ?_, h.failing⟩
    have hne : f.key ≠ (kind, path) := by
      intro heq
      exact hf (heq ▸ hK)
    rw [get?_append, if_neg hne, Option.or_none, h.get? kind path hK]

/-- An output there is created in both states or in neither, and they stay alike. -/
theorem filer (h : Alike K o o') (hf : K f.key) :
    (filer f.kind f.path f.contents o).1 = (filer f.kind f.path f.contents o').1 ∧
      Alike K (filer f.kind f.path f.contents o).2 (filer f.kind f.path f.contents o').2 := by
  have hrefusal : o.refusal? f.kind f.path = o'.refusal? f.kind f.path := by
    unfold refusal?
    rw [h.failing _ _ hf, h.get? _ _ hf]
  unfold Outputs.filer
  rw [hrefusal]
  cases o'.refusal? f.kind f.path with
  | some e => exact ⟨rfl, h⟩
  | none =>
    refine ⟨rfl, fun kind path hK => ?_, h.failing⟩
    dsimp only
    rw [get?_append, get?_append, h.get? kind path hK]

end Alike

end Outputs

/-! ## One declaration after the other -/

namespace Round

section
variable {σ α β : Type}

/-- Only some elements matter for what two states have in common.  A step for one that matters has
    one outcome in both states and changes them alike, and a step for any other one changes nothing
    that they have in common. -/
structure Respects (R : σ → σ → Prop) (mine : α → Bool) (step : α → σ → β × σ) (a : α) : Prop where
  own : mine a = true → ∀ s s', R s s' →
    (step a s).1 = (step a s').1 ∧ R (step a s).2 (step a s').2
  other : mine a = false → ∀ s s', R s s' → R (step a s).2 s'

variable {R : σ → σ → Prop} {mine : α → Bool} {step : α → σ → β × σ} {as as' : List α} {s s' : σ}

/-- For what matters, to visit everything has the outcomes of visiting nothing else. -/
theorem visit_filter (hstep : ∀ a ∈ as, Respects R mine step a) (h : R s s') :
    (visit step as s).1.filter (fun outcome => mine outcome.1) =
        (visit step (as.filter mine) s').1 ∧
      R (visit step as s).2 (visit step (as.filter mine) s').2 := by
  induction as generalizing s s' with
  | nil => exact ⟨rfl, h⟩
  | cons a as ih =>
    obtain ⟨ha, has⟩ := List.forall_mem_cons.mp hstep
    rw [visit, List.filter_cons, List.filter_cons]
    dsimp only
    cases hmine : mine a with
    | true =>
      obtain ⟨houtcome, hstate⟩ := ha.own hmine s s' h
      obtain ⟨hrest, hlast⟩ := ih has hstate
      rw [if_pos rfl, if_pos rfl, visit, hrest, houtcome]
      exact ⟨rfl, hlast⟩
    | false =>
      -- only the state on the left moves
      obtain ⟨hrest, hlast⟩ := ih has (ha.other hmine s s' h)
      rw [if_neg Bool.false_ne_true, if_neg Bool.false_ne_true]
      exact ⟨hrest, hlast⟩

/-- Two visits have the same outcomes for what matters if the same elements matter in both. -/
theorem visit_alike (hR : Equivalence R) (hstep : ∀ a ∈ as, Respects R mine step a)
    (hstep' : ∀ a ∈ as', Respects R mine step a) (hsame : as.filter mine = as'.filter mine)
    (h : R s s') :
    (visit step as s).1.filter (fun outcome => mine outcome.1) =
        (visit step as' s').1.filter (fun outcome => mine outcome.1) ∧
      R (visit step as s).2 (visit step as' s').2 := by
  -- both are compared with a visit of nothing but what matters, from the state on the right
  obtain ⟨hleft, hstate⟩ := visit_filter hstep h
  obtain ⟨hright, hstate'⟩ := visit_filter hstep' (hR.refl s')
  rw [hsame] at hleft hstate
  exact ⟨hleft.trans hright.symm, hR.trans hstate (hR.symm hstate')⟩

/-- Of the reports about the outcomes only those about what matters are left where the others are
    not of interest. -/
theorem filter_flatMap_visit {about : Diagnostic → Bool} {reports : α × β → List Diagnostic}
    (hother : ∀ a ∈ as, mine a = false → ∀ s, ∀ d ∈ reports (a, (step a s).1), about d = false) :
    ((visit step as s).1.flatMap reports).filter about =
      (((visit step as s).1.filter fun outcome => mine outcome.1).flatMap reports).filter about := by
  induction as generalizing s with
  | nil => rfl
  | cons a as ih =>
    obtain ⟨ha, has⟩ := List.forall_mem_cons.mp hother
    rw [visit, List.flatMap_cons, List.filter_append, ih has, List.filter_cons]
    dsimp only
    -- an element that is not mine reports nothing of the kind
    cases hmine : mine a with
    | true => rw [if_pos rfl, List.flatMap_cons, List.filter_append]
    | false =>
      have hnone : (reports (a, (step a s).1)).filter about = [] := by
        rw [List.filter_eq_nil_iff]
        intro d hd
        rw [ha hmine s d hd]
        exact Bool.false_ne_true
      rw [if_neg Bool.false_ne_true, hnone, List.nil_append]

/-- Two visits report the same of what matters if the same elements matter in both. -/
theorem reports_visit_alike (hR : Equivalence R) (hstep : ∀ a ∈ as, Respects R mine step a)
    (hstep' : ∀ a ∈ as', Respects R mine step a) (hsame : as.filter mine = as'.filter mine)
    (h : R s s') {about : Diagnostic → Bool} {reports : α × β → List Diagnostic}
    (hother : ∀ a, a ∈ as ∨ a ∈ as' → mine a = false → ∀ s, ∀ d ∈ reports (a, (step a s).1),
      about d = false) :
    ((visit step as s).1.flatMap reports).filter about =
      ((visit step as' s').1.flatMap reports).filter about := by
  rw [filter_flatMap_visit fun a ha => hother a (.inl ha),
    filter_flatMap_visit fun a ha => hother a (.inr ha),
    (visit_alike hR hstep hstep' hsame h).1]

end

end Round

/-! ## The outputs of a declaration -/

namespace Table

/-- The outputs that a round makes for a declaration: the sources and the manifest of an interface
    that has a plan, and the manifest of an actor class. -/
inductive CallsFor (t : Table) (renderer : Renderer) : DeclId → OutputFile → Prop where
  | source {p : Plan} {f : OutputFile} : p ∈ t.plans → f ∈ p.sources renderer →
      CallsFor t renderer p.decl f
  | manifest {p : Plan} : p ∈ t.plans → CallsFor t renderer p.decl p.manifest
  | classManifest {id : DeclId} {f : OutputFile} : id ∈ t.candidates.classes →
      t.classManifest? id = some f → CallsFor t renderer id f

theorem lt_size_of_mem_plans {t : Table} {p : Plan} (hp : p ∈ t.plans) : p.decl < t.size := by
  obtain ⟨_, hd, _⟩ := isFor_of_mem_plans hp
  exact lt_size_of_get? hd

/-- No other declaration has an output of the same kind under the path of one of its outputs. -/
def IsAlone (t : Table) (renderer : Renderer) (id : DeclId) : Prop :=
  ∀ f, t.CallsFor renderer id f → ∀ id' f', t.CallsFor renderer id' f' → f'.key = f.key → id' = id

/-- All outputs that a round makes, each with its declaration. -/
def calls (t : Table) (renderer : Renderer) : List (DeclId × OutputFile) :=
  t.plans.flatMap (fun p => (p.sources renderer ++ [p.manifest]).map fun f => (p.decl, f)) ++
    t.candidates.classes.filterMap fun id => (t.classManifest? id).map fun f => (id, f)

theorem mem_calls {t : Table} {renderer : Renderer} {id : DeclId} {f : OutputFile} :
    (id, f) ∈ t.calls renderer ↔ t.CallsFor renderer id f := by
  rw [calls, List.mem_append, List.mem_flatMap, List.mem_filterMap]
  constructor
  · rintro (⟨p, hp, hf⟩ | ⟨id', hid, hf⟩)
    · obtain ⟨f', hf', heq⟩ := List.mem_map.mp hf
      obtain ⟨rfl, rfl⟩ := Prod.mk.inj heq
      rcases List.mem_append.mp hf' with hsource | hmanifest
      · exact .source hp hsource
      · rw [List.mem_singleton.mp hmanifest]
        exact .manifest hp
    · obtain ⟨f', hf', heq⟩ := Option.map_eq_some_iff.mp hf
      obtain ⟨rfl, rfl⟩ := Prod.mk.inj heq
      exact .classManifest hid hf'
  · intro h
    cases h with
    | source hp hf => exact .inl ⟨_, hp, List.mem_map_of_mem (List.mem_append_left _ hf)⟩
    | manifest hp =>
      exact .inl ⟨_, hp, List.mem_map_of_mem (List.mem_append_right _ (List.mem_singleton_self _))⟩
    | classManifest hid hf => exact .inr ⟨_, hid, by rw [hf]; rfl⟩

/-- The places of the outputs of a declaration. -/
def Places (t : Table) (renderer : Renderer) (id : DeclId) (key : OutputKind × String) : Prop :=
  ∃ f, t.CallsFor renderer id f ∧ f.key = key

end Table

/-! ## One round beside another -/

namespace Round

open Outputs (Alike)

section
variable {t : Table} {renderer : Renderer} {id : DeclId} (halone : t.IsAlone renderer id)

/-- The filer answers alike at the outputs of the declaration. -/
theorem agrees_of_callsFor {f : OutputFile} (hf : t.CallsFor renderer id f) :
    Outputs.filer.Agrees Outputs.filer (Alike (t.Places renderer id)) f :=
  fun _ _ h => h.filer ⟨f, hf, rfl⟩

include halone

/-- The outputs of other declarations leave the places of the declaration alone. -/
theorem keeps_of_callsFor {id' : DeclId} {f : OutputFile} (hf : t.CallsFor renderer id' f)
    (hne : (id' == id) = false) (o' : Outputs) :
    Outputs.filer.Keeps (Alike (t.Places renderer id) · o') f := by
  apply Alike.keeps
  rintro ⟨f', hf', hkey⟩
  exact beq_eq_false_iff_ne.mp hne (halone f' hf' id' f hf hkey.symm)

theorem writePlan_respects {p : Plan} (hp : p ∈ t.plans) :
    Respects (Alike (t.Places renderer id)) (·.decl == id) (writePlan Outputs.filer renderer) p where
  own hmine o o' h := by
    obtain rfl : p.decl = id := beq_iff_eq.mp hmine
    exact writePlan_agrees h fun f hf => agrees_of_callsFor (.source hp hf)
  other hmine o o' h :=
    writePlan_preserves (fun _ hf => keeps_of_callsFor halone (.source hp hf) hmine o') h

theorem registerInterface_respects {p : Plan} (hp : p ∈ t.plans) :
    Respects (Alike (t.Places renderer id)) (·.decl == id)
      (Manifest.registerInterface Outputs.filer t) p where
  own hmine o o' h := by
    obtain rfl : p.decl = id := beq_iff_eq.mp hmine
    exact registerInterface_agrees h (agrees_of_callsFor (.manifest hp))
  other hmine o o' h :=
    registerInterface_preserves (keeps_of_callsFor halone (.manifest hp) hmine o') h

theorem registerClass_respects {c : DeclId} (hc : c ∈ t.candidates.classes) :
    Respects (Alike (t.Places renderer id)) (· == id)
      (Manifest.registerClass Outputs.filer t) c where
  own hmine o o' h := by
    obtain rfl : c = id := beq_iff_eq.mp hmine
    exact registerClass_agrees h fun f hf => agrees_of_callsFor (.classManifest hc hf)
  other hmine o o' h :=
    registerClass_preserves
      (fun _ hf => keeps_of_callsFor halone (.classManifest hc hf) hmine o') h

end

/-! ### Reports are about the declaration at hand -/

section
variable {σ : Type} {filer : Filer σ} {t : Table} {p : Plan} {id : DeclId} {s : σ} {d : Diagnostic}

theorem reportAt_of_mem_sourceReports {outcome : Except Cause (List RenderedUnit)}
    (hd : d ∈ sourceReports t (p, outcome)) : ∃ cause, d = t.reportAt p.decl cause := by
  cases outcome with
  | ok units => exact ⟨_, List.mem_singleton.mp hd⟩
  | error cause => exact ⟨_, List.mem_singleton.mp hd⟩

theorem reportAt_of_mem_manifestReports
    (hd : d ∈ manifestReports (p, (Manifest.registerInterface filer t p s).1)) :
    ∃ cause, d = t.reportAt p.decl cause := by
  cases houtcome : (Manifest.registerInterface filer t p s).1 with
  | ok path =>
    rw [houtcome] at hd
    cases hd
  | error report =>
    rw [houtcome] at hd
    obtain ⟨e, he⟩ := Manifest.reportAt_of_registerInterface houtcome
    exact ⟨_, List.mem_singleton.mp hd ▸ he⟩

theorem reportAt_of_mem_classReports
    (hd : d ∈ classReports (id, (Manifest.registerClass filer t id s).1)) :
    ∃ cause, d = t.reportAt id cause := by
  cases houtcome : (Manifest.registerClass filer t id s).1 with
  | none =>
    rw [houtcome] at hd
    cases hd
  | some outcome =>
    rw [houtcome] at hd
    cases outcome with
    | ok path => cases hd
    | error report =>
      obtain ⟨e, he⟩ := Manifest.reportAt_of_registerClass houtcome
      exact ⟨_, List.mem_singleton.mp hd ▸ he⟩

end

/-! ### Loops -/

section
variable {t : Table} {renderer : Renderer} {id : DeclId} (halone : t.IsAlone renderer id)
  {o o' : Outputs} (h : Alike (t.Places renderer id) o o') {about : Diagnostic → Bool}
  (habout : ∀ id' < t.size, id' ≠ id → ∀ cause, about (t.reportAt id' cause) = false)

theorem filter_written (xs : List (Plan × Except Cause (List RenderedUnit))) :
    (xs.filterMap written?).filter (·.1.decl == id) =
      (xs.filter (·.1.decl == id)).filterMap written? := by
  rw [List.filter_filterMap, List.filterMap_filter]
  apply List.filterMap_congr
  rintro ⟨p, outcome⟩ _
  cases outcome with
  | ok units =>
    dsimp only [written?]
    rw [Option.filter_some]
  | error cause =>
    dsimp only [written?]
    rw [ite_self]
    rfl

include halone h habout

/-- The plan of the declaration is written in both rounds or in neither. -/
theorem writePlans_alike :
    (writePlans Outputs.filer renderer t t.plans o).1.1.filter (·.1.decl == id) =
        (writePlans Outputs.filer renderer t t.plans o').1.1.filter (·.1.decl == id) ∧
      (writePlans Outputs.filer renderer t t.plans o).1.2.filter about =
        (writePlans Outputs.filer renderer t t.plans o').1.2.filter about ∧
      Alike (t.Places renderer id) (writePlans Outputs.filer renderer t t.plans o).2
        (writePlans Outputs.filer renderer t t.plans o').2 := by
  have hstep : ∀ p ∈ t.plans, Respects (Alike (t.Places renderer id)) (·.decl == id)
      (writePlan Outputs.filer renderer) p := fun p hp => writePlan_respects halone hp
  obtain ⟨houtcomes, hstate⟩ := visit_alike Alike.equivalence hstep hstep rfl h
  rw [writePlans_eq_visit, writePlans_eq_visit]
  refine ⟨?_, ?_, hstate⟩
  · dsimp only
    rw [filter_written, filter_written, houtcomes]
  · apply reports_visit_alike Alike.equivalence hstep hstep rfl h
    intro p hp hother s d hd
    obtain ⟨cause, rfl⟩ := reportAt_of_mem_sourceReports hd
    exact habout _ (Table.lt_size_of_mem_plans (or_self_iff.mp hp))
      (beq_eq_false_iff_ne.mp hother) _

/-- Other interfaces may be registered in the one round and not in the other. -/
theorem registerInterfaces_alike {ps ps' : List Plan} (hps : ps ⊆ t.plans) (hps' : ps' ⊆ t.plans)
    (hsame : ps.filter (·.decl == id) = ps'.filter (·.decl == id)) :
    (registerInterfaces Outputs.filer t ps o).1.2.filter about =
        (registerInterfaces Outputs.filer t ps' o').1.2.filter about ∧
      Alike (t.Places renderer id) (registerInterfaces Outputs.filer t ps o).2
        (registerInterfaces Outputs.filer t ps' o').2 := by
  have hstep : ∀ p ∈ t.plans, Respects (Alike (t.Places renderer id)) (·.decl == id)
      (Manifest.registerInterface Outputs.filer t) p :=
    fun p hp => registerInterface_respects halone hp
  rw [registerInterfaces_eq_visit, registerInterfaces_eq_visit]
  refine ⟨?_, (visit_alike Alike.equivalence (fun p hp => hstep p (hps hp))
    (fun p hp => hstep p (hps' hp)) hsame h).2⟩
  apply reports_visit_alike Alike.equivalence (fun p hp => hstep p (hps hp))
    (fun p hp => hstep p (hps' hp)) hsame h
  intro p hp hother s d hd
  have hplan : p ∈ t.plans := hp.elim (fun hp => hps hp) fun hp => hps' hp
  obtain ⟨cause, rfl⟩ := reportAt_of_mem_manifestReports hd
  exact habout _ (Table.lt_size_of_mem_plans hplan) (beq_eq_false_iff_ne.mp hother) _

theorem registerClasses_alike :
    (registerClasses Outputs.filer t t.candidates.classes o).1.2.filter about =
        (registerClasses Outputs.filer t t.candidates.classes o').1.2.filter about ∧
      Alike (t.Places renderer id) (registerClasses Outputs.filer t t.candidates.classes o).2
        (registerClasses Outputs.filer t t.candidates.classes o').2 := by
  have hstep : ∀ c ∈ t.candidates.classes, Respects (Alike (t.Places renderer id)) (· == id)
      (Manifest.registerClass Outputs.filer t) c := fun c hc => registerClass_respects halone hc
  rw [registerClasses_eq_visit, registerClasses_eq_visit]
  refine ⟨?_, (visit_alike Alike.equivalence hstep hstep rfl h).2⟩
  apply reports_visit_alike Alike.equivalence hstep hstep rfl h
  intro c hc hother s d hd
  have hclass := (Table.mem_classes.mp (or_self_iff.mp hc)).2
  obtain ⟨cause, rfl⟩ := reportAt_of_mem_classReports hd
  exact habout _ (Table.lt_size_of_isKind hclass) (beq_eq_false_iff_ne.mp hother) _

end

end Round

/-! ## Two whole rounds -/

/-- Rounds from states that are alike for a declaration write the same of its plan, report the same
    of it, and end in states that are alike again. -/
theorem processRound_alike {t : Table} {renderer : Renderer} {id : DeclId}
    (halone : t.IsAlone renderer id) {o o' : Outputs}
    (h : Outputs.Alike (t.Places renderer id) o o') (about : Diagnostic → Bool)
    (habout : ∀ id' < t.size, id' ≠ id → ∀ cause, about (t.reportAt id' cause) = false) :
    (processRound Outputs.filer renderer t .register o).1.written.filter (·.1.decl == id) =
        (processRound Outputs.filer renderer t .register o').1.written.filter (·.1.decl == id) ∧
      (processRound Outputs.filer renderer t .register o).1.reports.filter about =
        (processRound Outputs.filer renderer t .register o').1.reports.filter about ∧
      Outputs.Alike (t.Places renderer id) (processRound Outputs.filer renderer t .register o).2
        (processRound Outputs.filer renderer t .register o').2 := by
  obtain ⟨hwritten, hsources, hstate⟩ := Round.writePlans_alike halone h habout
  have hplans : ∀ o, (Round.writePlans Outputs.filer renderer t t.plans o).1.1.map (·.1) ⊆
      t.plans := by
    intro o p hp
    obtain ⟨w, hw, rfl⟩ := List.mem_map.mp hp
    exact (Round.mem_of_mem_writePlans hw).1
  have hsame : ((Round.writePlans Outputs.filer renderer t t.plans o).1.1.map (·.1)).filter
        (·.decl == id) =
      ((Round.writePlans Outputs.filer renderer t t.plans o').1.1.map (·.1)).filter
        (·.decl == id) := by
    rw [List.filter_map, List.filter_map]
    exact congrArg _ hwritten
  -- the interfaces that are registered differ, but not in the one that matters
  obtain ⟨hinterfaces, hstate⟩ := Round.registerInterfaces_alike halone hstate habout (hplans o)
    (hplans o') hsame
  obtain ⟨hclasses, hstate⟩ := Round.registerClasses_alike halone hstate habout
  rw [processRound_eq, processRound_eq]
  refine ⟨hwritten, ?_, hstate⟩
  dsimp only
  simp only [List.filter_append, hsources, hinterfaces, hclasses]

/-- What a round does for a declaration depends on what is refused of its own outputs alone.  Let
    two rounds over one table refuse different paths, but either both or neither of them each path
    of the declaration, and let no other declaration of the table ask for an output of its kind
    there.  Then both rounds leave the same outputs behind for the declaration, both or neither
    count its plan as written, and they report the same about it. -/
theorem isolation_of_round (units : List SourceUnit) (renderer : Renderer)
    (failing failing' : List String) (id : DeclId) (d : Declaration)
    (hd : (Table.build units).1.get? id = some d)
    (hfailing : ∀ f, (Table.build units).1.CallsFor renderer id f →
      (f.path ∈ failing ↔ f.path ∈ failing'))
    (halone : (Table.build units).1.IsAlone renderer id) :
    let t := (Table.build units).1
    let round := processRound Outputs.filer renderer t .register (.empty failing)
    let round' := processRound Outputs.filer renderer t .register (.empty failing')
    (∀ f, t.CallsFor renderer id f →
        round.2.get? f.kind f.path = round'.2.get? f.kind f.path) ∧
      round.1.written.filter (·.1.decl == id) = round'.1.written.filter (·.1.decl == id) ∧
      ∀ origin, (origin = some d.qualifiedName ∨
          ∀ other ∈ t.decls, origin ≠ some other.qualifiedName) →
        round.1.reports.filter (·.origin == origin) =
          round'.1.reports.filter (·.origin == origin) := by
  dsimp only
  have hunique := @Table.eq_of_qualifiedName_eq units
  generalize (Table.build units).1 = t at *
  have hempty : Outputs.Alike (t.Places renderer id) (.empty failing) (.empty failing') := by
    constructor
    · exact fun _ _ _ => rfl
    · rintro kind path ⟨f, hf, hkey⟩
      obtain rfl : f.path = path := congrArg Prod.snd hkey
      rw [Bool.eq_iff_iff, List.contains_iff_mem, List.contains_iff_mem]
      exact hfailing f hf
  -- no two declarations have one name, so reports about others have other origins
  have habout : ∀ origin, (origin = some d.qualifiedName ∨
      ∀ other ∈ t.decls, origin ≠ some other.qualifiedName) →
        ∀ id' < t.size, id' ≠ id → ∀ cause, ((t.reportAt id' cause).origin == origin) = false := by
    intro origin horigin id' hsize hne cause
    obtain ⟨other, hother⟩ := Table.exists_get?_of_lt_size hsize
    have hname : (t.reportAt id' cause).origin = some other.qualifiedName := by
      rw [Table.reportAt, Table.nameOf, hother]
      rfl
    rw [hname, beq_eq_false_iff_ne]
    rcases horigin with rfl | hnone
    · exact fun heq => hne (hunique hother hd (Option.some.inj heq))
    · exact (hnone other (Table.mem_decls_of_get? hother)).symm
  obtain ⟨hwritten, _, hstate⟩ := processRound_alike halone hempty
    (·.origin == some d.qualifiedName) (habout _ (.inl rfl))
  refine ⟨fun f hf => hstate.get? _ _ ⟨f, hf, rfl⟩, hwritten, fun origin horigin => ?_⟩
  exact (processRound_alike halone hempty (·.origin == origin) (habout origin horigin)).2.1

/-- Two actor interfaces and an actor class. -/
def neighbourUnits : List SourceUnit :=
  unitsOfText none
    "interface I extends orbit.actors.Actor; interface J extends orbit.actors.Actor;
    class C implements I;"

/-- The places of all outputs for them, with stubs as the only sources. -/
def neighbourPlaces : List (DeclId × OutputKind × String) :=
  [(0, .source, "IFactory.orbit"), (0, .resource, "META-INF/orbit/actors/interfaces/I"),
    (1, .source, "JFactory.orbit"), (1, .resource, "META-INF/orbit/actors/interfaces/J"),
    (2, .resource, "META-INF/orbit/actors/classes/C")]

/-- The stub of the one interface is refused, and for the other one nothing changes. -/
theorem isolation_of_round_neighbour :
    (processRound Outputs.filer .stub (Table.build neighbourUnits).1 .register
        (.empty ["JFactory.orbit"])).2.get? .source "IFactory.orbit" =
      (processRound Outputs.filer .stub (Table.build neighbourUnits).1 .register
        (.empty [])).2.get? .source "IFactory.orbit" ∧
    ((processRound Outputs.filer .stub (Table.build neighbourUnits).1 .register
      (.empty [])).2.get? .source "IFactory.orbit").isSome = true := by
  obtain ⟨hname, hplaces, hthere⟩ :
      ((Table.build neighbourUnits).1.get? 0).map (·.qualifiedName) = some "I" ∧
        ((Table.build neighbourUnits).1.calls .stub).map (fun call => (call.1, call.2.key)) =
          neighbourPlaces ∧
        ((processRound Outputs.filer .stub (Table.build neighbourUnits).1 .register
          (.empty [])).2.get? .source "IFactory.orbit").isSome = true := by
    rw [neighbourUnits, unitsOfText_eq none _ rfl]
    decide +kernel
  obtain ⟨d, hd, _⟩ := Option.map_eq_some_iff.mp hname
  have hmem : ∀ id f, (Table.build neighbourUnits).1.CallsFor .stub id f →
      (id, f.key) ∈ neighbourPlaces :=
    fun id f hf => hplaces ▸ List.mem_map_of_mem (Table.mem_calls.mpr hf)
  have hstub : (0, OutputKind.source, "IFactory.orbit") ∈
      ((Table.build neighbourUnits).1.calls .stub).map (fun call => (call.1, call.2.key)) := by
    rw [hplaces]
    exact List.mem_cons_self
  obtain ⟨call, hcall, heq⟩ := List.mem_map.mp hstub
  obtain ⟨hdecl, hkey⟩ := Prod.mk.inj heq
  obtain ⟨hkind, hpath⟩ := Prod.mk.inj hkey
  have hf : (Table.build neighbourUnits).1.CallsFor .stub 0 call.2 :=
    hdecl ▸ Table.mem_calls.mp hcall
  have hrefused : ∀ place ∈ neighbourPlaces, place.1 = 0 → place.2.2 ∉ ["JFactory.orbit"] := by
    decide
  have halone : ∀ place ∈ neighbourPlaces, ∀ place' ∈ neighbourPlaces, place'.2 = place.2 →
      place'.1 = place.1 := by
    decide
  have hsame := (isolation_of_round neighbourUnits .stub ["JFactory.orbit"] [] 0 d hd
    (fun f hf => iff_of_false (hrefused _ (hmem 0 f hf) rfl) List.not_mem_nil)
    (fun f hf id' f' hf' hkey => halone _ (hmem 0 f hf) _ (hmem id' f' hf') hkey)).1 call.2 hf
  rw [hkind, hpath] at hsame
  exact ⟨hsame, hthere⟩

end ActorIdl
