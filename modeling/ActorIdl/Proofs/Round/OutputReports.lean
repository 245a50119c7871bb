import ActorIdl.Proofs.Declaration.Supertypes
import ActorIdl.Proofs.Plan.WellFormed
import ActorIdl.Proofs.Round.Fates
import ActorIdl.Proofs.Round.Markers
/-! # Reports about outputs

    Names tell the declarations of a table apart, and what a round reports about its outputs has
    codes of its own.  So the reports about the outputs of one declaration can be told from all
    others, and they are those that the fate of its plan or class calls for: every plan and class
    is accounted for. -/

namespace ActorIdl

/-! ## Reports by declaration -/

/-- Whether a report is about what a round writes for a declaration. -/
def Diagnostic.isOutputReport (t : Table) (id : DeclId) (d : Diagnostic) : Bool :=
  d.origin == some (t.nameOf id) && (d.cause.code? == some "I0001" ||
    d.cause.code? == some "E0401" || d.cause.code? == some "E0402")

/-- All that a round reports about what it writes for a declaration. -/
def Round.outputReports (t : Table) (id : DeclId) (round : Round) : List Diagnostic :=
  round.reports.filter (·.isOutputReport t id)

namespace Diagnostic

variable {t : Table} {id : DeclId} {d : Diagnostic}

theorem isOutputReport_of_codes {codes : List String} {ds : List Diagnostic}
    (h : HaveCodes codes ds) (hcodes : "I0001" ∉ codes ∧ "E0401" ∉ codes ∧ "E0402" ∉ codes) :
    ds.filter (·.isOutputReport t id) = [] := by
  rw [List.filter_eq_nil_iff]
  intro d hd hreport
  have hcode := (Bool.and_eq_true_iff.mp hreport).2
  simp only [Bool.or_eq_true, beq_iff_eq] at hcode
  rcases hcode with (hcode | hcode) | hcode
  · exact h.ne hcodes.1 d hd hcode
  · exact h.ne hcodes.2.1 d hd hcode
  · exact h.ne hcodes.2.2 d hd hcode

theorem isOutputReport_eq_false {other : DeclId} (h : d.isOutputReport t id = true)
    (hne : t.nameOf id ≠ t.nameOf other) : d.isOutputReport t other = false := by
  have horigin := (Bool.and_eq_true_iff.mp h).1
  rw [beq_iff_eq] at horigin
  rw [isOutputReport, Bool.and_eq_false_iff, horigin]
  exact .inl (beq_eq_false_iff_ne.mpr fun heq => hne (Option.some.inj heq))

end Diagnostic

section
variable {t : Table} {α : Type} {k : α → DeclId} {f : α → List Diagnostic} {xs : List α}
  (hf : ∀ x, ∀ d ∈ f x, d.isOutputReport t (k x) = true)
include hf

/-- Reports about other declarations are none about this one. -/
theorem filter_isOutputReport_of_ne {id : DeclId} (hne : ∀ x ∈ xs, t.nameOf (k x) ≠ t.nameOf id) :
    (xs.flatMap f).filter (·.isOutputReport t id) = [] := by
  rw [List.filter_eq_nil_iff]
  intro d hd
  obtain ⟨x, hx, hd⟩ := List.mem_flatMap.mp hd
  exact Bool.eq_false_iff.mp (Diagnostic.isOutputReport_eq_false (hf x d hd) (hne x hx))

/-- If an element is the only one about its declaration, its reports are all of them. -/
theorem filter_isOutputReport_of_mem (hnodup : (xs.map fun x => t.nameOf (k x)).Nodup) {x : α}
    (hx : x ∈ xs) : (xs.flatMap f).filter (·.isOutputReport t (k x)) = f x := by
  obtain ⟨before, after, rfl⟩ := List.append_of_mem hx
  rw [List.map_append, List.map_cons, List.nodup_middle, List.nodup_cons, ← List.map_append]
    at hnodup
  have hne : ∀ y ∈ before ++ after, t.nameOf (k y) ≠ t.nameOf (k x) :=
    fun y hy heq => hnodup.1 (heq ▸ List.mem_map_of_mem hy)
  obtain ⟨hbefore, hafter⟩ := List.forall_mem_append.mp hne
  rw [List.flatMap_append, List.flatMap_cons, List.filter_append, List.filter_append,
    filter_isOutputReport_of_ne hf hbefore, filter_isOutputReport_of_ne hf hafter,
    List.filter_eq_self.mpr (hf x), List.nil_append, List.append_nil]

end

theorem ManifestFate.isOutputReport {t : Table} {id : DeclId} {fate : ManifestFate} {d : Diagnostic}
    (hd : d ∈ fate.reports t id) : d.isOutputReport t id = true := by
  cases fate with
  | created => cases hd
  | refused e =>
    rw [List.mem_singleton.mp hd, Diagnostic.isOutputReport, Table.reportAt, beq_self_eq_true]
    rfl

theorem ClassFate.isOutputReport (t : Table) (x : DeclId × ClassFate) :
    ∀ d ∈ x.2.reports t x.1, d.isOutputReport t x.1 = true := by
  intro d hd
  obtain ⟨m, _, hd⟩ := List.mem_flatMap.mp hd
  exact ManifestFate.isOutputReport hd

namespace PlanFate

theorem isOutputReport_cause (t : Table) (x : Plan × PlanFate ManifestFate) :
    ∀ d ∈ [t.reportAt x.1.decl (x.2.cause x.1)], d.isOutputReport t x.1.decl = true := by
  intro d hd
  rw [List.mem_singleton.mp hd, Diagnostic.isOutputReport, Table.reportAt, beq_self_eq_true]
  cases x.2 <;> rfl

theorem isOutputReport_manifest (t : Table) (x : Plan × PlanFate ManifestFate) :
    ∀ d ∈ x.2.manifestReports t x.1, d.isOutputReport t x.1.decl = true := by
  intro d hd
  obtain ⟨m, _, hd⟩ := List.mem_flatMap.mp hd
  exact ManifestFate.isOutputReport hd

end PlanFate

namespace Table

variable {t : Table}

/-- Names tell the declarations of a table apart. -/
def NamesApart (t : Table) : Prop := ∀ i < t.size, ∀ j < t.size, t.nameOf i = t.nameOf j → i = j

theorem namesApart_build (units : List SourceUnit) : (build units).1.NamesApart := by
  intro i hi j hj h
  have hget : ∀ k < (build units).1.size, ∃ d, (build units).1.get? k = some d ∧
      (build units).1.nameOf k = d.qualifiedName := by
    intro k hk
    obtain ⟨d, hd⟩ := exists_get?_of_lt_size hk
    refine ⟨d, hd, ?_⟩
    rw [nameOf, hd]
    rfl
  obtain ⟨d, hd, hname⟩ := hget i hi
  obtain ⟨d', hd', hname'⟩ := hget j hj
  exact eq_of_qualifiedName_eq hd hd' (by rw [← hname, ← hname', h])

theorem NamesApart.nodup (h : t.NamesApart) {ids : List DeclId} (hids : ids.Nodup)
    (hsize : ∀ id ∈ ids, id < t.size) : (ids.map t.nameOf).Nodup :=
  hids.map_on fun i hi j hj => h i (hsize i hi) j (hsize j hj)

/-- No plan is that of a candidate class. -/
theorem NamesApart.ne_class (h : t.NamesApart) {p : Plan} (hp : p ∈ t.plans) {id : DeclId}
    (hid : id ∈ t.candidates.classes) : t.nameOf p.decl ≠ t.nameOf id := by
  have hdecl : p.decl ∈ t.remotes := decls_plans t ▸ List.mem_map_of_mem hp
  have hinterface := (List.mem_filter.mp hdecl).1
  intro heq
  have hsame := h _ (lt_size_of_isKind (mem_interfaces.mp hinterface).2) _
    (lt_size_of_isKind (mem_classes.mp hid).2) heq
  exact disjoint_filter_isKind (by decide) _ hid (hsame ▸ hinterface)

/-- A candidate class has a manifest if it is not abstract and one can climb from it to the actor
    marker. -/
theorem isSome_classManifest?_iff {id : DeclId} (hid : id ∈ t.candidates.classes) :
    (t.classManifest? id).isSome = true ↔
      ∃ d, t.get? id = some d ∧ d.isAbstract = false ∧ t.Climbs id Library.actor := by
  rw [Option.isSome_iff_exists, ← reaches_iff]
  constructor
  · rintro ⟨f, hf⟩
    obtain ⟨d, ⟨hd, _, hconcrete, hreaches⟩, _⟩ := classManifest?_eq_some_iff.mp hf
    exact ⟨d, hd, hconcrete, hreaches⟩
  · rintro ⟨d, hd, hconcrete, hreaches⟩
    have hkind := (mem_classes.mp hid).2
    rw [isKind, hd] at hkind
    exact ⟨_, classManifest?_eq_some_iff.mpr
      ⟨d, ⟨hd, beq_iff_eq.mp hkind, hconcrete, hreaches⟩, rfl⟩⟩

end Table

namespace Round

/-- What a round reports when its plans are made is not about outputs. -/
theorem outputReports_planned (t : Table) (id : DeclId) : (planned t).outputReports t id = [] := by
  have hviolations : HaveCodes ["E0201", "E0202", "E0203", "E0206"]
      (t.described.flatMap (·.violationReports)) :=
    haveCodes_flatMap fun i _ => haveCodes_violationReports i
  rw [outputReports, reports_planned, List.filter_append, List.filter_append,
    Diagnostic.isOutputReport_of_codes (haveCodes_misplacedMarkers t _ _) (by decide),
    Diagnostic.isOutputReport_of_codes hviolations (by decide),
    Diagnostic.isOutputReport_of_codes (haveCodes_collisionReports t _) (by decide)]
  rfl

namespace Accounts

variable {renderer : Renderer} {t : Table} {round : Round} {log : List OutputFile}
  {fates : List (Plan × PlanFate ManifestFate)} {classes : List (DeclId × ClassFate)}
  (h : Accounts renderer t round log fates classes) (hapart : t.NamesApart)
include h

theorem mem_plans {x : Plan × PlanFate ManifestFate} (hx : x ∈ fates) : x.1 ∈ t.plans :=
  h.plans ▸ List.mem_map_of_mem hx

theorem mem_classes {x : DeclId × ClassFate} (hx : x ∈ classes) : x.1 ∈ t.candidates.classes :=
  h.candidates ▸ List.mem_map_of_mem hx

/-- The reports about outputs, one pass after the other. -/
theorem outputReports_eq (id : DeclId) : round.outputReports t id =
    (fates.flatMap fun x => [t.reportAt x.1.decl (x.2.cause x.1)]).filter (·.isOutputReport t id) ++
      (fates.flatMap fun x => x.2.manifestReports t x.1).filter (·.isOutputReport t id) ++
      (classes.flatMap fun x => x.2.reports t x.1).filter (·.isOutputReport t id) := by
  rw [outputReports, h.reports, List.filter_append, List.filter_append, List.filter_append,
    ← List.map_eq_flatMap]
  have hplanned := outputReports_planned t id
  rw [outputReports] at hplanned
  rw [hplanned, List.nil_append]

include hapart

/-- What a round reports about the outputs of a plan is what the fate of the plan says. -/
theorem outputReports_plan {x : Plan × PlanFate ManifestFate} (hx : x ∈ fates) :
    round.outputReports t x.1.decl = x.2.reports t x.1 := by
  -- no two plans are for declarations of one name
  have hnodup : (fates.map fun y => t.nameOf y.1.decl).Nodup := by
    have hdecls : fates.map (fun y => y.1.decl) = t.remotes := by
      rw [← Table.decls_plans, ← h.plans, List.map_map]
      rfl
    have hnames : (t.remotes.map t.nameOf).Nodup :=
      hapart.nodup (Table.nodup_interfaces.filter _) fun id hid =>
        Table.lt_size_of_isKind (Table.mem_interfaces.mp (List.mem_filter.mp hid).1).2
    rw [← hdecls, List.map_map] at hnames
    exact hnames
  have hcauses := filter_isOutputReport_of_mem (PlanFate.isOutputReport_cause t) hnodup hx
  have hmanifests := filter_isOutputReport_of_mem (PlanFate.isOutputReport_manifest t) hnodup hx
  have hclasses := filter_isOutputReport_of_ne (ClassFate.isOutputReport t)
    fun y hy => (hapart.ne_class (h.mem_plans hx) (h.mem_classes hy)).symm
  rw [h.outputReports_eq, hcauses, hmanifests, hclasses, List.append_nil]
  rfl

/-- What a round reports about the outputs of a class is what the fate of the class says. -/
theorem outputReports_class {x : DeclId × ClassFate} (hx : x ∈ classes) :
    round.outputReports t x.1 = x.2.reports t x.1 := by
  have hnodup : (classes.map fun y => t.nameOf y.1).Nodup := by
    have hnames : (t.candidates.classes.map t.nameOf).Nodup :=
      hapart.nodup (Table.nodup_visited.filter _) fun id hid =>
        Table.lt_size_of_isKind (Table.mem_classes.mp hid).2
    rw [← h.candidates, List.map_map] at hnames
    exact hnames
  have hne : ∀ y ∈ fates, t.nameOf y.1.decl ≠ t.nameOf x.1 :=
    fun y hy => hapart.ne_class (h.mem_plans hy) (h.mem_classes hx)
  have hcauses := filter_isOutputReport_of_ne (PlanFate.isOutputReport_cause t) hne
  have hmanifests := filter_isOutputReport_of_ne (PlanFate.isOutputReport_manifest t) hne
  have hclasses := filter_isOutputReport_of_mem (ClassFate.isOutputReport t) hnodup hx
  rw [h.outputReports_eq, hcauses, hmanifests, hclasses, List.append_nil, List.nil_append]

end Accounts

end Round

/-- In memory, the outputs that the record says are added to those that are there. -/
theorem files_processRound_recording (renderer : Renderer) (t : Table) (last : Stage) (o : Outputs) :
    (processRound Outputs.filer.recording renderer t last (o, [])).2.1.files =
      o.files ++ (processRound Outputs.filer.recording renderer t last (o, [])).2.2 := by
  refine processRound_preserves
    (I := fun s : Outputs × List OutputFile => s.1.files = o.files ++ s.2) ?_ renderer t last
    (List.append_nil _).symm
  rintro kind path contents ⟨o', log⟩ hfiles
  rcases Outputs.filer_cases kind path contents o' with ⟨e, hrefused⟩ | ⟨_, hcreated⟩
  · unfold Filer.recording
    dsimp only
    rw [hrefused]
    exact hfiles
  · unfold Filer.recording
    dsimp only
    rw [hcreated]
    exact (congrArg (· ++ _) hfiles).trans (List.append_assoc _ _ _)

/-- Every plan and every class of a round has one fate, whatever the filer refuses.  The fates say
    in order what is created: the sources of the plans, then the manifests of those plans whose
    sources were all created, then the manifests of the candidate classes that are not abstract and
    from which one can climb to the actor marker.  They say what the round lists, among this exactly
    the created resources, and what it reports about its outputs: one report about the sources of
    each plan and one more if its manifest is refused, one report about each class whose manifest is
    refused, and nothing else. -/
theorem fates_of_round {σ : Type} (filer : Filer σ) (renderer : Renderer) (units : List SourceUnit)
    (s : σ) :
    let t := (Table.build units).1
    let round := processRound filer renderer t .register s
    let recorded := processRound filer.recording renderer t .register (s, [])
    recorded.1 = round.1 ∧ recorded.2.1 = round.2 ∧ round.1.plans = t.plans ∧
      (∃ fates classes, Round.Accounts renderer t round.1 recorded.2.2 fates classes ∧
        (∀ x ∈ fates, round.1.outputReports t x.1.decl = x.2.reports t x.1 ∧
          (round.1.outputReports t x.1.decl).map (·.cause.code?) = x.2.codes.map some) ∧
        ∀ x ∈ classes, round.1.outputReports t x.1 = x.2.reports t x.1 ∧
          (round.1.outputReports t x.1).map (·.cause.code?) = x.2.codes.map some ∧
          (x.2.isSome = true ↔
            ∃ d, t.get? x.1 = some d ∧ d.isAbstract = false ∧ t.Climbs x.1 Library.actor)) ∧
      ∀ o : Outputs, (processRound Outputs.filer renderer t .register o).2.files =
        o.files ++ (processRound Outputs.filer.recording renderer t .register (o, [])).2.2 := by
  dsimp only
  have hapart := Table.namesApart_build units
  generalize (Table.build units).1 = t at *
  obtain ⟨hmade, hstate⟩ := processRound_recording filer renderer t s
  obtain ⟨fates, classes, haccounts⟩ := exists_accounts filer renderer t s
  refine ⟨hmade, hstate, plans_processRound filer renderer t s (by decide),
    ⟨fates, classes, haccounts, fun x hx => ?_, fun x hx => ?_⟩, fun o => ?_⟩
  · have hreports := haccounts.outputReports_plan hapart hx
    exact ⟨hreports, by rw [hreports, x.2.codes_reports]⟩
  · have hreports := haccounts.outputReports_class hapart hx
    refine ⟨hreports, by rw [hreports, x.2.codes_reports], ?_⟩
    rw [← Table.isSome_classManifest?_iff (haccounts.mem_classes hx), ← haccounts.manifest x hx,
      Option.isSome_map]
  · rw [← (processRound_recording Outputs.filer renderer t o).2, files_processRound_recording]

/-- Two actor interfaces. -/
def rivalUnits : List SourceUnit :=
  unitsOfText none
    "interface I extends orbit.actors.Actor; interface J extends orbit.actors.Actor;"

/-- The second plan finds the path of its source taken, and gets no manifest. -/
example :
    let round := (processRound Outputs.filer (fun _ => .ok [⟨.implementation, "all.rs", ""⟩])
      (Table.build rivalUnits).1 .register (.empty [])).1
    round.generated = ["all.rs"] ∧ round.manifests = ["META-INF/orbit/actors/interfaces/I"] := by
  rw [rivalUnits, unitsOfText_eq none _ rfl]
  decide +kernel

end ActorIdl
