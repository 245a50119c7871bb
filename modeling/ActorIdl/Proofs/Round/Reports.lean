import ActorIdl.Declaration.Resolution
import ActorIdl.Proofs.Interface.Methods
import ActorIdl.Proofs.Round.Planning
/-! # Which codes are reported where

    Every part of the compiler reports under codes of its own.  `HaveCodes codes ds` says that all
    reports of a list have one of some codes; the lemmas give the codes of each part, from the
    table of declarations up to a whole round. -/

namespace ActorIdl

/-- Every report has one of the codes. -/
def HaveCodes (codes : List String) (ds : List Diagnostic) : Prop :=
  ∀ d ∈ ds, ∃ code ∈ codes, d.cause.code? = some code

section
variable {codes codes' : List String} {ds es : List Diagnostic}

theorem haveCodes_nil : HaveCodes codes [] := fun _ hd => absurd hd List.not_mem_nil

theorem haveCodes_append : HaveCodes codes (ds ++ es) ↔ HaveCodes codes ds ∧ HaveCodes codes es :=
  List.forall_mem_append

theorem haveCodes_cons {d : Diagnostic} : HaveCodes codes (d :: ds) ↔
    (∃ code ∈ codes, d.cause.code? = some code) ∧ HaveCodes codes ds :=
  List.forall_mem_cons

theorem HaveCodes.mono (h : HaveCodes codes ds) (hsub : codes ⊆ codes') : HaveCodes codes' ds := by
  intro d hd
  obtain ⟨code, hcode, heq⟩ := h d hd
  exact ⟨code, hsub hcode, heq⟩

theorem HaveCodes.filter (h : HaveCodes codes ds) (p : Diagnostic → Bool) :
    HaveCodes codes (ds.filter p) := fun d hd => h d (List.mem_filter.mp hd).1

theorem haveCodes_flatMap {α : Type} {xs : List α} {f : α → List Diagnostic}
    (h : ∀ x ∈ xs, HaveCodes codes (f x)) : HaveCodes codes (xs.flatMap f) := by
  intro d hd
  obtain ⟨x, hx, hd⟩ := List.mem_flatMap.mp hd
  exact h x hx d hd

theorem HaveCodes.ne (h : HaveCodes codes ds) {code : String} (hcode : code ∉ codes) :
    ∀ d ∈ ds, d.cause.code? ≠ some code := by
  intro d hd heq
  obtain ⟨code', hmem, heq'⟩ := h d hd
  rw [heq] at heq'
  exact hcode (Option.some.inj heq' ▸ hmem)

end

/-! ## The table -/

theorem haveCodes_surplus (qualifiedName : String) (head : Syntax.DeclHead) (u : SourceUnit) :
    HaveCodes ["E0102", "E0103"] ((surplusSupertype? qualifiedName head).toList.map
      fun (cause, type) => ⟨cause, some ⟨u.file, type.span⟩, some qualifiedName⟩) := by
  intro d hd
  obtain ⟨⟨cause, type⟩, hsurplus, rfl⟩ := List.mem_map.mp hd
  rw [Option.mem_toList] at hsurplus
  unfold surplusSupertype? at hsurplus
  split at hsurplus
  all_goals
    obtain ⟨t, _, heq⟩ := Option.map_eq_some_iff.mp hsurplus
    cases heq
    exact ⟨"E0103", by simp, rfl⟩

mutual

theorem haveCodes_enterMember (u : SourceUnit) (outers : List Outer) (r : Register)
    (m : Syntax.Member) : HaveCodes ["E0102", "E0103"] (enterMember u outers r m).reports :=
  match m with
  | .method _ => haveCodes_nil
  | .nested head members => by
    rw [enterMember]
    dsimp only
    split
    · exact haveCodes_cons.mpr ⟨⟨"E0102", by simp, rfl⟩, haveCodes_nil⟩
    · exact haveCodes_append.mpr ⟨haveCodes_surplus _ head u,
        haveCodes_enterMembers u _ _ members⟩

theorem haveCodes_enterMembers (u : SourceUnit) (outers : List Outer) (r : Register)
    (ms : List Syntax.Member) :
    HaveCodes ["E0102", "E0103"] (enterMembers u outers r ms).reports :=
  match ms with
  | [] => haveCodes_nil
  | m :: ms => by
    rw [enterMembers]
    exact haveCodes_append.mpr ⟨haveCodes_enterMember u outers r m,
      haveCodes_enterMembers u outers _ ms⟩

end

theorem haveCodes_build (units : List SourceUnit) :
    HaveCodes ["E0102", "E0103"] (Table.build units).2 := by
  have hunits : ∀ r, HaveCodes ["E0102", "E0103"] (enterUnits r units).reports := by
    induction units with
    | nil => exact fun _ => haveCodes_nil
    | cons u us ih =>
      exact fun r => haveCodes_append.mpr ⟨haveCodes_enterMembers u [] r _, ih _⟩
  exact hunits .start

/-! ## The stages that write nothing -/

/-- A misplaced marker is reported at the declaration that bears it, or at the method. -/
theorem exists_of_mem_misplacedMarkers {t : Table} {candidates : Candidates} {actors : List DeclId}
    {d : Diagnostic} (hd : d ∈ t.misplacedMarkers candidates actors) :
    ∃ marker id, d = t.reportAt id (.misplacedMarker marker) ∨ ∃ m ∈ t.methodsOf id,
      d = ⟨.misplacedMarker marker, some m.location, some (t.nameOf id ++ "#" ++ m.name)⟩ := by
  obtain ⟨id, -, hd⟩ := List.mem_flatMap.mp hd
  rcases List.mem_append.mp hd with hd | hd
  · -- on the declaration itself, unless it is an actor interface
    split at hd
    · cases hd
    · obtain ⟨marker, -, hd⟩ := List.mem_filterMap.mp hd
      split at hd
      · cases hd
        exact ⟨marker, id, .inl rfl⟩
      · cases hd
  · -- on one of its methods
    obtain ⟨m, hm, hd⟩ := List.mem_flatMap.mp hd
    obtain ⟨marker, -, hd⟩ := List.mem_filterMap.mp hd
    split at hd
    · cases hd
      exact ⟨marker, id, .inr ⟨m, hm, rfl⟩⟩
    · cases hd

theorem haveCodes_misplacedMarkers (t : Table) (candidates : Candidates) (actors : List DeclId) :
    HaveCodes ["E0204", "E0205"] (t.misplacedMarkers candidates actors) := by
  have hmarker : ∀ marker, ∃ code ∈ ["E0204", "E0205"],
      (Cause.misplacedMarker marker).code? = some code := by
    intro marker
    cases marker with
    | statelessWorker => exact ⟨"E0204", by simp, rfl⟩
    | noIdentity => exact ⟨"E0205", by simp, rfl⟩
  intro d hd
  obtain ⟨marker, id, rfl | ⟨m, -, rfl⟩⟩ := exists_of_mem_misplacedMarkers hd
  · exact hmarker marker
  · exact hmarker marker

theorem haveCodes_violationReports (i : InterfaceDescriptor) :
    HaveCodes ["E0201", "E0202", "E0203", "E0206"] i.violationReports := by
  intro d hd
  obtain ⟨m, _, hd⟩ := List.mem_filterMap.mp hd
  obtain ⟨cause, hcause, rfl⟩ := Option.map_eq_some_iff.mp hd
  rcases MethodDescriptor.violation?_cases hcause with rfl | rfl | rfl | ⟨name, rfl⟩
  · exact ⟨"E0201", by simp, rfl⟩
  · exact ⟨"E0202", by simp, rfl⟩
  · exact ⟨"E0203", by simp, rfl⟩
  · exact ⟨"E0206", by simp, rfl⟩

theorem haveCodes_collisionReports (t : Table) (is : List InterfaceDescriptor) :
    HaveCodes ["E0301", "E0302"] (collisionReports t is) := by
  refine haveCodes_append.mpr ⟨haveCodes_flatMap fun i _ => haveCodes_flatMap fun id _ => ?_,
    haveCodes_flatMap fun id _ => ?_⟩
  · intro d hd
    obtain ⟨⟨first, second⟩, _, rfl⟩ := List.mem_map.mp hd
    exact ⟨"E0301", by simp, rfl⟩
  · intro d hd
    obtain ⟨⟨first, second⟩, _, rfl⟩ := List.mem_map.mp hd
    exact ⟨"E0302", by simp, rfl⟩

/-! ## The stages that write -/

namespace Round

variable {σ : Type} (filer : Filer σ) (t : Table)

theorem haveCodes_writePlans (renderer : Renderer) (ps : List Plan) (s : σ) :
    HaveCodes ["I0001", "E0401", "E0402"] (writePlans filer renderer t ps s).1.2 := by
  induction ps generalizing s with
  | nil => exact haveCodes_nil
  | cons p ps ih =>
    -- a plan that is not written fails in the renderer or in the filer
    have hcause : ∀ cause, (writePlan filer renderer p s).1 = .error cause →
        ∃ code ∈ ["I0001", "E0401", "E0402"], cause.code? = some code := by
      intro cause h
      rcases cause_of_writePlan h with ⟨e, rfl⟩ | ⟨e, rfl⟩
      · exact ⟨"E0402", by simp, rfl⟩
      · exact ⟨"E0401", by simp, rfl⟩
    unfold writePlans
    dsimp only
    split
    · exact haveCodes_cons.mpr ⟨⟨"I0001", by simp, rfl⟩, ih _⟩
    · rename_i cause houtcome
      exact haveCodes_cons.mpr ⟨hcause cause houtcome, ih _⟩

theorem haveCodes_registerInterfaces (ps : List Plan) (s : σ) :
    HaveCodes ["E0401"] (registerInterfaces filer t ps s).1.2 := by
  induction ps generalizing s with
  | nil => exact haveCodes_nil
  | cons p ps ih =>
    unfold registerInterfaces
    dsimp only
    split
    · exact ih _
    · rename_i d houtcome
      obtain ⟨e, rfl⟩ := Manifest.reportAt_of_registerInterface houtcome
      exact haveCodes_cons.mpr ⟨⟨"E0401", by simp, rfl⟩, ih _⟩

theorem haveCodes_registerClasses (ids : List DeclId) (s : σ) :
    HaveCodes ["E0401"] (registerClasses filer t ids s).1.2 := by
  induction ids generalizing s with
  | nil => exact haveCodes_nil
  | cons id ids ih =>
    unfold registerClasses
    dsimp only
    split
    · exact ih _
    · exact ih _
    · rename_i d houtcome
      obtain ⟨e, rfl⟩ := Manifest.reportAt_of_registerClass houtcome
      exact haveCodes_cons.mpr ⟨⟨"E0401", by simp, rfl⟩, ih _⟩

end Round

/-! ## A whole round -/

/-- The codes under which a round can report. -/
def roundCodes : List String :=
  ["E0201", "E0202", "E0203", "E0204", "E0205", "E0206", "E0301", "E0302", "E0401", "E0402",
    "I0001"]

theorem haveCodes_runPure (t : Table) {r : Round} (stage : Stage) (h : HaveCodes roundCodes r.reports) :
    HaveCodes roundCodes (Round.runPure t r stage).reports := by
  cases stage with
  | validate =>
    have hmarkers := (haveCodes_misplacedMarkers t r.candidates r.actors).mono
      (show _ ⊆ roundCodes by decide)
    have hviolations : HaveCodes roundCodes (r.descriptors.flatMap (·.violationReports)) :=
      haveCodes_flatMap fun i _ => (haveCodes_violationReports i).mono (by decide)
    exact haveCodes_append.mpr ⟨haveCodes_append.mpr ⟨h, hmarkers⟩, hviolations⟩
  | assignIds =>
    exact haveCodes_append.mpr ⟨h, (haveCodes_collisionReports t _).mono (by decide)⟩
  | _ => exact h

theorem haveCodes_run {σ : Type} (filer : Filer σ) (renderer : Renderer) (t : Table)
    {r : Round} (stage : Stage) (s : σ) (h : HaveCodes roundCodes r.reports) :
    HaveCodes roundCodes (Round.run filer renderer t stage r s).1.reports := by
  cases stage with
  | render =>
    have hplans := (Round.haveCodes_writePlans filer t renderer r.plans s).mono
      (show _ ⊆ roundCodes by decide)
    exact haveCodes_append.mpr ⟨h, hplans⟩
  | register =>
    have hinterfaces := Round.haveCodes_registerInterfaces filer t (r.written.map (·.1)) s
    have hclasses := Round.haveCodes_registerClasses filer t r.candidates.classes
      (Round.registerInterfaces filer t (r.written.map (·.1)) s).2
    exact haveCodes_append.mpr ⟨haveCodes_append.mpr ⟨h, hinterfaces.mono (by decide)⟩,
      hclasses.mono (by decide)⟩
  | _ => exact haveCodes_runPure t _ h

/-- The reports of a round have the codes of its stages. -/
theorem haveCodes_processRound {σ : Type} (filer : Filer σ) (renderer : Renderer) (t : Table)
    (last : Stage) (s : σ) :
    HaveCodes roundCodes (processRound filer renderer t last s).1.reports :=
  @Round.runAll_keeps _ filer renderer t (fun r _ => HaveCodes roundCodes r.reports)
    (fun stage _ s h => haveCodes_run filer renderer t stage s h) _ _ _ haveCodes_nil

end ActorIdl
