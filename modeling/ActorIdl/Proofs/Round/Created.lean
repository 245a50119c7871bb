import ActorIdl.Proofs.Declaration.Resolution
import ActorIdl.Proofs.Round.Fates
import Mathlib.Data.List.Flatten
/-! # What a round lists and what it has created

    A round lists the sources of the plans that count as written.  The sources of a plan are created
    one after the other, and the first one that is refused ends them: the plan does not count as
    written, but the sources before that one stay.  So the round lists, in the order of their
    creation, exactly the sources of those plans that got all of theirs, and what is missing from
    the list belongs to plans about which there is an error report. -/

namespace ActorIdl

/-- The units that a plan is rendered to; none if it cannot be rendered. -/
def Plan.units (renderer : Renderer) (p : Plan) : List RenderedUnit :=
  match renderer p with
  | .ok units => units
  | .error _ => []

/-- Whether units are all that a plan is rendered to. -/
def Renderer.completes (renderer : Renderer) (w : Plan × List RenderedUnit) : Bool :=
  match renderer w.1 with
  | .ok units => w.2 == units
  | .error _ => false

theorem Renderer.completes_iff {renderer : Renderer} {p : Plan} {created : List RenderedUnit} :
    renderer.completes (p, created) = true ↔ renderer p = .ok created := by
  unfold completes
  dsimp only
  cases renderer p with
  | error e =>
    constructor
    · exact fun h => absurd h Bool.false_ne_true
    · intro h
      cases h
  | ok units => rw [beq_iff_eq, Except.ok.injEq, eq_comm]

/-- The codes of the reports about plans that are not written. -/
def Cause.EndsPlan (cause : Cause) : Prop :=
  cause.code? = some "E0401" ∨ cause.code? = some "E0402"

/-! ## Fates and units -/

namespace PlanFate.Fits

variable {μ : Type} {renderer : Renderer} {p : Plan} {fate : PlanFate μ}
  (h : fate.Fits renderer p)
include h

/-- The units that are created are the first ones of the plan. -/
theorem begun : fate.created <+: p.units renderer := by
  unfold Plan.units
  cases fate with
  | unrendered e => exact List.nil_prefix
  | refused created e =>
    obtain ⟨u, rest, hrender⟩ := h
    rw [hrender]
    exact List.prefix_append _ _
  | written units m =>
    rw [show renderer p = _ from h]
    exact List.prefix_rfl

/-- A plan has all its units if its sources were written. -/
theorem completes : renderer.completes (p, fate.created) = fate.manifest?.isSome := by
  rw [Bool.eq_iff_iff, Renderer.completes_iff]
  cases fate with
  | unrendered e =>
    rw [show renderer p = _ from h]
    exact iff_of_false (fun heq => by cases heq) Bool.false_ne_true
  | refused created e =>
    obtain ⟨u, rest, hrender⟩ := h
    have hmore : created ++ u :: rest ≠ created := by simp
    rw [hrender, Except.ok.injEq]
    exact iff_of_false hmore Bool.false_ne_true
  | written units m => exact iff_of_true h rfl

/-- What counts as written are the plans that have all their units. -/
theorem written?_eq_guard :
    Round.written? (p, fate.outcome) = Option.guard renderer.completes (p, fate.created) := by
  rw [Option.guard, h.completes]
  cases fate <;> rfl

theorem endsPlan (hpart : renderer.completes (p, fate.created) = false) :
    (fate.cause p).EndsPlan := by
  rw [h.completes] at hpart
  cases fate with
  | unrendered e => exact .inr rfl
  | refused created e => exact .inl rfl
  | written units m => cases hpart

end PlanFate.Fits

namespace Round

/-- How far a round gets with its plans.  Every plan has those of its units that were created; a
    plan that has all of them is written, and about any other one there is an error report. -/
structure Progress (renderer : Renderer) (t : Table) (ps : List Plan)
    (written : List (Plan × List RenderedUnit)) (reports : List Diagnostic)
    (created : List OutputFile) (progress : List (Plan × List RenderedUnit)) : Prop where
  plans : progress.map (·.1) = ps
  begun : ∀ w ∈ progress, w.2 <+: w.1.units renderer
  created : created = (progress.flatMap (·.2)).map (·.file)
  written : written = progress.filter renderer.completes
  reported : ∀ w ∈ progress, renderer.completes w = false →
    ∃ cause : Cause, cause.EndsPlan ∧ t.reportAt w.1.decl cause ∈ reports

/-- The fates of the plans say how far the round gets with them. -/
theorem Accounts.progress {renderer : Renderer} {t : Table} {round : Round}
    {log : List OutputFile} {fates : List (Plan × PlanFate ManifestFate)}
    {classes : List (DeclId × ClassFate)} (h : Accounts renderer t round log fates classes) :
    Progress renderer t t.plans round.written round.reports (log.filter (·.kind == .source))
      (fates.map fun x => (x.1, x.2.created)) where
  plans := by
    rw [List.map_map]
    exact h.plans
  begun := by
    intro w hw
    obtain ⟨x, hx, rfl⟩ := List.mem_map.mp hw
    exact (h.fits x hx).begun
  created := by
    rw [h.created, List.filter_append, List.filter_append,
      filter_kind (fun f => kind_of_mem_sources), filter_kind (fun f => kind_of_mem_manifests),
      filter_kind (fun f => kind_of_mem_classManifests h.manifest), if_pos rfl,
      if_neg (by decide), if_neg (by decide), List.append_nil, List.append_nil, List.flatMap_map,
      List.map_flatMap]
  written := by
    rw [h.written, ← List.filterMap_eq_filter, List.filterMap_map]
    exact List.filterMap_congr fun x hx => (h.fits x hx).written?_eq_guard
  reported := by
    intro w hw hpart
    obtain ⟨x, hx, rfl⟩ := List.mem_map.mp hw
    refine ⟨x.2.cause x.1, (h.fits x hx).endsPlan hpart, ?_⟩
    rw [h.reports]
    exact List.mem_append_left _ (List.mem_append_left _ (List.mem_append_right _
      (List.mem_map_of_mem hx)))

end Round

/-! ## A whole round -/

section
variable {σ : Type} (filer : Filer σ) (renderer : Renderer) (t : Table) (s : σ)

theorem progress_processRound : ∃ progress,
    Round.Progress renderer t t.plans (processRound filer renderer t .register s).1.written
      (processRound filer renderer t .register s).1.reports
      ((processRound filer.recording renderer t .register (s, [])).2.2.filter (·.kind == .source))
      progress := by
  obtain ⟨fates, classes, h⟩ := exists_accounts filer renderer t s
  generalize (processRound filer.recording renderer t .register (s, [])).2.2 = log at *
  generalize (processRound filer renderer t .register s).1 = round at *
  exact ⟨_, h.progress⟩

/-- A filer that creates nothing twice creates no source of a round twice. -/
theorem nodup_created {Has : σ → OutputKind × String → Prop} (h : filer.CreatesOnce Has) :
    (((processRound filer.recording renderer t .register (s, [])).2.2.filter
      (·.kind == .source)).map (·.path)).Nodup := by
  have hstart : Filer.RecordsOnce Has (s, []) :=
    ⟨List.nodup_nil, fun f hf => absurd hf List.not_mem_nil⟩
  obtain ⟨hnodup, _⟩ := processRound_preserves
    (fun kind path contents s hs => h.recordsOnce ⟨kind, path, contents⟩ s hs) renderer t .register
    hstart
  generalize (processRound filer.recording renderer t .register (s, [])).2.2 = log at *
  -- among sources the paths alone tell outputs apart
  have hkeys : (log.filter (·.kind == .source)).map (·.key) =
      ((log.filter (·.kind == .source)).map (·.path)).map fun path => (.source, path) := by
    rw [List.map_map]
    apply List.map_congr_left
    intro f hf
    have hkind : f.kind = .source := beq_iff_eq.mp (List.mem_filter.mp hf).2
    rw [OutputFile.key, hkind]
    rfl
  apply List.Nodup.of_map fun path => (OutputKind.source, path)
  rw [← hkeys]
  exact (List.filter_sublist.map _).nodup hnodup

end

/-- To leave elements out changes nothing if they contribute nothing. -/
theorem flatMap_filter_eq_iff {α β : Type} (keep : α → Bool) (f : α → List β) (xs : List α) :
    (xs.filter keep).flatMap f = xs.flatMap f ↔ ∀ x ∈ xs, keep x = false → f x = [] := by
  induction xs with
  | nil => exact iff_of_true rfl fun x hx => absurd hx List.not_mem_nil
  | cons x xs ih =>
    rw [List.forall_mem_cons, List.flatMap_cons]
    cases hx : keep x with
    | true =>
      rw [List.filter_cons_of_pos hx, List.flatMap_cons, List.append_cancel_left_eq, ih]
      exact ⟨fun h => ⟨fun hfalse => absurd hfalse.symm Bool.false_ne_true, h⟩, fun h => h.2⟩
    | false =>
      rw [List.filter_cons_of_neg (Bool.eq_false_iff.mp hx), ← ih]
      constructor
      · intro h
        -- what is left is no longer than what follows
        have hle := (List.Sublist.flatMap (List.filter_sublist : (xs.filter keep).Sublist xs)
          f).length_le
        have hlength := congrArg List.length h
        rw [List.length_append] at hlength
        have hnil : f x = [] := List.eq_nil_of_length_eq_zero (by omega)
        exact ⟨fun _ => hnil, by rw [h, hnil, List.nil_append]⟩
      · rintro ⟨hnil, hrest⟩
        rw [hnil rfl, hrest, List.nil_append]

/-- The created sources of a round are those of its plans, one plan after the other, and of each
    plan the first units up to one that is refused.  The round lists the sources and the stubs of
    the plans that got all their units, and reports an error about every other plan.  So nothing is
    listed that was not created; the list is complete exactly if the plans that were given up left
    no source behind, and a filer that creates nothing twice has each source of the list once. -/
theorem created_of_round {σ : Type} (filer : Filer σ) (renderer : Renderer) (t : Table) (s : σ) :
    let round := processRound filer renderer t .register s
    let recorded := processRound filer.recording renderer t .register (s, [])
    let created := recorded.2.2.filter (·.kind == .source)
    recorded.1 = round.1 ∧ recorded.2.1 = round.2 ∧
      ∃ progress : List (Plan × List RenderedUnit),
        Round.Progress renderer t t.plans round.1.written round.1.reports created progress ∧
          round.1.generated =
            ((progress.filter renderer.completes).flatMap (·.2)).map (·.path) ∧
          round.1.stubs = ((progress.filter renderer.completes).flatMap (·.2)).filter
            (·.kind == .declarationStub) ∧
          round.1.generated.Sublist (created.map (·.path)) ∧
          (round.1.generated = created.map (·.path) ↔
            ∀ w ∈ progress, renderer.completes w = false → w.2 = []) ∧
          (round.1.stubs = (progress.flatMap (·.2)).filter (·.kind == .declarationStub) ↔
            ∀ w ∈ progress, renderer.completes w = false →
              w.2.filter (·.kind == .declarationStub) = []) ∧
          ∀ Has, filer.CreatesOnce Has →
            (created.map (·.path)).Nodup ∧ round.1.generated.Nodup := by
  dsimp only
  obtain ⟨hmade, hstate⟩ := processRound_recording filer renderer t s
  obtain ⟨progress, hprogress⟩ := progress_processRound filer renderer t s
  have hnodup := fun Has h => @nodup_created σ filer renderer t s Has h
  generalize processRound filer.recording renderer t .register (s, []) = recorded at *
  generalize processRound filer renderer t .register s = round at *
  have hgenerated : round.1.generated =
      (progress.filter renderer.completes).flatMap fun w => w.2.map (·.path) := by
    rw [← hprogress.written, ← List.map_flatMap]
    rfl
  have hstubs : round.1.stubs = (progress.filter renderer.completes).flatMap
      fun w => w.2.filter (·.kind == .declarationStub) := by
    rw [← hprogress.written, ← List.filter_flatMap]
    rfl
  have hcreated : (recorded.2.2.filter (·.kind == .source)).map (·.path) =
      progress.flatMap fun w => w.2.map (·.path) := by
    rw [hprogress.created, List.map_map, ← List.map_flatMap]
    rfl
  have hlisted : round.1.generated.Sublist
      ((recorded.2.2.filter (·.kind == .source)).map (·.path)) := by
    rw [hgenerated, hcreated]
    exact List.filter_sublist.flatMap _
  refine ⟨hmade, hstate, progress, hprogress, ?_, ?_, hlisted, ?_, ?_,
    fun Has h => ⟨hnodup Has h, hlisted.nodup (hnodup Has h)⟩⟩
  · rw [hgenerated, List.map_flatMap]
  · rw [hstubs, List.filter_flatMap]
  · rw [hgenerated, hcreated, flatMap_filter_eq_iff]
    simp only [List.map_eq_nil_iff]
  · rw [hstubs, List.filter_flatMap, flatMap_filter_eq_iff]

/-- A renderer that puts a stub before the implementation. -/
def stubFirst : Renderer := fun p =>
  .ok [⟨.declarationStub, p.simpleName ++ ".orbit", ""⟩, ⟨.implementation, p.simpleName ++ ".rs", ""⟩]

/-- One actor interface. -/
def lonelyUnits : List SourceUnit := unitsOfText none "interface I extends orbit.actors.Actor;"

theorem created_of_round_stubFirst :
    (((processRound Outputs.filer.recording stubFirst (Table.build lonelyUnits).1 .register
        (.empty ["I.rs"], [])).2.2.filter (·.kind == .source)).map (·.path)).Nodup ∧
      (processRound Outputs.filer stubFirst (Table.build lonelyUnits).1 .register
        (.empty ["I.rs"])).1.generated.Nodup := by
  obtain ⟨_, _, _, _, _, _, _, _, _, hnodup⟩ :=
    created_of_round Outputs.filer stubFirst (Table.build lonelyUnits).1 (.empty ["I.rs"])
  exact hnodup _ Outputs.createsOnce

/-- The implementation is refused.  The stub is there then, but it is listed neither among the
    sources nor among the stubs. -/
theorem generated_of_refused :
    let round := processRound Outputs.filer stubFirst (Table.build lonelyUnits).1 .register
      (.empty ["I.rs"])
    round.2.files = [⟨.source, "I.orbit", ""⟩] ∧ round.1.generated = [] ∧ round.1.stubs = [] := by
  rw [lonelyUnits, unitsOfText_eq none _ rfl]
  decide +kernel

end ActorIdl
