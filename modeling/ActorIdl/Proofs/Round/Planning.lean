import ActorIdl.Round
/-! # What the stages of a round make

    The stages up to the plans write nothing, so what they make is a function of the table alone.
    The functions here say which: the remote interfaces among the candidates, their descriptors and
    their plans.  Every round that gets as far as its plans makes exactly these. -/

namespace ActorIdl

namespace Table

/-- The candidate interfaces that are actor or observer interfaces. -/
def remotes (t : Table) : List DeclId := t.candidates.interfaces.filter (t.role · != .neither)

/-- The descriptors of the remote interfaces, with all their effective methods. -/
def described (t : Table) : List InterfaceDescriptor :=
  t.remotes.filterMap fun id => t.describe id (t.role id == .actor)

/-- The descriptors that are left when invalid and colliding methods are gone. -/
def descriptors (t : Table) : List InterfaceDescriptor :=
  t.described.map fun i => i.keepValid.assignIds.dropCollisions

/-- The plans of the remote interfaces. -/
def plans (t : Table) : List Plan := t.descriptors.map .ofDescriptor

end Table

namespace Round

/-- A round with its plans made and nothing written. -/
def planned (t : Table) : Round := (Stage.required .plan).foldl (runPure t) .start

section
variable {σ : Type} (filer : Filer σ) (renderer : Renderer) (t : Table)

theorem runAll_append (xs ys : List Stage) (r : Round) (s : σ) :
    runAll filer renderer t (xs ++ ys) r s =
      runAll filer renderer t ys (runAll filer renderer t xs r s).1
        (runAll filer renderer t xs r s).2 := by
  induction xs generalizing r s with
  | nil => rfl
  | cons x xs ih => exact ih _ _

/-- What every stage keeps a run of stages keeps. -/
theorem runAll_keeps {I : Round → σ → Prop} (hI : ∀ stage r s, I r s →
    I (run filer renderer t stage r s).1 (run filer renderer t stage r s).2) (stages : List Stage)
    {r : Round} {s : σ} (h : I r s) :
    I (runAll filer renderer t stages r s).1 (runAll filer renderer t stages r s).2 := by
  induction stages generalizing r s with
  | nil => exact h
  | cons stage stages ih => exact ih (hI stage r s h)

/-- Stages that write nothing leave the state of the filer alone. -/
theorem runAll_of_pure (stages : List Stage) (h : .render ∉ stages ∧ .register ∉ stages)
    (r : Round) (s : σ) :
    runAll filer renderer t stages r s = (stages.foldl (runPure t) r, s) := by
  induction stages generalizing r with
  | nil => rfl
  | cons x xs ih =>
    have hxs : .render ∉ xs ∧ .register ∉ xs :=
      ⟨fun hx => h.1 (List.mem_cons_of_mem _ hx), fun hx => h.2 (List.mem_cons_of_mem _ hx)⟩
    have hrun : run filer renderer t x r s = (runPure t r x, s) := by
      cases x with
      | render => exact absurd List.mem_cons_self h.1
      | register => exact absurd List.mem_cons_self h.2
      | _ => rfl
    rw [runAll, hrun]
    exact ih hxs _

end

/-! ## The stages that write -/

section
variable {σ : Type} (filer : Filer σ) (renderer : Renderer) (t : Table) (r : Round) (s : σ)

theorem run_render : run filer renderer t .render r s =
    ({ r with
        written := (writePlans filer renderer t r.plans s).1.1
        reports := r.reports ++ (writePlans filer renderer t r.plans s).1.2 },
      (writePlans filer renderer t r.plans s).2) := rfl

theorem run_register : run filer renderer t .register r s =
    let interfaces := registerInterfaces filer t (r.written.map (·.1)) s
    let classes := registerClasses filer t r.candidates.classes interfaces.2
    ({ r with
        manifests := interfaces.1.1 ++ classes.1.1
        reports := r.reports ++ interfaces.1.2 ++ classes.1.2 },
      classes.2) := rfl

end

/-! ## What has been planned -/

/-- Filtering pairs of an interface and its role is filtering the interfaces. -/
theorem described_planned (t : Table) :
    ((t.candidates.interfaces.map fun id => (id, t.role id)).filter
      (·.2 != .neither)).filterMap (fun r => t.describe r.1 (r.2 == .actor)) = t.described := by
  rw [List.filter_map, List.filterMap_map]
  rfl

theorem descriptors_planned (t : Table) : (planned t).descriptors = t.descriptors := by
  calc (planned t).descriptors
      = ((t.described.map (·.keepValid)).map (·.assignIds)).map (·.dropCollisions) := by
        rw [← described_planned]
        rfl
    _ = t.descriptors := by
        rw [List.map_map, List.map_map]
        rfl

/-- What is reported on the way to the plans: misplaced markers, methods that break the contract,
    and identifiers that are shared. -/
theorem reports_planned (t : Table) : (planned t).reports =
    t.misplacedMarkers t.candidates (planned t).actors ++
      t.described.flatMap (·.violationReports) ++
      collisionReports t (t.described.map fun i => i.keepValid.assignIds) := by
  rw [← described_planned]
  show _ ++ collisionReports t ((List.map _ _).map _) = _
  rw [List.map_map]
  rfl

theorem plans_planned (t : Table) : (planned t).plans = t.plans := by
  rw [Table.plans, ← descriptors_planned]
  rfl

end Round

/-! ## Rounds by their last stage -/

section
variable {σ : Type} (filer : Filer σ) (renderer : Renderer) (t : Table) (s : σ)

theorem processRound_plan : processRound filer renderer t .plan s = (.planned t, s) :=
  Round.runAll_of_pure filer renderer t _ (by decide) _ s

theorem processRound_render :
    processRound filer renderer t .render s = Round.run filer renderer t .render (.planned t) s := by
  have hstages : Stage.required .render = Stage.required .plan ++ [.render] := by decide
  rw [processRound, hstages, Round.runAll_append, ← processRound, processRound_plan]
  rfl

theorem processRound_register :
    processRound filer renderer t .register s =
      Round.run filer renderer t .register (processRound filer renderer t .render s).1
        (processRound filer renderer t .render s).2 := by
  have hstages : Stage.required .register = Stage.required .render ++ [.register] := by decide
  rw [processRound, hstages, Round.runAll_append, ← processRound]
  rfl

/-- A whole round: the sources of the plans, the manifests of those that were written, and the
    manifests of actor classes. -/
theorem processRound_eq :
    processRound filer renderer t .register s =
      let sources := Round.writePlans filer renderer t t.plans s
      let interfaces := Round.registerInterfaces filer t (sources.1.1.map (·.1)) sources.2
      let classes := Round.registerClasses filer t t.candidates.classes interfaces.2
      ({ Round.planned t with
          written := sources.1.1
          manifests := interfaces.1.1 ++ classes.1.1
          reports := (Round.planned t).reports ++ sources.1.2 ++ interfaces.1.2 ++ classes.1.2 },
        classes.2) := by
  rw [processRound_register, processRound_render, Round.run_render, Round.run_register,
    ← Round.plans_planned]
  rfl

/-- The plans of which all sources could be written, with these sources. -/
theorem written_processRound : (processRound filer renderer t .register s).1.written =
    (Round.writePlans filer renderer t t.plans s).1.1 := by
  rw [processRound_eq]

/-- Rendering and registering leave the plans alone. -/
theorem plans_processRound {last : Stage} (hlast : .plan ∈ last.required) :
    (processRound filer renderer t last s).1.plans = t.plans := by
  cases last with
  | plan => rw [processRound_plan, Round.plans_planned]
  | render =>
    rw [processRound_render, Round.run_render]
    exact Round.plans_planned t
  | register =>
    rw [processRound_eq]
    exact Round.plans_planned t
  | _ => exact absurd hlast (by decide)

/-- A round that ends before its plans has none. -/
theorem mem_plans_of_processRound {last : Stage} {p : Plan}
    (hp : p ∈ (processRound filer renderer t last s).1.plans) : p ∈ t.plans := by
  by_cases hlast : .plan ∈ last.required
  · rwa [plans_processRound filer renderer t s hlast] at hp
  · have hpure : .render ∉ last.required ∧ .register ∉ last.required := by
      cases last with
      | plan | render | register => exact absurd (by decide) hlast
      | _ => decide
    rw [processRound, Round.runAll_of_pure filer renderer t _ hpure] at hp
    cases last with
    | plan | render | register => exact absurd (by decide) hlast
    | _ => cases hp

end

/-! ## How writing ends -/

section
variable {σ : Type} {filer : Filer σ} {renderer : Renderer} {t : Table} {s : σ}

theorem Round.renderer_of_writePlan {p : Plan} {units : List RenderedUnit}
    (h : (writePlan filer renderer p s).1 = .ok units) : renderer p = .ok units := by
  unfold writePlan at h
  split at h
  · cases h
  · rename_i hrender
    split at h
    · cases h
    · cases h
      exact hrender

/-- A plan that is not written could not be rendered, or one of its sources was refused. -/
theorem Round.cause_of_writePlan {p : Plan} {cause : Cause}
    (h : (writePlan filer renderer p s).1 = .error cause) :
    (∃ e, cause = .notRendered e) ∨ ∃ e, cause = .sourceNotWritten e := by
  unfold writePlan at h
  split at h
  · rename_i e _
    cases h
    exact .inl ⟨e, rfl⟩
  · split at h
    · rename_i e _ _
      cases h
      exact .inr ⟨e, rfl⟩
    · cases h

/-- A resource that is refused is reported at its declaration. -/
theorem Manifest.reportAt_of_write {id : DeclId} {path contents : String} {d : Diagnostic}
    (h : (write filer t id path contents s).1 = .error d) :
    ∃ e, d = t.reportAt id (.manifestNotWritten e) := by
  unfold write at h
  split at h
  · cases h
  · rename_i e _ _
    cases h
    exact ⟨e, rfl⟩

theorem Manifest.reportAt_of_registerInterface {p : Plan} {d : Diagnostic}
    (h : (registerInterface filer t p s).1 = .error d) :
    ∃ e, d = t.reportAt p.decl (.manifestNotWritten e) := reportAt_of_write h

theorem Manifest.reportAt_of_registerClass {id : DeclId} {d : Diagnostic}
    (h : (registerClass filer t id s).1 = some (.error d)) :
    ∃ e, d = t.reportAt id (.manifestNotWritten e) := by
  unfold registerClass at h
  split at h
  · cases h
  · split at h
    · exact reportAt_of_write (Option.some.inj h)
    · cases h

/-- What counts as written is a plan with what it was rendered to. -/
theorem Round.mem_of_mem_writePlans {ps : List Plan} {w : Plan × List RenderedUnit}
    (h : w ∈ (writePlans filer renderer t ps s).1.1) : w.1 ∈ ps ∧ renderer w.1 = .ok w.2 := by
  induction ps generalizing s with
  | nil => cases h
  | cons p ps ih =>
    unfold writePlans at h
    dsimp only at h
    split at h
    · rename_i units houtcome
      rcases List.mem_cons.mp h with rfl | h
      · exact ⟨List.mem_cons_self, renderer_of_writePlan houtcome⟩
      · exact ⟨List.mem_cons_of_mem _ (ih h).1, (ih h).2⟩
    · exact ⟨List.mem_cons_of_mem _ (ih h).1, (ih h).2⟩

theorem mem_of_mem_written {w : Plan × List RenderedUnit}
    (h : w ∈ (processRound filer renderer t .register s).1.written) :
    w.1 ∈ t.plans ∧ renderer w.1 = .ok w.2 := by
  rw [written_processRound] at h
  exact Round.mem_of_mem_writePlans h

end

end ActorIdl
