import ActorIdl.Proofs.Build.Rounds
/-! # Targets of a build

    A build for its descriptors or for its plans is there to be looked at: it stops before anything
    is written.  What it shows is what a whole build goes on with.  The stages up to the plans are
    the same ones, the later stages change neither descriptors nor plans, and whatever a whole build
    reports beyond that it reports later. -/

namespace ActorIdl

/-! ## Rounds that stop early -/

namespace Round

/-- A round with its identifiers assigned and nothing planned. -/
def identified (t : Table) : Round := (Stage.required .assignIds).foldl (runPure t) .start

/-- To plan is to add the plans and nothing else. -/
theorem planned_eq (t : Table) :
    planned t = { identified t with plans := (identified t).descriptors.map .ofDescriptor } := rfl

end Round

section
variable {σ : Type} (filer : Filer σ) (renderer : Renderer) (t : Table) (s : σ)

theorem processRound_assignIds :
    processRound filer renderer t .assignIds s = (.identified t, s) :=
  Round.runAll_of_pure filer renderer t _ (by decide) _ s

/-- Writing leaves the descriptors alone. -/
theorem descriptors_processRound :
    (processRound filer renderer t .register s).1.descriptors = t.descriptors := by
  rw [processRound_eq]
  exact Round.descriptors_planned t

/-- What is wrong with the descriptors is reported before anything is written. -/
theorem reports_processRound :
    (Round.planned t).reports <+: (processRound filer renderer t .register s).1.reports := by
  rw [processRound_eq]
  dsimp only
  rw [List.append_assoc, List.append_assoc]
  exact List.prefix_append _ _

end

/-! ## Builds by their first round -/

namespace Build

section
variable {σ : Type} {tree : FileTree} (options : BuildOptions) (filer : Filer σ)
  (renderer : Renderer) {last : Stage} {sources : SourceMap}

/-- A build whose rounds write nothing is over after the first one. -/
theorem compile_of_no_stubs (hlast : options.emit.lastStage? = some last)
    (hload : loadInputs tree options.inputs = .ok sources) {made : Table → Round}
    (hmade : ∀ t s, processRound filer renderer t last s = (made t, s))
    (hstubs : ∀ t, (made t).stubs = []) (s : σ) :
    let units := unitsOf (parseFiles 0 sources).1 librarySources.length
    ∃ c, compile tree options filer renderer s = (.ok c, s) ∧
      Collects (read sources) c
        [⟨units, librarySources.length, made (Table.build units).1, []⟩] := by
  intro units
  let b : BuildRound := ⟨units, librarySources.length, made (Table.build units).1, []⟩
  have hround : roundAt filer renderer options.outDir last (maxRounds - 1) (parseFiles 0 sources).1
      librarySources.length sources.length s = (b, s) := by
    unfold roundAt reportsAfter
    dsimp only
    rw [hmade, hstubs]
    rfl
  have hrun := runRounds_of_no_stubs filer renderer options.outDir last (c := read sources) hround
    (hstubs _)
  rw [compile_of_loadInputs hlast hload, hrun]
  exact ⟨_, rfl, collects_afterRound options.outDir _ b _⟩

/-- A build has its first round and what comes after it. -/
theorem compile_of_first (hlast : options.emit.lastStage? = some last)
    (hload : loadInputs tree options.inputs = .ok sources) (s : σ) :
    let units := unitsOf (parseFiles 0 sources).1 librarySources.length
    ∃ c s' first rest, compile tree options filer renderer s = (.ok c, s') ∧
      first.units = units ∧ first.firstNew = librarySources.length ∧
      first.made = (processRound filer renderer (Table.build units).1 last s).1 ∧
      Collects (read sources) c (first :: rest) := by
  intro units
  have hcollects := collects_runRounds filer renderer options.outDir last (maxRounds - 1)
    (parseFiles 0 sources).1 librarySources.length (read sources) s
  unfold roundsFrom at hcollects
  exact ⟨_, _, _, _, compile_of_loadInputs hlast hload, rfl, rfl, made_roundAt .., hcollects⟩

end

/-- What one round makes comes first if the first of several rounds makes it first. -/
theorem prefix_flatMap_cons {α : Type} {f : BuildRound → List α} {b first : BuildRound}
    (h : f b <+: f first) (before : List α) (rest : List BuildRound) :
    before ++ [b].flatMap f <+: before ++ (first :: rest).flatMap f := by
  rw [List.flatMap_singleton, List.flatMap_cons]
  apply (List.prefix_append_right_inj before).mpr
  exact h.trans (List.prefix_append _ _)

end Build

/-- Builds of the same inputs for their descriptors, for their plans and for everything agree.  If
    the inputs can be read, the first two run one round and leave the filer alone; they report the
    same and have the same descriptors, and the whole build reports, describes and plans all of
    that first. -/
theorem targets_of_compile {σ : Type} (tree : FileTree) (inputs : List String) (outDir : String)
    (filer : Filer σ) (renderer : Renderer) (s : σ) :
    let build := fun emit => compile tree ⟨inputs, outDir, emit⟩ filer renderer s
    (∃ e, ∀ emit, build emit = (.error e, s)) ∨
      ∃ d p a s', build .descriptors = (.ok d, s) ∧ build .plans = (.ok p, s) ∧
        build .all = (.ok a, s') ∧
        p.diagnostics = d.diagnostics ∧ p.diagnostics <+: a.diagnostics ∧
        p.descriptors = d.descriptors ∧ p.descriptors <+: a.descriptors ∧
        p.plans <+: a.plans ∧ d.rounds = 1 ∧ p.rounds = 1 := by
  intro build
  cases hload : Build.loadInputs tree inputs with
  | error e =>
    left
    refine ⟨e, fun emit => ?_⟩
    show compile tree ⟨inputs, outDir, emit⟩ filer renderer s = (.error e, s)
    unfold compile
    rw [hload]
  | ok sources =>
    right
    obtain ⟨d, hd, hdc⟩ := Build.compile_of_no_stubs ⟨inputs, outDir, .descriptors⟩ filer
      renderer rfl hload (processRound_assignIds filer renderer) (fun _ => rfl) s
    obtain ⟨p, hp, hpc⟩ := Build.compile_of_no_stubs ⟨inputs, outDir, .plans⟩ filer renderer
      rfl hload (processRound_plan filer renderer) (fun _ => rfl) s
    obtain ⟨a, s', first, rest, ha, hunits, hnew, hmade, hac⟩ := Build.compile_of_first
      ⟨inputs, outDir, .all⟩ filer renderer rfl hload s
    -- all three are about one table
    generalize Build.unitsOf (Build.parseFiles 0 sources).1 Build.librarySources.length = units
      at hdc hpc hunits hmade
    refine ⟨d, p, a, s', hd, hp, ha, ?_, ?_, ?_, ?_, ?_, hdc.rounds, hpc.rounds⟩
    · rw [hpc.diagnostics, hdc.diagnostics, Round.planned_eq]
      rfl
    · rw [hpc.diagnostics, hac.diagnostics]
      apply Build.prefix_flatMap_cons
      unfold BuildRound.diagnostics BuildRound.reports
      rw [hunits, hnew, hmade, List.append_nil, List.append_assoc]
      apply (List.prefix_append_right_inj _).mpr
      exact (reports_processRound filer renderer _ s).trans (List.prefix_append _ _)
    · rw [hpc.descriptors, hdc.descriptors, Round.planned_eq]
      rfl
    · rw [hpc.descriptors, hac.descriptors]
      apply Build.prefix_flatMap_cons
      have hsame : (Round.planned (Table.build units).1).descriptors = first.made.descriptors := by
        rw [hmade, descriptors_processRound, Round.descriptors_planned]
      exact hsame ▸ List.prefix_rfl
    · rw [hpc.plans, hac.plans]
      apply Build.prefix_flatMap_cons
      have hsame : (Round.planned (Table.build units).1).plans = first.made.plans := by
        rw [hmade, plans_processRound filer renderer _ s (by decide), Round.plans_planned]
      exact hsame ▸ List.prefix_rfl

end ActorIdl
