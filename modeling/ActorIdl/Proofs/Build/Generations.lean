import ActorIdl.Proofs.Build.Settling
import ActorIdl.Proofs.Declaration.Growth
/-! # Generations of stubs

    A renderer can write stubs that declare anything: new interfaces, interfaces that are there
    already, and further ones in every round.  Whatever it writes, a build ends after `maxRounds`
    rounds, and says so exactly if the last of them still has stubs.

    Every round is about files that no round before it has seen, while all earlier declarations
    stay where they are.  Since no name is declared twice, no interface is planned twice. -/

namespace ActorIdl

/-- A later round knows the files of an earlier one, and its own files come behind them. -/
def BuildRound.Precedes (b b' : BuildRound) : Prop :=
  ∃ files more, b.units = Build.unitsOf files b.firstNew ∧
    b'.units = Build.unitsOf (files ++ more) b'.firstNew ∧ ∀ f ∈ files, f.file < b'.firstNew

/-- A report that generation did not settle. -/
def Diagnostic.isUnsettled (d : Diagnostic) : Bool := d.cause.code? == some "E0501"

theorem HaveCodes.countP_isUnsettled {codes : List String} {ds : List Diagnostic}
    (h : HaveCodes codes ds) (hcode : "E0501" ∉ codes) : ds.countP (·.isUnsettled) = 0 := by
  rw [List.countP_eq_zero]
  intro d hd hunsettled
  exact h.ne hcode d hd (beq_iff_eq.mp hunsettled)

namespace Build

section
variable {σ : Type} (filer : Filer σ) (renderer : Renderer) (outDir : String) (last : Stage)

/-! ## The number of rounds -/

theorem length_roundsFrom (more : Nat) (files : List ParsedFile) (firstNew known : FileId) (s : σ) :
    (roundsFrom filer renderer outDir last more files firstNew known s).length ≤ more + 1 := by
  induction more generalizing files firstNew known s with
  | zero =>
    unfold roundsFrom
    dsimp only
    rw [ite_self]
    exact Nat.le_refl 1
  | succ more ih =>
    unfold roundsFrom
    dsimp only
    rw [List.length_cons]
    split
    · simp
    · exact Nat.succ_le_succ (ih _ _ _ _)

/-- Only what follows a round can say that generation did not settle. -/
theorem countP_isUnsettled_roundAt (more : Nat) (files : List ParsedFile)
    (firstNew known : FileId) (s : σ) :
    (roundAt filer renderer outDir last more files firstNew known s).1.diagnostics.countP
        (·.isUnsettled) =
      (roundAt filer renderer outDir last more files firstNew known s).1.after.countP
        (·.isUnsettled) := by
  have hreports := (haveCodes_build (unitsOf files firstNew)).filter (isNews firstNew)
  have hmade :=
    haveCodes_processRound filer renderer (Table.build (unitsOf files firstNew)).1 last s
  rw [BuildRound.diagnostics, List.countP_append, List.countP_append, reports_roundAt,
    made_roundAt, hreports.countP_isUnsettled (by decide), hmade.countP_isUnsettled (by decide),
    Nat.add_zero, Nat.zero_add]

/-- After the last round that is allowed it is reported once if there are stubs, and else never. -/
theorem countP_isUnsettled_reportsAfter (more known : Nat) (r : Round) :
    (reportsAfter outDir more known r).countP (·.isUnsettled) =
      if more = 0 ∧ r.stubs ≠ [] then 1 else 0 := by
  unfold reportsAfter
  by_cases hstubs : r.stubs = []
  · simp [hstubs]
  · have hempty : r.stubs.isEmpty = false := by simpa using hstubs
    rw [hempty, if_neg (by decide)]
    cases more with
    | zero =>
      rw [if_pos ⟨rfl, hstubs⟩]
      rfl
    | succ more =>
      rw [if_neg (by omega)]
      exact (haveCodes_parseFiles known _).countP_isUnsettled (by decide)

theorem countP_isUnsettled_roundsFrom (more : Nat) (files : List ParsedFile)
    (firstNew known : FileId) (s : σ) :
    ((roundsFrom filer renderer outDir last more files firstNew known s).flatMap
        (·.diagnostics)).countP (·.isUnsettled) =
      if ((roundsFrom filer renderer outDir last more files firstNew known s)[more]?).any
        (·.made.stubs ≠ []) then 1 else 0 := by
  induction more generalizing files firstNew known s with
  | zero =>
    unfold roundsFrom
    dsimp only
    rw [ite_self, List.flatMap_singleton, countP_isUnsettled_roundAt, after_roundAt,
      countP_isUnsettled_reportsAfter]
    simp
  | succ more ih =>
    let round := roundAt filer renderer outDir last (more + 1) files firstNew known s
    have hround : round.1.diagnostics.countP (·.isUnsettled) = 0 := by
      rw [countP_isUnsettled_roundAt, after_roundAt, countP_isUnsettled_reportsAfter,
        if_neg (by omega)]
    by_cases hstubs : round.1.made.stubs = []
    · -- the round is the last one, and it is not the last one that is allowed
      rw [roundsFrom_of_no_stubs _ _ _ _ hstubs, List.flatMap_singleton, hround]
      simp
    · have hne : round.1.made.stubs.map (stubFile outDir) ≠ [] := by simpa using hstubs
      rw [roundsFrom_of_stubs _ _ _ _ rfl hne, List.flatMap_cons, List.countP_append, hround, ih]
      simp

/-! ## The files of the rounds -/

/-- A round knows the files with which the run began, and it is about these or about later ones. -/
theorem units_of_mem_roundsFrom {more : Nat} {files : List ParsedFile} {firstNew known : FileId}
    {s : σ} {b : BuildRound}
    (hb : b ∈ roundsFrom filer renderer outDir last more files firstNew known s) :
    (∃ new, b.units = unitsOf (files ++ new) b.firstNew) ∧
      (b.firstNew = firstNew ∨ known ≤ b.firstNew) := by
  obtain ⟨_, files', firstNew', _, _, ⟨⟨new, rfl⟩, hnew, -⟩, rfl⟩ :=
    mem_roundsFrom_of_kept filer renderer outDir last
      (P := fun files' firstNew' known' => (∃ new, files' = files ++ new) ∧
        (firstNew' = firstNew ∨ known ≤ firstNew') ∧ known ≤ known')
      (fun files' _ known' stubs h => by
        obtain ⟨⟨new, rfl⟩, -, hknown⟩ := h
        -- the next round begins with the files made in this one
        exact ⟨⟨_, List.append_assoc _ _ _⟩, .inr hknown, hknown.trans (Nat.le_add_right _ _)⟩)
      ⟨⟨[], (List.append_nil files).symm⟩, .inl rfl, Nat.le_refl known⟩ hb
  exact ⟨⟨new, rfl⟩, hnew⟩

theorem pairwise_precedes_roundsFrom {more : Nat} {files : List ParsedFile}
    {firstNew known : FileId} {s : σ} (hold : ∀ f ∈ files, f.file < known) :
    (roundsFrom filer renderer outDir last more files firstNew known s).Pairwise
      BuildRound.Precedes := by
  induction more generalizing files firstNew known s with
  | zero =>
    unfold roundsFrom
    dsimp only
    rw [ite_self]
    exact List.pairwise_singleton _ _
  | succ more ih =>
    unfold roundsFrom
    dsimp only
    split
    · exact List.pairwise_singleton _ _
    · refine List.pairwise_cons.mpr ⟨fun b' hb' => ?_, ih ?_⟩
      · obtain ⟨⟨new, hunits⟩, hnew⟩ := units_of_mem_roundsFrom filer renderer outDir last hb'
        rw [List.append_assoc] at hunits
        refine ⟨files, _, rfl, hunits, fun f hf => ?_⟩
        rcases hnew with heq | hle
        · exact heq ▸ hold f hf
        · exact Nat.lt_of_lt_of_le (hold f hf) (Nat.le_trans (Nat.le_add_right _ _) hle)
      · -- the stubs are numbered from the number of files on
        exact List.forall_mem_append.mpr ⟨fun f hf => Nat.lt_add_right _ (hold f hf),
          fun f hf => (file_of_mem_parseFiles hf).2⟩

/-- A round plans what its table calls for, or nothing if it ends before its plans. -/
theorem plans_sublist_of_mem_roundsFrom {more : Nat} {files : List ParsedFile}
    {firstNew known : FileId} {s : σ} {b : BuildRound}
    (hb : b ∈ roundsFrom filer renderer outDir last more files firstNew known s) :
    b.made.plans.Sublist b.table.plans := by
  by_cases hlast : .plan ∈ last.required
  · rw [plans_of_mem_roundsFrom hlast hb]
  · obtain ⟨_, files', firstNew', _, s', rfl⟩ := mem_roundsFrom filer renderer outDir last hb
    have hnone : (processRound filer renderer (Table.build (unitsOf files' firstNew')).1 last
        s').1.plans = [] := by
      cases last with
      | plan | render | register => exact absurd (by decide) hlast
      | _ => rfl
    rw [made_roundAt, hnone]
    exact List.nil_sublist _

end

end Build

/-- The files of a build begin with those of the library. -/
theorem Build.exists_inputs_of_loadInputs {tree : FileTree} {inputs : List String}
    {sources : SourceMap} (h : loadInputs tree inputs = .ok sources) :
    ∃ files, sources = librarySources ++ files := by
  -- file by file, each one behind those before it
  have hall : ∀ (found : List InputFile) (before : SourceMap),
      loadAll tree before found = .ok sources → ∃ files, sources = before ++ files := by
    intro found
    induction found with
    | nil =>
      intro before h
      cases h
      exact ⟨[], (List.append_nil _).symm⟩
    | cons input found ih =>
      intro before h
      unfold loadAll at h
      rw [List.foldlM_cons] at h
      unfold SourceMap.load at h
      cases htext : tree.readText input.path with
      | error e =>
        rw [htext] at h
        cases h
      | ok text =>
        rw [htext] at h
        obtain ⟨files, hfiles⟩ := ih _ h
        rw [List.append_assoc] at hfiles
        exact ⟨_, hfiles⟩
  unfold loadInputs at h
  cases hfound : discover tree inputs with
  | error e =>
    rw [hfound] at h
    cases h
  | ok found =>
    rw [hfound] at h
    exact hall found librarySources h

theorem Build.length_le_of_loadInputs {tree : FileTree} {inputs : List String}
    {sources : SourceMap} (h : loadInputs tree inputs = .ok sources) :
    librarySources.length ≤ sources.length := by
  obtain ⟨files, rfl⟩ := exists_inputs_of_loadInputs h
  rw [List.length_append]
  exact Nat.le_add_right _ _

/-! ## Rounds that precede each other -/

namespace BuildRound.Precedes

variable {b b' : BuildRound} (h : b.Precedes b')
include h

/-- The roots of a later round are in files of its own. -/
theorem file_ne {u v : SourceUnit} (hu : u ∈ b'.units) (hroot : u.isRoot = true)
    (hv : v ∈ b.units) : v.file ≠ u.file := by
  obtain ⟨files, more, hunits, hunits', hold⟩ := h
  rw [hunits'] at hu
  rw [hunits] at hv
  obtain ⟨f, _, rfl⟩ := List.mem_map.mp hu
  obtain ⟨g, hg, rfl⟩ := List.mem_map.mp hv
  have hlt : g.file < b'.firstNew := hold g hg
  have hle : b'.firstNew ≤ f.file := by simpa using hroot
  exact Nat.ne_of_lt (Nat.lt_of_lt_of_le hlt hle)

/-- Every declaration of the earlier round keeps its number and its names. -/
theorem keepsNames {id : DeclId} {d : Declaration} (hd : b.table.get? id = some d) :
    ∃ d', b'.table.get? id = some d' ∧ d.KeepsNames d' := by
  obtain ⟨files, more, hunits, hunits', _⟩ := h
  rw [table, hunits] at hd
  have happend : Build.unitsOf (files ++ more) b'.firstNew =
      Build.unitsOf files b'.firstNew ++ Build.unitsOf more b'.firstNew := List.map_append
  have hroots : Build.unitsOf files b'.firstNew =
      (Build.unitsOf files b.firstNew).map fun u => u.asRoot (decide (b'.firstNew ≤ u.file)) := by
    rw [Build.unitsOf, Build.unitsOf, List.map_map]
    rfl
  rw [table, hunits', happend]
  exact Table.get?_build_append _ hroots hd

end BuildRound.Precedes

/-! ## Plans -/

namespace Table

variable {units : List SourceUnit} {p q : Plan}

/-- What is planned is declared in a root unit, under the name of the plan. -/
theorem declares_of_mem_plans (hp : p ∈ (build units).1.plans) :
    ∃ d, (build units).1.get? p.decl = some d ∧ d.qualifiedName = p.interfaceName ∧
      ∃ u ∈ units, u.isRoot = true ∧ u.Declares d := by
  obtain ⟨d, hd, hfor, _⟩ := isFor_of_mem_plans hp
  have hremote : p.decl ∈ (build units).1.remotes := by
    rw [← decls_plans]
    exact List.mem_map_of_mem hp
  exact ⟨d, hd, hfor.interfaceName.symm, declares_of_isSubject hd (mem_remotes_iff.mp hremote).1⟩

/-- A table calls for no two plans of one name. -/
theorem nodup_interfaceNames (units : List SourceUnit) :
    ((build units).1.plans.map (·.interfaceName)).Nodup := by
  have hdecls : ((build units).1.plans.map (·.decl)).Nodup := by
    rw [decls_plans]
    exact nodup_interfaces.filter _
  rw [List.Nodup, List.pairwise_map] at hdecls ⊢
  refine hdecls.imp_of_mem fun {p q} hp hq hne heq => hne ?_
  obtain ⟨d, hd, hname, _⟩ := declares_of_mem_plans hp
  obtain ⟨d', hd', hname', _⟩ := declares_of_mem_plans hq
  exact eq_of_qualifiedName_eq hd hd' (by rw [hname, hname', heq])

end Table

/-- Nothing that an earlier round could plan is planned by a later one. -/
theorem BuildRound.Precedes.interfaceName_ne {b b' : BuildRound} (h : b.Precedes b') {p q : Plan}
    (hp : p ∈ b.table.plans) (hq : q ∈ b'.table.plans) : p.interfaceName ≠ q.interfaceName := by
  intro heq
  obtain ⟨d, hd, hname, v, hv, _, _, _, _, _, _, _, hloc⟩ := Table.declares_of_mem_plans hp
  obtain ⟨d', hd', hname', u, hu, hroot, _, _, _, _, _, _, hloc'⟩ :=
    Table.declares_of_mem_plans hq
  -- the later table has the earlier declaration too, so both plans are about that one
  obtain ⟨d'', hd'', hkeeps⟩ := h.keepsNames hd
  have hsame : p.decl = q.decl := by
    refine Table.eq_of_qualifiedName_eq hd'' hd' ?_
    rw [hkeeps.qualifiedName, hname, hname', heq]
  rw [hsame] at hd''
  cases Option.some.inj (hd''.symm.trans hd')
  have hfile : v.file = u.file := by
    have hlocations := hkeeps.location
    rw [hloc, hloc'] at hlocations
    exact (congrArg Location.file hlocations).symm
  exact h.file_ne hu hroot hv hfile

/-- Rounds that precede each other and plan no more than their tables call for plan no interface
    twice. -/
theorem BuildRound.nodup_plans {bs : List BuildRound} (hprecedes : bs.Pairwise BuildRound.Precedes)
    (hplans : ∀ b ∈ bs, b.made.plans.Sublist b.table.plans) :
    ((bs.flatMap (·.made.plans)).map (·.interfaceName)).Nodup := by
  -- within a round by the names of its table, between rounds by the files of their roots
  rw [List.map_flatMap, List.nodup_flatMap]
  refine ⟨fun b hb => ?_, hprecedes.imp_of_mem fun {b b'} hb hb' h => ?_⟩
  · exact ((hplans b hb).map _).nodup (Table.nodup_interfaceNames b.units)
  · intro name hname hname'
    obtain ⟨p, hp, rfl⟩ := List.mem_map.mp hname
    obtain ⟨q, hq, heq⟩ := List.mem_map.mp hname'
    exact h.interfaceName_ne ((hplans b hb).subset hp) ((hplans b' hb').subset hq) heq.symm

/-! ## Whole builds -/

namespace Build

section
variable {σ : Type} (filer : Filer σ) (renderer : Renderer) (outDir : String) (last : Stage)
  {tree : FileTree} {inputs : List String} {sources : SourceMap}

/-- The rounds about the sources of a build precede each other. -/
theorem pairwise_precedes_of_sources (sources : SourceMap) (more : Nat) (firstNew : FileId) (s : σ) :
    (roundsFrom filer renderer outDir last more (parseFiles 0 sources).1 firstNew sources.length
      s).Pairwise BuildRound.Precedes :=
  pairwise_precedes_roundsFrom filer renderer _ last file_lt_of_mem_parseFiles

/-- No unit of the library is a root in any round. -/
theorem length_le_of_isRoot (hload : loadInputs tree inputs = .ok sources) {more : Nat} {s : σ}
    {b : BuildRound} (hb : b ∈ roundsFrom filer renderer outDir last more (parseFiles 0 sources).1
      librarySources.length sources.length s) {u : SourceUnit} (hu : u ∈ b.units)
    (hroot : u.isRoot = true) : librarySources.length ≤ u.file := by
  obtain ⟨⟨new, hunits⟩, hnew⟩ := units_of_mem_roundsFrom filer renderer _ last hb
  rw [hunits] at hu
  obtain ⟨f, _, rfl⟩ := List.mem_map.mp hu
  have hle : b.firstNew ≤ f.file := by simpa using hroot
  rcases hnew with heq | hle'
  · exact heq ▸ hle
  · exact Nat.le_trans (length_le_of_loadInputs hload) (Nat.le_trans hle' hle)

end

end Build

/-- Whatever the inputs, the filer and the renderer are, a build ends after `maxRounds` rounds at
    most, and it is reported once that generation did not settle if the last of these rounds still
    has stubs, and never otherwise.  No interface is planned twice over all rounds: each is declared
    in a unit that is new in its round, and declarations of earlier rounds stay in the tables of the
    later ones under their numbers and names. -/
theorem generations_of_compile {σ : Type} (tree : FileTree) (options : BuildOptions)
    (filer : Filer σ) (renderer : Renderer) (s : σ) {sources : SourceMap}
    (hload : Build.loadInputs tree options.inputs = .ok sources) :
    let bs := Build.rounds tree options filer renderer s
    ∃ c s', compile tree options filer renderer s = (.ok c, s') ∧
      c.rounds = bs.length ∧ bs.length ≤ maxRounds ∧
      c.diagnostics.countP (·.cause.code? == some "E0501") =
        (if (bs[maxRounds - 1]?).any (·.made.stubs ≠ []) then 1 else 0) ∧
      c.plans = bs.flatMap (·.made.plans) ∧ (c.plans.map (·.interfaceName)).Nodup ∧
      (∀ b ∈ bs, ∀ p ∈ b.made.plans, ∃ d, b.table.get? p.decl = some d ∧
        d.qualifiedName = p.interfaceName ∧ ∃ u ∈ b.units, u.isRoot = true ∧ u.Declares d) ∧
      (∀ b ∈ bs, ∀ u ∈ b.units, u.isRoot = true → Build.librarySources.length ≤ u.file) ∧
      bs.Pairwise fun earlier later =>
        (∀ u ∈ later.units, u.isRoot = true → ∀ v ∈ earlier.units, v.file ≠ u.file) ∧
        ∀ id d, earlier.table.get? id = some d →
          ∃ d', later.table.get? id = some d' ∧ d.KeepsNames d' := by
  intro bs
  cases hlast : options.emit.lastStage? with
  | none =>
    -- nothing is compiled
    have hbs : bs = [] := by
      show Build.rounds tree options filer renderer s = []
      unfold Build.rounds
      rw [hload, hlast]
    refine ⟨Build.loaded sources, s, ?_, ?_⟩
    · unfold compile
      rw [hload, hlast]
    · rw [hbs]
      simp [Build.loaded]
  | some last =>
    obtain ⟨c, s', hcompile⟩ : ∃ c s', compile tree options filer renderer s = (.ok c, s') :=
      ⟨_, _, Build.compile_of_loadInputs hlast hload⟩
    obtain ⟨sources', hload', hcollects⟩ := Build.collects_compile hlast hcompile
    cases Except.ok.inj (hload.symm.trans hload')
    have hbs : bs = Build.roundsFrom filer renderer options.outDir last (maxRounds - 1)
        (Build.parseFiles 0 sources).1 Build.librarySources.length sources.length s :=
      Build.rounds_of_loadInputs hlast hload
    have hplans : c.plans = bs.flatMap (·.made.plans) := by
      rw [hcollects.plans]
      rfl
    have hsublist : ∀ b ∈ bs, b.made.plans.Sublist b.table.plans := by
      rw [hbs]
      exact fun b hb => Build.plans_sublist_of_mem_roundsFrom filer renderer _ last hb
    have hprecedes : bs.Pairwise BuildRound.Precedes := by
      rw [hbs]
      exact Build.pairwise_precedes_of_sources filer renderer _ last sources _ _ s
    refine ⟨c, s', hcompile, ?_, ?_, ?_, hplans, ?_, ?_, ?_, ?_⟩
    · rw [hcollects.rounds]
      exact Nat.zero_add _
    · rw [hbs]
      exact Build.length_roundsFrom filer renderer _ last _ _ _ _ _
    · have hread : (Build.read sources).diagnostics.countP (·.isUnsettled) = 0 :=
        (Build.haveCodes_parseFiles 0 sources).countP_isUnsettled (by decide)
      have hrounds := Build.countP_isUnsettled_roundsFrom filer renderer options.outDir last
        (maxRounds - 1) (Build.parseFiles 0 sources).1 Build.librarySources.length sources.length s
      rw [← hbs] at hrounds
      show c.diagnostics.countP (·.isUnsettled) = _
      rw [hcollects.diagnostics, ← hrounds, List.countP_append, hread, Nat.zero_add]
    · rw [hplans]
      exact BuildRound.nodup_plans hprecedes hsublist
    · exact fun b hb p hp => Table.declares_of_mem_plans ((hsublist b hb).subset hp)
    · intro b hb u hu hroot
      rw [hbs] at hb
      exact Build.length_le_of_isRoot filer renderer _ last hload hb hu hroot
    · exact hprecedes.imp fun h => ⟨fun u hu hroot v hv => h.file_ne hu hroot hv,
        fun id d hd => h.keepsNames hd⟩

/-- A renderer whose stub for an interface declares a further actor interface. -/
def Renderer.relentless : Renderer := fun p =>
  .ok [⟨.declarationStub, p.factoryName, "interface " ++ p.simpleName ++ "X extends Actor;"⟩]

/-- A filer that accepts everything. -/
def acceptAll : Filer Unit := fun _ _ _ s => (.ok (), s)

/-- With the relentless renderer the build of one actor interface plans one more in every round, up
    to the last round that is allowed. -/
theorem runRounds_relentless :
    let c := (Build.runRounds acceptAll .relentless "out" .register (maxRounds - 1)
      (Build.parseFiles 0 (singleSources "interface I extends Actor;")).1
      Build.librarySources.length (Build.read (singleSources "interface I extends Actor;")) ()).1
    c.rounds = 8 ∧ c.diagnostics.countP (·.cause.code? == some "E0501") = 1 := by
  have hfiles := parseFiles_single (rfl : "interface I extends Actor;" = String.ofList _)
  rw [Build.read, hfiles]
  decide +kernel

theorem generations_of_compile_relentless :
    ∃ c s', compile (.single "interface I extends Actor;") ⟨["A.orbit"], "out", .all⟩ acceptAll
        .relentless () = (.ok c, s') ∧
      c.rounds = 8 ∧ c.diagnostics.countP (·.cause.code? == some "E0501") = 1 ∧
      (c.plans.map (·.interfaceName)).Nodup := by
  have hload := loadInputs_single "interface I extends Actor;"
  obtain ⟨c, s', hcompile, _, _, _, _, hnodup, _⟩ := generations_of_compile
    (.single "interface I extends Actor;") ⟨["A.orbit"], "out", .all⟩ acceptAll .relentless () hload
  have hrun := @Build.compile_of_loadInputs _ (.single "interface I extends Actor;")
    ⟨["A.orbit"], "out", .all⟩ acceptAll .relentless () _ rfl _ hload
  rw [hcompile] at hrun
  obtain ⟨hrounds, hunsettled⟩ := runRounds_relentless
  obtain ⟨hc, _⟩ := Prod.mk.inj hrun
  cases Except.ok.inj hc
  exact ⟨_, s', hcompile, hrounds, hunsettled, hnodup⟩

end ActorIdl
