import ActorIdl.Proofs.Plan.Compatibility
import ActorIdl.Proofs.Renderer.Stub
/-! # Packages of stubs

    A stub repeats the package of its interface as it is.  The package that a unit names itself has
    been read from a source, so it can be written in one.  The package that stands for the place of
    a file is made of the names of directories, and these can be anything: where they are no words,
    the stub is not a source. -/

namespace ActorIdl

/-! ## Packages of directories -/

namespace Path

theorem eq_append_of_afterStart? {start path rest : List Component}
    (h : afterStart? start path = some rest) : path = start ++ rest := by
  induction start generalizing path with
  | nil =>
    cases h
    rfl
  | cons a start ih =>
    cases path with
    | nil => cases h
    | cons b path =>
      rw [afterStart?] at h
      split at h
      · rename_i hab
        rw [hab, ih h, List.cons_append]
      · cases h

/-- A package is made of the names of the directories around a file. -/
theorem exists_dirs_of_packageOf? {root file package : String}
    (h : packageOf? root file = some package) :
    ∃ head tail, package = Text.joinWith "." (head :: tail) ∧
      ∀ dir ∈ head :: tail, ∃ c ∈ (components file).dropLast, dir = c.text := by
  unfold packageOf? at h
  split at h
  · cases h
  · rename_i relative hrelative
    split at h
    · cases h
    · rename_i hdirs
      obtain ⟨c, dirs, hcons⟩ := List.exists_cons_of_ne_nil hdirs
      have hne : relative ≠ [] := by
        rintro rfl
        exact hdirs rfl
      -- the last component is the file itself
      have hsub : relative.dropLast ⊆ (components file).dropLast := by
        rw [eq_append_of_afterStart? hrelative, List.dropLast_append_of_ne_nil hne]
        exact List.subset_append_right _ _
      rw [hcons] at h hsub
      refine ⟨c.text, dirs.map Component.text, (Option.some.inj h).symm, fun dir hdir => ?_⟩
      have hdir : dir ∈ (c :: dirs).map Component.text := hdir
      obtain ⟨c', hc', rfl⟩ := List.mem_map.mp hdir
      exact ⟨c', hsub hc', rfl⟩

end Path

/-- The hint of a unit is the package of a file in directories whose names are identifiers. -/
def SourceUnit.IsInNamedDirs (u : SourceUnit) : Prop :=
  ∃ root file, u.packageHint = Path.packageOf? root file ∧
    ∀ c ∈ (Path.components file).dropLast, IsIdent c.text

/-- The package of a parsed unit can be written in a source if the unit names it or lies in
    directories whose names are identifiers. -/
theorem SourceUnit.isDotted_of_named {u : SourceUnit} (hu : u.unit.WellNamed)
    (h : u.unit.package ≠ none ∨ u.IsInNamedDirs) : u.package = "" ∨ IsDotted u.package := by
  apply SourceUnit.isDotted_package hu
  intro hnone hint hhint
  obtain ⟨root, file, hplace, hdirs⟩ := h.resolve_left (not_not_intro hnone)
  rw [hplace] at hhint
  obtain ⟨head, tail, rfl, hnames⟩ := Path.exists_dirs_of_packageOf? hhint
  have hident : ∀ dir ∈ head :: tail, IsIdent dir := by
    intro dir hdir
    obtain ⟨c, hc, rfl⟩ := hnames dir hdir
    exact hdirs c hc
  obtain ⟨hhead, htail⟩ := List.forall_mem_cons.mp hident
  exact ⟨head, tail, hhead, fun w hw => (htail w hw).1, rfl⟩

/-! ## Stubs -/

namespace Stub

variable {p : Plan}

/-- What is parsed from a source has a package that can be written in one. -/
theorem isDotted_of_declares {source : String} {u : Syntax.CompilationUnit}
    (hparse : (Syntax.parse source).unit = some u) (hu : Declares p u) :
    p.package = "" ∨ IsDotted p.package := by
  by_cases hnone : p.package = ""
  · exact .inl hnone
  · right
    have hpackage := hu.package
    rw [if_neg hnone] at hpackage
    obtain ⟨q, hq, hdotted⟩ := Option.map_eq_some_iff.mp hpackage
    rw [← hdotted]
    exact ((Syntax.wellNamed_of_parse hparse).package q hq).isDotted

/-- The stub of a plan of parsed units is a source that declares the classes of the plan exactly if
    the package of the plan can be written in a source. -/
theorem parse_render_iff {units : List SourceUnit} (hunits : ∀ u ∈ units, u.unit.WellNamed)
    (hp : p ∈ (Table.build units).1.plans) :
    (∃ u, Syntax.parse (render p).contents = ⟨some u, []⟩ ∧ Declares p u) ↔
      p.package = "" ∨ IsDotted p.package := by
  constructor
  · rintro ⟨u, hparse, hu⟩
    have hunit : (Syntax.parse (render p).contents).unit = some u := by rw [hparse]
    exact isDotted_of_declares hunit hu
  · intro hpackage
    exact parse_render (wellNamed_of_package hunits hp hpackage)

end Stub

/-- Of every plan that a round makes of parsed units, the stub is a source without faults that
    declares the three generated classes in the package of the plan, if that package is a dotted
    name or none, and only then.  The package is that of a unit; it is a dotted name or none if the
    unit names it itself or lies in directories whose names are identifiers. -/
theorem stub_of_round {σ : Type} (filer : Filer σ) (renderer : Renderer) (last : Stage) (s : σ)
    (units : List SourceUnit) (hunits : ∀ u ∈ units, u.IsParsed) (p : Plan)
    (hp : p ∈ (processRound filer renderer (Table.build units).1 last s).1.plans) :
    ((∃ unit, Syntax.parse (Stub.render p).contents = ⟨some unit, []⟩ ∧ Stub.Declares p unit) ↔
        p.package = "" ∨ IsDotted p.package) ∧
      ∃ u ∈ units, p.package = u.package ∧
        (u.unit.package ≠ none ∨ u.IsInNamedDirs → p.package = "" ∨ IsDotted p.package) := by
  have hwell : ∀ u ∈ units, u.unit.WellNamed := fun u hu => (hunits u hu).wellNamed
  have hplan : p ∈ (Table.build units).1.plans := mem_plans_of_processRound filer renderer _ s hp
  refine ⟨Stub.parse_render_iff hwell hplan, ?_⟩
  obtain ⟨u, hu, hpackage⟩ := package_of_mem_plans hplan
  refine ⟨u, hu, hpackage, fun hnamed => ?_⟩
  rw [hpackage]
  exact SourceUnit.isDotted_of_named (hwell u hu) hnamed

/-- An actor interface in a source that names no package. -/
def placedSource : String := "interface I extends orbit.actors.Actor;"

theorem stub_of_round_placed :
    ∃ p ∈ plansOfText (Path.packageOf? "src" "src/app/A.orbit") placedSource, ∃ unit,
      Syntax.parse (Stub.render p).contents = ⟨some unit, []⟩ ∧
        unit.package.map (·.dotted) = some "app" := by
  have hpackages : (plansOfText (Path.packageOf? "src" "src/app/A.orbit") placedSource).map
      (·.package) = ["app"] := by
    rw [plansOfText_eq _ placedSource rfl]
    decide +kernel
  obtain ⟨p, _, hcons, hpackage, _⟩ := List.map_eq_cons_iff.mp hpackages
  have hp : p ∈ plansOfText (Path.packageOf? "src" "src/app/A.orbit") placedSource :=
    hcons ▸ List.mem_cons_self
  have hdotted : IsDotted p.package := by
    rw [hpackage]
    exact (by decide : IsIdent "app").isDotted
  obtain ⟨hstub, _⟩ := stub_of_round Outputs.filer .default .plan (.empty []) _
    (fun u hu => (isParsed_of_mem_unitsOfText hu).1) p hp
  obtain ⟨unit, hparse, hdeclares⟩ := hstub.mpr (.inr hdotted)
  refine ⟨p, hp, unit, hparse, ?_⟩
  rw [hdeclares.package, hpackage]
  decide

/-- Where the name of a directory is no word, the stub of an interface in it is not a source without
    faults that declares the classes of the interface. -/
theorem not_parse_render_misplaced :
    ∃ p ∈ plansOfText (Path.packageOf? "src" "src/my-app/A.orbit") placedSource,
      ¬∃ unit, Syntax.parse (Stub.render p).contents = ⟨some unit, []⟩ ∧ Stub.Declares p unit := by
  have hpackages : (plansOfText (Path.packageOf? "src" "src/my-app/A.orbit") placedSource).map
      (·.package) = ["my-app"] := by
    rw [plansOfText_eq _ placedSource rfl]
    decide +kernel
  obtain ⟨p, _, hcons, hpackage, _⟩ := List.map_eq_cons_iff.mp hpackages
  have hp : p ∈ plansOfText (Path.packageOf? "src" "src/my-app/A.orbit") placedSource :=
    hcons ▸ List.mem_cons_self
  have hunits : ∀ u ∈ unitsOfText (Path.packageOf? "src" "src/my-app/A.orbit") placedSource,
      u.unit.WellNamed :=
    fun u hu => (isParsed_of_mem_unitsOfText hu).1.wellNamed
  refine ⟨p, hp, ?_⟩
  rw [Stub.parse_render_iff hunits (mem_plans_of_processRound Outputs.filer .default _ _ hp),
    hpackage]
  rintro (hempty | hdotted)
  · exact absurd hempty (by decide)
  · -- the hyphen is in no dotted name
    rcases hdotted.forall_mem '-' (by decide) with hdot | hrest
    · exact absurd hdot (by decide)
    · exact absurd hrest (by decide)

end ActorIdl
