import ActorIdl.Proofs.Round.Outputs
/-! # What is written when outputs are refused

    Outputs can be refused at any point of a round.  The sources of a plan are created one after the
    other, and the first one that is refused ends them: the plan does not count as written, and it
    gets no manifest.  Whatever is refused, the sources of the plans that do count are there, each
    where it was created, and every resource is the manifest of one of these plans or of an actor
    class. -/

namespace ActorIdl

/-- Outputs that were added to others: the sources of some units are among them, once for each
    unit, and of resources there are only some manifests. -/
def Outputs.Gains (o : Outputs) (units : List RenderedUnit) (manifests : List OutputFile)
    (o' : Outputs) : Prop :=
  ∃ added, o'.files = o.files ++ added ∧ (units.map (·.file)).Sublist added ∧
    ∀ f ∈ added, f.kind = .resource → f ∈ manifests

namespace Outputs.Gains

variable {o o' o'' : Outputs} {units units' : List RenderedUnit}
  {manifests manifests' : List OutputFile}

theorem refl (o : Outputs) : o.Gains [] [] o :=
  ⟨[], (List.append_nil _).symm, List.nil_sublist _, fun _ hf => absurd hf List.not_mem_nil⟩

theorem trans (h : o.Gains units manifests o') (h' : o'.Gains units' manifests' o'') :
    o.Gains (units ++ units') (manifests ++ manifests') o'' := by
  obtain ⟨added, hfiles, hunits, hmanifests⟩ := h
  obtain ⟨added', hfiles', hunits', hmanifests'⟩ := h'
  refine ⟨added ++ added', ?_, ?_, fun f hf hkind => ?_⟩
  · rw [hfiles', hfiles, List.append_assoc]
  · rw [List.map_append]
    exact hunits.append hunits'
  · rcases List.mem_append.mp hf with hf | hf
    · exact List.mem_append_left _ (hmanifests f hf hkind)
    · exact List.mem_append_right _ (hmanifests' f hf hkind)

theorem mono (h : o.Gains units manifests o') (hunits : units'.Sublist units)
    (hmanifests : manifests ⊆ manifests') : o.Gains units' manifests' o' := by
  obtain ⟨added, hfiles, hsub, hof⟩ := h
  exact ⟨added, hfiles, (hunits.map _).trans hsub, fun f hf hkind => hmanifests (hof f hf hkind)⟩

end Outputs.Gains

/-- A resource is added unless it is refused. -/
theorem Outputs.gains_resource (path contents : String) (o : Outputs) :
    o.Gains [] [⟨.resource, path, contents⟩] (filer .resource path contents o).2 := by
  rcases filer_cases .resource path contents o with ⟨e, hrefused⟩ | ⟨_, hcreated⟩
  · rw [hrefused]
    exact (Gains.refl o).mono (List.Sublist.refl _) (List.nil_subset _)
  · rw [hcreated]
    exact ⟨_, rfl, List.nil_sublist _, fun f hf _ => hf⟩

namespace Round

/-! ## Sources -/

/-- The sources of some units are there if all of them could be created. -/
theorem gains_of_createUnits_ok {us : List RenderedUnit} {o o' : Outputs}
    (h : createUnits Outputs.filer us o = (.ok (), o')) : o.Gains us [] o' := by
  refine ⟨_, files_of_createUnits_ok h, List.Sublist.refl _, fun f hf hkind => ?_⟩
  obtain ⟨u, _, rfl⟩ := List.mem_map.mp hf
  cases hkind

theorem gains_createUnits (us : List RenderedUnit) (o : Outputs) :
    o.Gains [] [] (createUnits Outputs.filer us o).2 := by
  induction us generalizing o with
  | nil => exact .refl o
  | cons u us ih =>
    unfold createUnits
    rcases Outputs.filer_cases .source u.path u.contents o with ⟨e, hrefused⟩ | ⟨_, hcreated⟩
    · rw [hrefused]
      exact .refl o
    · -- what was created before a refusal stays, but nothing of it counts
      have hfirst : createUnits Outputs.filer [u] o =
          (.ok (), { o with files := o.files ++ [⟨.source, u.path, u.contents⟩] }) := by
        rw [createUnits, hcreated]
        rfl
      rw [hcreated]
      exact ((gains_of_createUnits_ok hfirst).mono (List.nil_sublist _) (List.Subset.refl _)).trans
        (ih _)

variable (renderer : Renderer) (t : Table)

/-- A plan is written with all its sources, or it has none that count. -/
theorem gains_writePlan (p : Plan) (o : Outputs) :
    o.Gains ((writePlan Outputs.filer renderer p o).1.toOption.getD []) []
      (writePlan Outputs.filer renderer p o).2 := by
  unfold writePlan
  cases renderer p with
  | error e => exact .refl o
  | ok units =>
    dsimp only
    cases hcreate : createUnits Outputs.filer units o with
    | mk outcome o' =>
      cases outcome with
      | error e =>
        have hunits := gains_createUnits units o
        rw [hcreate] at hunits
        exact hunits
      | ok => exact gains_of_createUnits_ok hcreate

theorem gains_writePlans (ps : List Plan) (o : Outputs) :
    o.Gains ((writePlans Outputs.filer renderer t ps o).1.1.flatMap (·.2)) []
      (writePlans Outputs.filer renderer t ps o).2 := by
  induction ps generalizing o with
  | nil => exact .refl o
  | cons p ps ih =>
    have hfirst := gains_writePlan renderer p o
    unfold writePlans
    cases hwrite : writePlan Outputs.filer renderer p o with
    | mk outcome o₁ =>
      rw [hwrite] at hfirst
      cases outcome with
      | error cause => exact hfirst.trans (ih o₁)
      | ok units => exact hfirst.trans (ih o₁)

/-! ## Manifests -/

theorem gains_write (id : DeclId) (path contents : String) (o : Outputs) :
    o.Gains [] [⟨.resource, path, contents⟩]
      (Manifest.write Outputs.filer t id path contents o).2 := by
  have hresource := Outputs.gains_resource path contents o
  unfold Manifest.write
  split
  · rename_i hcreated
    rwa [hcreated] at hresource
  · rename_i hrefused
    rwa [hrefused] at hresource

theorem gains_registerInterfaces (ps : List Plan) (o : Outputs) :
    o.Gains [] (ps.map (·.manifest)) (registerInterfaces Outputs.filer t ps o).2 := by
  induction ps generalizing o with
  | nil => exact .refl o
  | cons p ps ih =>
    have hfirst := gains_write t p.decl (Manifest.interfacePath p.binaryName)
      p.factoryQualifiedName o
    unfold registerInterfaces Manifest.registerInterface
    dsimp only
    split <;> exact hfirst.trans (ih _)

theorem gains_registerClass (id : DeclId) (o : Outputs) :
    o.Gains [] (t.classManifest? id).toList (Manifest.registerClass Outputs.filer t id o).2 := by
  unfold Manifest.registerClass Table.classManifest?
  cases t.get? id with
  | none =>
    rw [Option.map_none, ite_self]
    exact .refl o
  | some d =>
    dsimp only
    split
    · exact gains_write t id _ _ o
    · exact .refl o

theorem gains_registerClasses (ids : List DeclId) (o : Outputs) :
    o.Gains [] (ids.filterMap t.classManifest?) (registerClasses Outputs.filer t ids o).2 := by
  induction ids generalizing o with
  | nil => exact .refl o
  | cons id ids ih =>
    have hmanifests : (id :: ids).filterMap t.classManifest? =
        (t.classManifest? id).toList ++ ids.filterMap t.classManifest? := by
      rw [List.filterMap_cons]
      cases t.classManifest? id <;> rfl
    rw [hmanifests]
    unfold registerClasses
    dsimp only
    split <;> exact (gains_registerClass t id o).trans (ih _)

end Round

/-! ## A whole round -/

/-- The manifests that a round may write: those of the plans it has written, and those of actor
    classes. -/
def Round.manifestFiles (t : Table) (r : Round) : List OutputFile :=
  r.written.map (·.1.manifest) ++ t.candidates.classes.filterMap t.classManifest?

/-- A round adds the sources of the plans that it has written and no other manifests than theirs
    and those of actor classes. -/
theorem gains_processRound (renderer : Renderer) (t : Table) (o : Outputs) :
    o.Gains (processRound Outputs.filer renderer t .register o).1.units
      ((processRound Outputs.filer renderer t .register o).1.manifestFiles t)
      (processRound Outputs.filer renderer t .register o).2 := by
  -- first the sources, then the manifests of the plans that are written, then those of classes
  have hall := (Round.gains_writePlans renderer t t.plans o).trans
    ((Round.gains_registerInterfaces t ((Round.writePlans Outputs.filer renderer t t.plans
      o).1.1.map (·.1)) _).trans (Round.gains_registerClasses t t.candidates.classes _))
  rw [List.append_nil, List.append_nil, List.nil_append, List.map_map] at hall
  rw [processRound_eq]
  exact hall

end ActorIdl
