import ActorIdl.Output.Directory
import ActorIdl.Proofs.Output.Memory
/-! # A record of outputs

    What a filer has created cannot be seen in its state, which is its own affair.  So a record of
    the outputs is kept beside the state; it changes nothing of what the filer does.  Filers create
    no output twice, whether they keep their outputs in memory or write them into a directory. -/

namespace ActorIdl

/-- The filer with a record of the outputs that it has created. -/
def Filer.recording {σ : Type} (filer : Filer σ) : Filer (σ × List OutputFile) :=
  fun kind path contents s =>
    match filer kind path contents s.1 with
    | (.ok (), s') => (.ok (), s', s.2 ++ [⟨kind, path, contents⟩])
    | (.error e, s') => (.error e, s', s.2)

/-- What a filer must remember to create no output twice: that it has created an output, and that
    it had not created it before. -/
structure Filer.CreatesOnce {σ : Type} (filer : Filer σ) (Has : σ → OutputKind × String → Prop) :
    Prop where
  created : ∀ (f : OutputFile) s s', filer f.kind f.path f.contents s = (.ok (), s') →
    ¬Has s f.key ∧ Has s' f.key
  kept : ∀ (f : OutputFile) s key, Has s key → Has (filer f.kind f.path f.contents s).2 key

namespace Filer

section
variable {σ : Type} (filer : Filer σ) (f : OutputFile) (s : σ) (log : List OutputFile)

/-- An output is recorded if it is created. -/
theorem recording_cases :
    (∃ s', filer f.kind f.path f.contents s = (.ok (), s') ∧
        filer.recording f.kind f.path f.contents (s, log) = (.ok (), s', log ++ [f])) ∨
      ∃ e s', filer f.kind f.path f.contents s = (.error e, s') ∧
        filer.recording f.kind f.path f.contents (s, log) = (.error e, s', log) := by
  unfold recording
  dsimp only
  cases filer f.kind f.path f.contents s with
  | mk outcome s' =>
    cases outcome with
    | ok => exact .inl ⟨s', rfl, rfl⟩
    | error e => exact .inr ⟨e, s', rfl, rfl⟩

end

/-- A record with no output in it twice, all of them known to the filer. -/
def RecordsOnce {σ : Type} (Has : σ → OutputKind × String → Prop) (s : σ × List OutputFile) : Prop :=
  (s.2.map (·.key)).Nodup ∧ ∀ f ∈ s.2, Has s.1 f.key

theorem CreatesOnce.recordsOnce {σ : Type} {filer : Filer σ} {Has : σ → OutputKind × String → Prop}
    (h : filer.CreatesOnce Has) (f : OutputFile) (s : σ × List OutputFile)
    (hs : RecordsOnce Has s) :
    RecordsOnce Has (filer.recording f.kind f.path f.contents s).2 := by
  obtain ⟨hnodup, hhas⟩ := hs
  have hkept : ∀ f' ∈ s.2, Has (filer f.kind f.path f.contents s.1).2 f'.key :=
    fun f' hf' => h.kept f s.1 _ (hhas f' hf')
  rcases recording_cases filer f s.1 s.2 with
    ⟨s', hcreated, hrecorded⟩ | ⟨e, s', hrefused, hrecorded⟩
  · obtain ⟨hnew, hhere⟩ := h.created f s.1 s' hcreated
    rw [hcreated] at hkept
    rw [hrecorded]
    constructor
    · -- what is in the record was there before, and this output was not
      have hnot : f.key ∉ s.2.map (·.key) := by
        intro hmem
        obtain ⟨f', hf', hkey⟩ := List.mem_map.mp hmem
        exact hnew (hkey ▸ hhas f' hf')
      rw [List.map_append]
      exact hnodup.append (List.nodup_singleton _) (List.disjoint_singleton.mpr hnot)
    · exact List.forall_mem_append.mpr ⟨hkept, List.forall_mem_singleton.mpr hhere⟩
  · rw [hrefused] at hkept
    rw [hrecorded]
    exact ⟨hnodup, hkept⟩

end Filer

theorem Outputs.createsOnce : Outputs.filer.CreatesOnce fun o key => key ∈ o.files.map (·.key) where
  created f o o' h := by
    rcases filer_cases f.kind f.path f.contents o with ⟨e, hrefused⟩ | ⟨hnew, hcreated⟩
    · rw [hrefused] at h
      cases h
    · rw [hcreated] at h
      cases h
      constructor
      · rw [OutputFile.key, mem_keys_iff, hnew]
        exact Bool.false_ne_true
      · rw [List.map_append]
        exact List.mem_append_right _ (List.mem_singleton_self _)
  kept f o key hkey := by
    rcases filer_cases f.kind f.path f.contents o with ⟨e, hrefused⟩ | ⟨_, hcreated⟩
    · rw [hrefused]
      exact hkey
    · rw [hcreated, List.map_append]
      exact List.mem_append_left _ hkey

/-- A directory knows the components of the paths of its outputs. -/
theorem OutputDir.createsOnce : OutputDir.filer.CreatesOnce fun o key =>
    Path.components (o.fullPath key.1 key.2) ∈ o.created where
  created f o o' h := by
    unfold OutputDir.filer at h
    split at h
    · cases h
    · dsimp only at h
      split at h
      · cases h
      · rename_i hnew
        obtain ⟨_, rfl⟩ := Prod.mk.inj h
        refine ⟨fun hmem => hnew (List.contains_iff_mem.mpr hmem), ?_⟩
        exact List.mem_append_right _ (List.mem_singleton_self _)
  kept f o key hkey := by
    unfold OutputDir.filer
    split
    · exact hkey
    · dsimp only
      split
      · exact hkey
      · exact List.mem_append_left _ hkey

end ActorIdl
