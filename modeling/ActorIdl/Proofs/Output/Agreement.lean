import ActorIdl.Proofs.Output.Places
import ActorIdl.Proofs.Output.Recording
/-! # Outputs in memory and in a directory

    Both filers follow one rule: a path that is not plain is invalid, and of the calls for one
    output the first one creates it.  They differ in what they take for one output.  In memory it is
    the text of the path that counts, in a directory its components, so the two agree exactly on
    calls that spell no path in two ways. -/

namespace ActorIdl

/-! ## The rule -/

/-- Asks a filer for outputs, one after the other: what comes of each. -/
def Filer.createAll {σ : Type} (filer : Filer σ) :
    List OutputFile → σ → List (Except OutputError Unit) × σ
  | [], s => ([], s)
  | f :: fs, s =>
    ((filer f.kind f.path f.contents s).1 ::
        (createAll filer fs (filer f.kind f.path f.contents s).2).1,
      (createAll filer fs (filer f.kind f.path f.contents s).2).2)

/-- Why an output is refused after others if `key` tells outputs apart. -/
def refusalAfter? {κ : Type} [DecidableEq κ] (key : OutputFile → κ) (before : List OutputFile)
    (f : OutputFile) : Option OutputError :=
  if Path.isPlain f.path = true then
    if ∃ g ∈ before, Path.isPlain g.path = true ∧ key g = key f then some (.alreadyCreated f.path)
    else none
  else some (.invalidPath f.path)

/-- What comes of asking for an output that is refused or not. -/
def verdict : Option OutputError → Except OutputError Unit
  | some e => .error e
  | none => .ok ()

/-- What comes of asking for outputs after others. -/
def verdictsAfter {κ : Type} [DecidableEq κ] (key : OutputFile → κ) (before : List OutputFile) :
    List OutputFile → List (Except OutputError Unit)
  | [] => []
  | f :: fs => verdict (refusalAfter? key before f) :: verdictsAfter key (before ++ [f]) fs

/-- Whether the file system is what made an output fail. -/
def IsIoFailure (outcome : Except OutputError Unit) : Prop :=
  ∃ path cause, outcome = .error (.io path cause)

/-- A filer follows the rule, as far as the file system lets it, if it remembers in its state the
    outputs that it was asked for. -/
structure Filer.Follows {σ κ : Type} [DecidableEq κ] (filer : Filer σ) (key : OutputFile → κ)
    (Remembers : σ → List OutputFile → Prop) : Prop where
  outcome : ∀ s before (f : OutputFile), Remembers s before →
    (filer f.kind f.path f.contents s).1 = verdict (refusalAfter? key before f) ∨
      IsIoFailure (filer f.kind f.path f.contents s).1
  remembers : ∀ s before (f : OutputFile), Remembers s before →
    Remembers (filer f.kind f.path f.contents s).2 (before ++ [f])

theorem Filer.Follows.outcomes {σ κ : Type} [DecidableEq κ] {filer : Filer σ}
    {key : OutputFile → κ} {Remembers : σ → List OutputFile → Prop} (h : filer.Follows key Remembers)
    (fs : List OutputFile) {s : σ} {before : List OutputFile} (hs : Remembers s before)
    (hio : ∀ outcome ∈ (filer.createAll fs s).1, ¬IsIoFailure outcome) :
    (filer.createAll fs s).1 = verdictsAfter key before fs := by
  induction fs generalizing s before with
  | nil => rfl
  | cons f fs ih =>
    obtain ⟨hhere, hrest⟩ := List.forall_mem_cons.mp hio
    rw [createAll, verdictsAfter, (h.outcome s before f hs).resolve_right hhere,
      ih (h.remembers s before f hs) hrest]

/-- What every call keeps is kept by all of them. -/
theorem Filer.createAll_preserves {σ : Type} {filer : Filer σ} {Inv : σ → Prop}
    (h : ∀ (f : OutputFile) s, Inv s → Inv (filer f.kind f.path f.contents s).2)
    (fs : List OutputFile) {s : σ} (hs : Inv s) : Inv (filer.createAll fs s).2 := by
  induction fs generalizing s with
  | nil => exact hs
  | cons f fs ih => exact ih (h f s hs)

theorem Filer.forall_outcomes {σ : Type} {filer : Filer σ} {P : Except OutputError Unit → Prop}
    (h : ∀ (f : OutputFile) s, P (filer f.kind f.path f.contents s).1) (fs : List OutputFile) (s : σ) :
    ∀ outcome ∈ (filer.createAll fs s).1, P outcome := by
  induction fs generalizing s with
  | nil => exact fun outcome h => absurd h List.not_mem_nil
  | cons f fs ih => exact List.forall_mem_cons.mpr ⟨h f s, ih _⟩

theorem Filer.outcome_recording {σ : Type} (filer : Filer σ) (f : OutputFile)
    (s : σ × List OutputFile) : (filer.recording f.kind f.path f.contents s).1 =
      (filer f.kind f.path f.contents s.1).1 := by
  rcases recording_cases filer f s.1 s.2 with ⟨s', hf, hrec⟩ | ⟨e, s', hf, hrec⟩ <;>
    rw [hf] <;> exact congrArg (·.1) hrec

/-- A filer with a record follows the rule that it follows without it. -/
theorem Filer.Follows.recording {σ κ : Type} [DecidableEq κ] {filer : Filer σ}
    {key : OutputFile → κ} {Remembers : σ → List OutputFile → Prop}
    (h : filer.Follows key Remembers) : filer.recording.Follows key fun s => Remembers s.1 where
  outcome s before f hs := by
    rw [outcome_recording]
    exact h.outcome s.1 before f hs
  remembers s before f hs := by
    have hremembers := h.remembers s.1 before f hs
    rcases recording_cases filer f s.1 s.2 with ⟨s', hf, hrec⟩ | ⟨e, s', hf, hrec⟩ <;>
      rw [hf] at hremembers <;> rwa [hrec]

theorem refusalAfter?_eq_none_iff {κ : Type} [DecidableEq κ] {key : OutputFile → κ}
    {before : List OutputFile} {f : OutputFile} : refusalAfter? key before f = none ↔
      Path.isPlain f.path = true ∧ ¬∃ g ∈ before, Path.isPlain g.path = true ∧ key g = key f := by
  unfold refusalAfter?
  by_cases hplain : Path.isPlain f.path = true
  · rw [if_pos hplain]
    by_cases hshared : ∃ g ∈ before, Path.isPlain g.path = true ∧ key g = key f
    · rw [if_pos hshared]
      simp [hshared]
    · rw [if_neg hshared]
      exact ⟨fun _ => ⟨hplain, hshared⟩, fun _ => rfl⟩
  · rw [if_neg hplain]
    simp [hplain]

/-- An output is known after it was asked for, if its path is plain. -/
theorem exists_mem_append_iff {κ : Type} {key : OutputFile → κ} {before : List OutputFile}
    {f : OutputFile} {k : κ} :
    (∃ g ∈ before ++ [f], Path.isPlain g.path = true ∧ key g = k) ↔
      (∃ g ∈ before, Path.isPlain g.path = true ∧ key g = k) ∨
        Path.isPlain f.path = true ∧ key f = k := by
  constructor
  · rintro ⟨g, hg, hk⟩
    rcases List.mem_append.mp hg with hg | hg
    · exact .inl ⟨g, hg, hk⟩
    · rw [List.mem_singleton.mp hg] at hk
      exact .inr hk
  · rintro (⟨g, hg, hk⟩ | hk)
    · exact ⟨g, List.mem_append_left _ hg, hk⟩
    · exact ⟨f, List.mem_append_right _ (List.mem_singleton_self f), hk⟩

/-! ### Two ways to tell outputs apart -/

/-- Outputs whose paths are spelled in one way: plain paths of one kind with the same components
    are the same text. -/
def SpelledAlike (fs : List OutputFile) : Prop :=
  ∀ f ∈ fs, ∀ g ∈ fs, Path.isPlain f.path = true → Path.isPlain g.path = true →
    f.location = g.location → f.path = g.path

instance (fs : List OutputFile) : Decidable (SpelledAlike fs) :=
  inferInstanceAs (Decidable (∀ f ∈ fs, ∀ g ∈ fs, Path.isPlain f.path = true →
    Path.isPlain g.path = true → f.location = g.location → f.path = g.path))

variable {before fs : List OutputFile} {f : OutputFile}

theorem location_eq_of_key_eq {f g : OutputFile} (h : f.key = g.key) : f.location = g.location := by
  obtain ⟨hkind, hpath⟩ := Prod.mk.inj h
  rw [OutputFile.location, OutputFile.location, hkind, hpath]

theorem key_eq_of_location_eq {f g : OutputFile} (h : f.location = g.location)
    (hpath : f.path = g.path) : f.key = g.key := by
  rw [OutputFile.key, OutputFile.key, (Prod.mk.inj h).1, hpath]

theorem refusalAfter?_eq_of_spelledAlike (h : SpelledAlike (before ++ [f])) :
    refusalAfter? OutputFile.key before f = refusalAfter? OutputFile.location before f := by
  have hmem : f ∈ before ++ [f] := List.mem_append_right _ (List.mem_singleton_self f)
  unfold refusalAfter?
  split
  · rename_i hf
    refine if_congr (exists_congr fun g => and_congr_right fun hg => and_congr_right fun hplain => ?_)
      rfl rfl
    exact ⟨location_eq_of_key_eq, fun hlocation => key_eq_of_location_eq hlocation
      (h g (List.mem_append_left _ hg) f hmem hplain hf hlocation)⟩
  · rfl

theorem spelledAlike_of_refusalAfter?_eq (h : SpelledAlike before)
    (heq : refusalAfter? OutputFile.key before f = refusalAfter? OutputFile.location before f) :
    SpelledAlike (before ++ [f]) := by
  -- whoever shares a location with `f` has been told so, and then somebody shares its path
  have hlast : ∀ g ∈ before, Path.isPlain g.path = true → Path.isPlain f.path = true →
      g.location = f.location → g.path = f.path := by
    intro g hg hgplain hf hlocation
    have hshared : ∃ g ∈ before, Path.isPlain g.path = true ∧ g.location = f.location :=
      ⟨g, hg, hgplain, hlocation⟩
    rw [refusalAfter?, refusalAfter?, if_pos hf, if_pos hf, if_pos hshared] at heq
    split at heq
    · rename_i hkey
      obtain ⟨g', hg', hplain', hkey'⟩ := hkey
      have hpath : g'.path = f.path := (Prod.mk.inj hkey').2
      rw [← hpath]
      exact h g hg g' hg' hgplain hplain' (hlocation.trans (location_eq_of_key_eq hkey').symm)
    · cases heq
  intro a ha b hb haplain hbplain hlocation
  rcases List.mem_append.mp ha with ha | ha <;> rcases List.mem_append.mp hb with hb | hb
  · exact h a ha b hb haplain hbplain hlocation
  · cases List.mem_singleton.mp hb
    exact hlast a ha haplain hbplain hlocation
  · cases List.mem_singleton.mp ha
    exact (hlast b hb hbplain haplain hlocation.symm).symm
  · rw [List.mem_singleton.mp ha, List.mem_singleton.mp hb]

theorem verdict_inj {r r' : Option OutputError} : verdict r = verdict r' ↔ r = r' := by
  cases r <;> cases r' <;> simp [verdict]

theorem verdictsAfter_eq_iff (h : SpelledAlike before) :
    verdictsAfter OutputFile.key before fs = verdictsAfter OutputFile.location before fs ↔
      SpelledAlike (before ++ fs) := by
  induction fs generalizing before with
  | nil => simpa [verdictsAfter] using h
  | cons f fs ih =>
    rw [verdictsAfter, verdictsAfter, List.cons.injEq, verdict_inj, List.append_cons before f fs]
    constructor
    · rintro ⟨hhere, hrest⟩
      exact (ih (spelledAlike_of_refusalAfter?_eq h hhere)).mp hrest
    · intro hall
      have hhere : SpelledAlike (before ++ [f]) := fun a ha b hb =>
        hall a (List.mem_append_left _ ha) b (List.mem_append_left _ hb)
      exact ⟨refusalAfter?_eq_of_spelledAlike hhere, (ih hhere).mpr hall⟩

/-! ## The filers -/

namespace Outputs

/-- Outputs that remember what was asked for. -/
def Remembers (o : Outputs) (before : List OutputFile) : Prop :=
  o.failing = [] ∧ ∀ f : OutputFile, (o.get? f.kind f.path).isSome = true ↔
    ∃ g ∈ before, Path.isPlain g.path = true ∧ g.key = f.key

theorem remembers_empty : (empty []).Remembers [] := ⟨rfl, fun f => by simp [get?, empty]⟩

variable {o : Outputs}

theorem refusal?_of_remembers (h : o.Remembers before) (f : OutputFile) :
    o.refusal? f.kind f.path = refusalAfter? OutputFile.key before f := by
  unfold refusal? refusalAfter?
  rw [h.1]
  by_cases hplain : Path.isPlain f.path = true
  · rw [if_pos hplain, hplain, if_neg (by simp), if_neg (by simp)]
    exact if_congr (h.2 f) rfl rfl
  · rw [if_neg hplain, if_pos (by simpa using hplain)]

theorem filer_eq (f : OutputFile) (o : Outputs) :
    filer f.kind f.path f.contents o = (verdict (o.refusal? f.kind f.path),
      match o.refusal? f.kind f.path with
      | some _ => o
      | none => { o with files := o.files ++ [f] }) := by
  unfold filer
  cases o.refusal? f.kind f.path <;> rfl

theorem remembers_filer (h : o.Remembers before) (f : OutputFile) :
    (filer f.kind f.path f.contents o).2.Remembers (before ++ [f]) := by
  rw [filer_eq, refusal?_of_remembers h f]
  cases hrefusal : refusalAfter? OutputFile.key before f with
  | some e =>
    refine ⟨h.1, fun g => ?_⟩
    rw [exists_mem_append_iff, h.2 g]
    refine ⟨.inl, fun hg => hg.elim id fun hf => ?_⟩
    -- a plain path that is refused is known
    have hshared : ∃ g ∈ before, Path.isPlain g.path = true ∧ g.key = f.key := by
      by_contra hnew
      rw [refusalAfter?_eq_none_iff.mpr ⟨hf.1, hnew⟩] at hrefusal
      cases hrefusal
    obtain ⟨g', hg', hplain', hkey⟩ := hshared
    exact ⟨g', hg', hplain', hkey.trans hf.2⟩
  | none =>
    obtain ⟨hplain, _⟩ := refusalAfter?_eq_none_iff.mp hrefusal
    refine ⟨h.1, fun g => ?_⟩
    rw [exists_mem_append_iff, ← h.2 g]
    show (({ o with files := o.files ++ [f] } : Outputs).get? g.kind g.path).isSome = true ↔ _
    rw [get?_append, Option.isSome_or, Bool.or_eq_true]
    refine or_congr_right ?_
    show (if f.key = g.key then some f.contents else none).isSome = true ↔ _
    by_cases hkey : f.key = g.key
    · rw [if_pos hkey]
      exact ⟨fun _ => ⟨hplain, hkey⟩, fun _ => rfl⟩
    · rw [if_neg hkey]
      exact ⟨fun hsome => absurd hsome Bool.false_ne_true, fun hf => absurd hf.2 hkey⟩

theorem follows : filer.Follows OutputFile.key Remembers where
  outcome o before f h := .inl (by rw [filer_eq, refusal?_of_remembers h])
  remembers o before f h := remembers_filer h f

/-- No call in memory fails for the file system's sake. -/
theorem not_isIoFailure_filer (f : OutputFile) (o : Outputs) :
    ¬IsIoFailure (filer f.kind f.path f.contents o).1 := by
  rintro ⟨path, cause, h⟩
  rw [filer_eq] at h
  unfold refusal? at h
  split at h
  · cases h
  split at h
  · cases h
  split at h
  · cases h
  · cases h

/-- What was created is all that is there. -/
def Recorded (s : Outputs × List OutputFile) : Prop := s.1.files = s.2 ∧ s.1.Distinct

theorem recorded_filer (f : OutputFile) (s : Outputs × List OutputFile) (h : Recorded s) :
    Recorded (filer.recording f.kind f.path f.contents s).2 := by
  have hdistinct : (filer f.kind f.path f.contents s.1).2.Distinct := distinct_filer h.2
  rcases Filer.recording_cases filer f s.1 s.2 with ⟨o', hf, hrec⟩ | ⟨e, o', hf, hrec⟩
  · rw [hf] at hdistinct
    rw [hrec]
    refine ⟨?_, hdistinct⟩
    show o'.files = s.2 ++ [f]
    rw [files_of_filer_ok hf, h.1]
  · rw [hf] at hdistinct
    rw [hrec]
    rcases filer_cases f.kind f.path f.contents s.1 with ⟨_, he⟩ | ⟨_, hok⟩
    · rw [hf] at he
      cases he
      exact ⟨h.1, hdistinct⟩
    · rw [hf] at hok
      cases hok

end Outputs

namespace OutputDir

/-- A directory that remembers what was asked for. -/
def Remembers (dir : String) (o : OutputDir) (before : List OutputFile) : Prop :=
  o.dir = dir ∧ ∀ f : OutputFile, Path.isPlain f.path = true →
    (Path.components (o.fullPath f.kind f.path) ∈ o.created ↔
      ∃ g ∈ before, Path.isPlain g.path = true ∧ g.location = f.location)

theorem remembers_start (tree : FileTree) (dir : String) : (start tree dir).Remembers dir [] :=
  ⟨rfl, fun f _ => by simp [start]⟩

/-- A directory refuses an output or tries to write it. -/
theorem filer_cases (f : OutputFile) (o : OutputDir) :
    (Path.isPlain f.path = false ∧
      filer f.kind f.path f.contents o = (.error (.invalidPath f.path), o)) ∨
    (Path.isPlain f.path = true ∧ Path.components (o.fullPath f.kind f.path) ∈ o.created ∧
      filer f.kind f.path f.contents o = (.error (.alreadyCreated f.path), o)) ∨
    Path.isPlain f.path = true ∧ Path.components (o.fullPath f.kind f.path) ∉ o.created ∧
      filer f.kind f.path f.contents o =
        ((o.tree.place (o.fullPath f.kind f.path) f.contents.toUTF8).1.mapError
          (.io (o.fullPath f.kind f.path)),
        { o with
          tree := (o.tree.place (o.fullPath f.kind f.path) f.contents.toUTF8).2
          created := o.created ++ [Path.components (o.fullPath f.kind f.path)] }) := by
  unfold filer
  by_cases hplain : Path.isPlain f.path = true
  · right
    rw [if_neg (by simp [hplain])]
    dsimp only
    by_cases hthere : Path.components (o.fullPath f.kind f.path) ∈ o.created
    · rw [if_pos (List.contains_iff_mem.mpr hthere)]
      exact .inl ⟨hplain, hthere, rfl⟩
    · rw [if_neg fun h => hthere (List.contains_iff_mem.mp h)]
      exact .inr ⟨hplain, hthere, rfl⟩
  · left
    rw [if_pos (by simpa using hplain)]
    exact ⟨by simpa using hplain, rfl⟩

theorem follows (dir : String) : filer.Follows OutputFile.location (Remembers dir) where
  outcome o before f h := by
    -- the path is refused, it is one of those created, or it is new
    rcases filer_cases f o with ⟨hplain, hf⟩ | ⟨hplain, hthere, hf⟩ | ⟨hplain, hnew, hf⟩
    · rw [hf, refusalAfter?, if_neg (by simp [hplain])]
      exact .inl rfl
    · rw [hf, refusalAfter?, if_pos hplain, if_pos ((h.2 f hplain).mp hthere)]
      exact .inl rfl
    · rw [hf, refusalAfter?, if_pos hplain, if_neg fun hshared => hnew ((h.2 f hplain).mpr hshared)]
      dsimp only
      cases (o.tree.place (o.fullPath f.kind f.path) f.contents.toUTF8).1 with
      | ok => exact .inl rfl
      | error e => exact .inr ⟨_, e, rfl⟩
  remembers o before f h := by
    -- what the outputs before say of a location, with this one among them
    have hknown : ∀ g : OutputFile, Path.isPlain g.path = true →
        (Path.components (o.fullPath g.kind g.path) ∈ o.created ∨
          Path.isPlain f.path = true ∧ f.location = g.location ↔
          ∃ g' ∈ before ++ [f], Path.isPlain g'.path = true ∧ g'.location = g.location) :=
      fun g hg => by rw [exists_mem_append_iff, h.2 g hg]
    rcases filer_cases f o with ⟨hplain, hf⟩ | ⟨hplain, hthere, hf⟩ | ⟨hplain, hnew, hf⟩
    · rw [hf]
      refine ⟨h.1, fun g hg => ?_⟩
      rw [← hknown g hg]
      simp [hplain]
    · rw [hf]
      refine ⟨h.1, fun g hg => ?_⟩
      rw [← hknown g hg]
      refine ⟨.inl, fun hg => hg.elim id fun hshared => ?_⟩
      rwa [← (components_fullPath_eq_iff o hplain ‹_›).mpr hshared.2]
    · rw [hf]
      refine ⟨h.1, fun g hg => ?_⟩
      rw [← hknown g hg]
      show Path.components (o.fullPath g.kind g.path) ∈ o.created ++ [_] ↔ _
      rw [List.mem_append, List.mem_singleton, eq_comm, components_fullPath_eq_iff o hplain hg]
      simp [hplain]

/-- Everything that was created is known, no two of it share a location, and each of it still holds
    what it was created with. -/
def Holds (s : OutputDir × List OutputFile) : Prop :=
  (s.2.map (·.location)).Nodup ∧ ∀ f ∈ s.2, Path.isPlain f.path = true ∧
    Path.components (s.1.fullPath f.kind f.path) ∈ s.1.created ∧
    s.1.tree.find? (s.1.fullPath f.kind f.path) = some (.file f.contents.toUTF8)

/-- An output that is written leaves those alone that were created before. -/
theorem holds_place {f : OutputFile} {o : OutputDir} {log : List OutputFile} (h : Holds (o, log))
    (hplain : Path.isPlain f.path = true)
    (hnew : Path.components (o.fullPath f.kind f.path) ∉ o.created) :
    Holds ({ o with
      tree := (o.tree.place (o.fullPath f.kind f.path) f.contents.toUTF8).2
      created := o.created ++ [Path.components (o.fullPath f.kind f.path)] }, log) := by
  refine ⟨h.1, fun g hg => ?_⟩
  obtain ⟨hgplain, hthere, hfind⟩ := h.2 g hg
  have hkeeps := (FileTree.place_cases o.tree (o.fullPath f.kind f.path) f.contents.toUTF8).1
  refine ⟨hgplain, List.mem_append_left _ hthere, hkeeps.find? hfind fun hplace => hnew ?_⟩
  have hlocation := location_eq_of_placeOf_eq o o.tree hgplain hplain hplace
  rwa [← (components_fullPath_eq_iff o hgplain hplain).mpr hlocation]

theorem holds_filer (f : OutputFile) (s : OutputDir × List OutputFile) (h : Holds s) :
    Holds (filer.recording f.kind f.path f.contents s).2 := by
  obtain ⟨o, log⟩ := s
  unfold Filer.recording
  rcases filer_cases f o with ⟨_, hf⟩ | ⟨_, _, hf⟩ | ⟨hplain, hnew, hf⟩
  · rwa [hf]
  · rwa [hf]
  · have hplace := holds_place h hplain hnew
    rw [hf]
    dsimp only
    -- the location counts as taken even if nothing could be written there
    cases houtcome : (o.tree.place (o.fullPath f.kind f.path) f.contents.toUTF8).1 with
    | error e => exact hplace
    | ok =>
      have hfind := (FileTree.place_cases o.tree (o.fullPath f.kind f.path) f.contents.toUTF8).2
        houtcome
      -- an output of the log at this location would have created the path
      have hfirst : ∀ g ∈ log, f.location ≠ g.location := by
        intro g hg heq
        obtain ⟨hgplain, hthere, _⟩ := h.2 g hg
        exact hnew ((components_fullPath_eq_iff o hplain hgplain).mpr heq ▸ hthere)
      constructor
      · show ((log ++ [f]).map (·.location)).Nodup
        rw [List.map_append, List.map_singleton]
        refine h.1.append (List.nodup_singleton _) (List.disjoint_singleton.mpr fun hmem => ?_)
        obtain ⟨g, hg, heq⟩ := List.mem_map.mp hmem
        exact hfirst g hg heq.symm
      · refine List.forall_mem_append.mpr ⟨hplace.2, List.forall_mem_singleton.mpr ⟨hplain, ?_, hfind⟩⟩
        exact List.mem_append_right _ (List.mem_singleton_self _)

end OutputDir

/-! ## Calls of both filers -/

theorem Outputs.eq_of_refused {f : OutputFile} {o o' : Outputs} {e : OutputError}
    (h : filer f.kind f.path f.contents o = (.error e, o')) : o' = o := by
  rcases filer_cases f.kind f.path f.contents o with ⟨_, he⟩ | ⟨_, hok⟩
  · rw [he] at h
    cases h
    rfl
  · rw [hok] at h
    cases h

theorem OutputDir.eq_of_refused {f : OutputFile} {o o' : OutputDir} {e : OutputError}
    (h : filer f.kind f.path f.contents o = (.error e, o')) (hio : ¬IsIoFailure (.error e)) :
    o' = o := by
  rcases filer_cases f o with ⟨_, hf⟩ | ⟨_, _, hf⟩ | ⟨_, _, hf⟩
  · rw [hf] at h
    cases h
    rfl
  · rw [hf] at h
    cases h
    rfl
  · rw [hf] at h
    obtain ⟨houtcome, _⟩ := Prod.mk.inj h
    cases hplace : (o.tree.place (o.fullPath f.kind f.path) f.contents.toUTF8).1 with
    | ok =>
      rw [hplace] at houtcome
      cases houtcome
    | error cause =>
      rw [hplace] at houtcome
      exact absurd ⟨_, cause, houtcome.symm⟩ hio

/-- Any calls of the filer in memory, and the same calls of the filer that writes into a directory.
    In memory a call is answered by the rule that takes outputs for one if their paths are the same
    text, in a directory, as long as the file system makes no call fail, by the rule that takes them
    for one if their paths have the same components.  So both answer all calls alike, with the same
    errors, exactly if no plain path is spelled in two ways.  In both every output is created once
    and stays as it was created first, in memory under the text of its path, in the directory under
    its components, and a call that is refused changes nothing. -/
theorem outcomes_of_calls (calls : List OutputFile) (tree : FileTree) (dir : String) :
    let memory := Outputs.filer.recording.createAll calls (.empty [], [])
    let directory := OutputDir.filer.recording.createAll calls (.start tree dir, [])
    (memory.1 = verdictsAfter OutputFile.key [] calls ∧
      ((∀ outcome ∈ directory.1, ¬IsIoFailure outcome) →
        directory.1 = verdictsAfter OutputFile.location [] calls ∧
        (memory.1 = directory.1 ↔ SpelledAlike calls))) ∧
    ((memory.2.2.map (·.key)).Nodup ∧
      ∀ f ∈ memory.2.2, memory.2.1.get? f.kind f.path = some f.contents) ∧
    ((directory.2.2.map (·.location)).Nodup ∧
      ∀ f ∈ directory.2.2, directory.2.1.tree.find? (directory.2.1.fullPath f.kind f.path) =
        some (.file f.contents.toUTF8)) ∧
    (∀ (f : OutputFile) o e o', Outputs.filer f.kind f.path f.contents o = (.error e, o') → o' = o) ∧
    ∀ (f : OutputFile) o e o', OutputDir.filer f.kind f.path f.contents o = (.error e, o') →
      ¬IsIoFailure (.error e) → o' = o := by
  intro memory directory
  have hmemory : memory.1 = verdictsAfter OutputFile.key [] calls := by
    refine Outputs.follows.recording.outcomes calls Outputs.remembers_empty ?_
    refine Filer.forall_outcomes (P := fun outcome => ¬IsIoFailure outcome) (fun f s => ?_) calls _
    rw [Filer.outcome_recording]
    exact Outputs.not_isIoFailure_filer f s.1
  have hrecorded : Outputs.Recorded memory.2 :=
    Filer.createAll_preserves Outputs.recorded_filer calls ⟨rfl, Outputs.distinct_empty []⟩
  have hholds : OutputDir.Holds directory.2 :=
    Filer.createAll_preserves OutputDir.holds_filer calls
      ⟨List.nodup_nil, fun f hf => absurd hf List.not_mem_nil⟩
  refine ⟨⟨hmemory, fun hio => ?_⟩, ⟨?_, fun f hf => ?_⟩, ⟨hholds.1, fun f hf => (hholds.2 f hf).2.2⟩,
    fun f o e o' => Outputs.eq_of_refused, fun f o e o' => OutputDir.eq_of_refused⟩
  · have hdirectory : directory.1 = verdictsAfter OutputFile.location [] calls :=
      (OutputDir.follows dir).recording.outcomes calls (OutputDir.remembers_start tree dir) hio
    refine ⟨hdirectory, ?_⟩
    rw [hmemory, hdirectory]
    exact verdictsAfter_eq_iff fun f hf => absurd hf List.not_mem_nil
  · rw [← hrecorded.1]
    exact hrecorded.2
  · rw [← hrecorded.1] at hf
    exact (Outputs.get?_eq_some_iff hrecorded.2).mpr hf

/-! ### One path asked for again -/

/-- A path that is asked for twice as a source and once as a resource, and one that leads away. -/
def repeatedCalls : List OutputFile :=
  [⟨.source, "a/b", "1"⟩, ⟨.source, "a/b", "2"⟩, ⟨.resource, "a/b", "3"⟩, ⟨.source, "../x", "4"⟩]

/-- What comes of them. -/
def repeatedOutcomes : List (Except OutputError Unit) :=
  [.ok (), .error (.alreadyCreated "a/b"), .ok (), .error (.invalidPath "../x")]

theorem outcomes_directory_repeatedCalls :
    (OutputDir.filer.recording.createAll repeatedCalls (.start .empty "out", [])).1 =
      repeatedOutcomes := by
  decide +kernel

theorem not_isIoFailure_repeatedOutcomes : ∀ outcome ∈ repeatedOutcomes, ¬IsIoFailure outcome := by
  rintro outcome houtcome ⟨path, cause, rfl⟩
  simp [repeatedOutcomes] at houtcome

theorem spelledAlike_repeatedCalls : SpelledAlike repeatedCalls := by
  decide +kernel

theorem outcomes_of_calls_repeated :
    (∀ outcome ∈ (OutputDir.filer.recording.createAll repeatedCalls (.start .empty "out", [])).1,
      ¬IsIoFailure outcome) ∧
    (Outputs.filer.recording.createAll repeatedCalls (.empty [], [])).1 = repeatedOutcomes ∧
    (∃ e, Outputs.filer .source "../x" "4" (.empty []) = (.error e, .empty []) ∧
      ¬IsIoFailure (.error e)) ∧
    (Outputs.filer .source "../x" "4" (.empty [])).2 = .empty [] ∧
    (OutputDir.filer .source "../x" "4" (.start .empty "out")).2 = .start .empty "out" := by
  have hio : ∀ outcome ∈ (OutputDir.filer.recording.createAll repeatedCalls
      (.start .empty "out", [])).1, ¬IsIoFailure outcome :=
    outcomes_directory_repeatedCalls ▸ not_isIoFailure_repeatedOutcomes
  obtain ⟨⟨_, hagree⟩, _, _, hmemory, hdirectory⟩ := outcomes_of_calls repeatedCalls .empty "out"
  have hinvalid : ¬IsIoFailure (.error (.invalidPath "../x")) :=
    not_isIoFailure_repeatedOutcomes _ (by simp [repeatedOutcomes])
  refine ⟨hio, ?_, ⟨.invalidPath "../x", rfl, hinvalid⟩, hmemory ⟨.source, "../x", "4"⟩ _ _ _ rfl,
    hdirectory ⟨.source, "../x", "4"⟩ _ _ _ rfl hinvalid⟩
  exact ((hagree hio).2.mpr spelledAlike_repeatedCalls).trans outcomes_directory_repeatedCalls

/-- A path with a repeated slash is created beside the path without it in memory, and refused in a
    directory. -/
theorem outcomes_ne_of_spellings :
    (Outputs.filer.createAll [⟨.source, "a/b", "1"⟩, ⟨.source, "a//b", "2"⟩] (.empty [])).1 =
      [.ok (), .ok ()] ∧
    (OutputDir.filer.createAll [⟨.source, "a/b", "1"⟩, ⟨.source, "a//b", "2"⟩]
      (.start .empty "out")).1 = [.ok (), .error (.alreadyCreated "a//b")] := by
  decide +kernel

end ActorIdl
