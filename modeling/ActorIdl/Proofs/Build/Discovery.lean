import ActorIdl.Discovery
import ActorIdl.Proofs.Lists
import Mathlib.Data.List.Perm.Lattice
/-! # Discovered sources

    The sources that are found for the inputs of a build are sorted by path and each path is kept
    once, so the order of the inputs decides nothing about the paths.  It does decide about the
    package of a source: what one input finds as a file of its own, or close below it, another one
    finds deeper below it, and of such sources the one of the first input is kept. -/

namespace ActorIdl

/-! ## The order of paths -/

namespace Path

namespace Component

theorem le_total (a b : Component) : (a.le b || b.le a) = true := by
  cases a <;> cases b <;> simp [Component.le, rank, String.le_total]

theorem le_antisymm {a b : Component} (hab : a.le b = true) (hba : b.le a = true) : a = b := by
  cases a <;> cases b <;> simp_all [Component.le, rank]
  exact String.le_antisymm hab hba

theorem le_trans {a b c : Component} (hab : a.le b = true) (hbc : b.le c = true) :
    a.le c = true := by
  cases a <;> cases b <;> cases c <;> simp_all [Component.le, rank]
  exact String.le_trans hab hbc

end Component

theorem componentsLe_total (as bs : List Component) :
    (componentsLe as bs || componentsLe bs as) = true := by
  induction as generalizing bs with
  | nil => rfl
  | cons a as ih =>
    cases bs with
    | nil => rfl
    | cons b bs =>
      by_cases hab : a = b
      · subst hab
        simpa [componentsLe] using ih bs
      · simpa [componentsLe, hab, Ne.symm hab] using a.le_total b

theorem componentsLe_antisymm {as bs : List Component} (hab : componentsLe as bs = true)
    (hba : componentsLe bs as = true) : as = bs := by
  induction as generalizing bs with
  | nil =>
    cases bs with
    | nil => rfl
    | cons b bs => cases hba
  | cons a as ih =>
    cases bs with
    | nil => cases hab
    | cons b bs =>
      by_cases heq : a = b
      · subst heq
        rw [componentsLe, if_pos rfl] at hab hba
        rw [ih hab hba]
      · rw [componentsLe, if_neg heq] at hab
        rw [componentsLe, if_neg (Ne.symm heq)] at hba
        exact absurd (Component.le_antisymm hab hba) heq

theorem componentsLe_trans {as bs cs : List Component} (hab : componentsLe as bs = true)
    (hbc : componentsLe bs cs = true) : componentsLe as cs = true := by
  induction as generalizing bs cs with
  | nil => rfl
  | cons a as ih =>
    cases bs with
    | nil => cases hab
    | cons b bs =>
      cases cs with
      | nil => cases hbc
      | cons c cs =>
        rw [componentsLe] at hab hbc ⊢
        by_cases heq : a = b
        · subst heq
          rw [if_pos rfl] at hab
          split at hbc
          · rename_i hc
            rw [if_pos hc]
            exact ih hab hbc
          · rename_i hc
            rw [if_neg hc]
            exact hbc
        · rw [if_neg heq] at hab
          split at hbc
          · rename_i hc
            subst hc
            rw [if_neg heq]
            exact hab
          · -- a path that comes back to the first component would make all three the same
            have hac : a ≠ c := by
              rintro rfl
              exact heq (Component.le_antisymm hab hbc)
            rw [if_neg hac]
            exact Component.le_trans hab hbc

theorem le_total (a b : String) : (le a b || le b a) = true :=
  componentsLe_total (components a) (components b)

theorem le_trans (a b c : String) (hab : le a b = true) (hbc : le b c = true) : le a c = true :=
  componentsLe_trans hab hbc

end Path

/-! ## Files by their paths -/

namespace InputFile

/-- What the path of a file is compared by. -/
def steps (f : InputFile) : List Path.Component := Path.components f.path

/-- What a file is to a build: files at one path with one package are the same. -/
def entry (f : InputFile) : List Path.Component × Option String := (f.steps, f.packageHint)

/-- The first file of a list with a path. -/
def firstAt (files : List InputFile) (path : List Path.Component) : Option InputFile :=
  files.find? (·.steps = path)

variable {files : List InputFile} {path : List Path.Component} {f g : InputFile}

theorem firstAt_eq_head? (files : List InputFile) (path : List Path.Component) :
    firstAt files path = (files.filter (·.steps = path)).head? := List.head?_filter.symm

theorem steps_of_firstAt (h : firstAt files path = some f) : f.steps = path := by
  simpa using List.find?_some h

theorem mem_of_firstAt (h : firstAt files path = some f) : f ∈ files := List.mem_of_find?_eq_some h

theorem isSome_firstAt : (firstAt files path).isSome = true ↔ path ∈ files.map steps := by
  simp [firstAt, List.mem_map]

theorem firstAt_of_mem (hnodup : (files.map steps).Nodup) (hf : f ∈ files) :
    firstAt files f.steps = some f := by
  obtain ⟨g, hg⟩ := Option.isSome_iff_exists.mp
    (isSome_firstAt.mpr (List.mem_map_of_mem (f := steps) hf))
  rw [hg, List.inj_on_of_nodup_map hnodup (mem_of_firstAt hg) hf (steps_of_firstAt hg)]

theorem firstAt_append (files more : List InputFile) (path : List Path.Component) :
    firstAt (files ++ more) path = (firstAt files path).or (firstAt more path) := List.find?_append

/-! ### Sorting -/

/-- The order of files by path. -/
def le (f g : InputFile) : Bool := Path.le f.path g.path

theorem le_total (f g : InputFile) : (f.le g || g.le f) = true := Path.le_total f.path g.path

theorem le_trans (f g h : InputFile) (hfg : f.le g = true) (hgh : g.le h = true) :
    f.le h = true := Path.le_trans f.path g.path h.path hfg hgh

theorem steps_eq_of_le (hfg : f.le g = true) (hgf : g.le f = true) : f.steps = g.steps :=
  Path.componentsLe_antisymm hfg hgf

theorem le_of_steps_eq (h : f.steps = g.steps) : f.le g = true := by
  have htotal : (Path.componentsLe f.steps g.steps || Path.componentsLe g.steps f.steps) = true :=
    le_total f g
  rw [h, Bool.or_self] at htotal
  show Path.componentsLe f.steps g.steps = true
  rw [h, htotal]

theorem pairwise_mergeSort (files : List InputFile) :
    (files.mergeSort le).Pairwise fun f g => f.le g = true :=
  List.pairwise_mergeSort le_trans le_total files

/-- Files with one path keep their order. -/
theorem filter_mergeSort (files : List InputFile) (path : List Path.Component) :
    (files.mergeSort le).filter (·.steps = path) = files.filter (·.steps = path) := by
  have hsame : (files.filter (·.steps = path)).Pairwise fun f g => f.le g = true := by
    refine List.pairwise_of_forall_mem_list fun f hf g hg => le_of_steps_eq ?_
    have hf : f.steps = path := by simpa using (List.mem_filter.mp hf).2
    have hg : g.steps = path := by simpa using (List.mem_filter.mp hg).2
    rw [hf, hg]
  have hsub : (files.filter (·.steps = path)).Sublist (files.mergeSort le) :=
    List.sublist_mergeSort le_trans le_total hsame List.filter_sublist
  have hfiltered := hsub.filter (·.steps = path)
  rw [List.filter_filter] at hfiltered
  simp only [Bool.and_self] at hfiltered
  have hlength := ((List.mergeSort_perm files le).filter (·.steps = path)).length_eq
  exact (hfiltered.eq_of_length hlength.symm).symm

theorem firstAt_mergeSort (files : List InputFile) (path : List Path.Component) :
    firstAt (files.mergeSort le) path = firstAt files path := by
  rw [firstAt_eq_head?, firstAt_eq_head?, filter_mergeSort]

/-! ### Repeats -/

theorem sublist_dropRepeated (files : List InputFile) : (dropRepeated files).Sublist files := by
  fun_induction dropRepeated files with
  | case1 a b rest _ ih => exact ih.trans ((List.Sublist.refl rest).cons b |>.cons_cons a)
  | case2 a b rest _ ih => exact ih.cons_cons a
  | case3 short => exact List.Sublist.refl _

/-- A file that is dropped stands behind another one with its path. -/
theorem firstAt_dropRepeated (files : List InputFile) (path : List Path.Component) :
    firstAt (dropRepeated files) path = firstAt files path := by
  fun_induction dropRepeated files with
  | case1 a b rest hab ih =>
    rw [ih]
    by_cases ha : a.steps = path
    · simp [firstAt, ha]
    · have hb : b.steps ≠ path := fun hb => ha (hab.trans hb)
      simp [firstAt, ha, hb]
  | case2 a b rest hab ih =>
    by_cases ha : a.steps = path
    · simp [firstAt, ha]
    · simpa [firstAt, ha] using ih
  | case3 short => rfl

/-- Among sorted files every path is kept once. -/
theorem pairwise_dropRepeated (h : files.Pairwise fun f g => f.le g = true) :
    (dropRepeated files).Pairwise fun f g => f.le g = true ∧ f.steps ≠ g.steps := by
  fun_induction dropRepeated files with
  | case1 a b rest hab ih =>
    exact ih (h.sublist ((List.Sublist.refl rest).cons b |>.cons_cons a))
  | case2 a b rest hab ih =>
    obtain ⟨ha, hrest⟩ := List.pairwise_cons.mp h
    refine List.pairwise_cons.mpr ⟨fun f hf => ?_, ih hrest⟩
    have hf := (sublist_dropRepeated (b :: rest)).subset hf
    refine ⟨ha f hf, fun heq => hab ?_⟩
    -- `b` lies between `a` and `f`, so all three have one path
    have hbf : b.le f = true := by
      rcases List.mem_cons.mp hf with rfl | hf
      · exact le_of_steps_eq rfl
      · exact (List.pairwise_cons.mp hrest).1 f hf
    exact steps_eq_of_le (ha b List.mem_cons_self) (le_trans b f a hbf (le_of_steps_eq heq.symm))
  | case3 short hshort =>
    match short, hshort with
    | [], _ => exact List.Pairwise.nil
    | [_], _ => exact List.pairwise_singleton _ _
    | a :: b :: rest, hshort => exact absurd rfl (hshort a b rest)

end InputFile

/-! ## The sources of inputs -/

/-- What an input finds. -/
def FileTree.Reaches (tree : FileTree) (input : String) (f : InputFile) : Prop :=
  ∃ files, sourcesOf tree input = .ok files ∧ f ∈ files

/-- Whether the sources of an input can be listed: it is there, and the name of a directory can be
    part of a pattern. -/
def FileTree.CanSearch (tree : FileTree) (input : String) : Prop :=
  tree.contains input = true ∧
    (tree.isDir input = true → ∃ paths, tree.glob (sourcePattern input) = .ok paths)

section

variable {tree : FileTree} {input : String} {f g : InputFile}

theorem FileTree.contains_of_isDir (h : tree.isDir input = true) : tree.contains input = true := by
  unfold isDir at h
  unfold contains
  split at h
  · rename_i hdir
    rw [hdir]
    rfl
  · cases h

theorem exists_sourcesOf_iff :
    (∃ files, sourcesOf tree input = .ok files) ↔ tree.CanSearch input := by
  unfold sourcesOf FileTree.CanSearch
  by_cases hdir : tree.isDir input = true
  · rw [if_pos hdir]
    cases tree.glob (sourcePattern input) with
    | error e => simp [hdir]
    | ok paths => simp [FileTree.contains_of_isDir hdir]
  · rw [if_neg hdir]
    by_cases hfile : tree.contains input = true
    · simp [hfile, hdir]
    · simp [hfile]

/-- The package of what is found depends on the input and the path. -/
theorem hint_of_reaches (h : tree.Reaches input f) :
    f.packageHint = if tree.isDir input then Path.packageOf? input f.path else none := by
  obtain ⟨files, hfiles, hf⟩ := h
  unfold sourcesOf at hfiles
  split at hfiles
  · -- a directory gives each file a package, a file by itself has none
    rename_i hdir
    rw [if_pos hdir]
    split at hfiles
    · cases hfiles
    · cases hfiles
      obtain ⟨path, _, rfl⟩ := List.mem_map.mp hf
      rfl
  · rename_i hdir
    rw [if_neg hdir]
    split at hfiles
    · cases hfiles
      rw [List.mem_singleton.mp hf]
    · cases hfiles

theorem hint_eq_of_reaches (hf : tree.Reaches input f) (hg : tree.Reaches input g)
    (h : f.steps = g.steps) : f.packageHint = g.packageHint := by
  have hpath : Path.components f.path = Path.components g.path := h
  rw [hint_of_reaches hf, hint_of_reaches hg, Path.packageOf?, Path.packageOf?, hpath]

end

/-! ## What is discovered -/

section

variable {tree : FileTree} {inputs inputs' : List String} {files files' : List InputFile}

theorem discover_eq_ok_iff :
    discover tree inputs = .ok files ↔ ∃ found,
      List.Forall₂ (fun input files => sourcesOf tree input = .ok files) inputs found ∧
      files = dropRepeated (found.flatten.mergeSort InputFile.le) := by
  unfold discover
  rw [bind_eq_ok_iff]
  simp only [mapM_eq_ok_iff]
  exact exists_congr fun found => and_congr_right fun _ =>
    ⟨fun h => (Except.ok.inj h).symm, fun h => h ▸ rfl⟩

theorem exists_discover_iff :
    (∃ files, discover tree inputs = .ok files) ↔ ∀ input ∈ inputs, tree.CanSearch input := by
  simp only [discover_eq_ok_iff, ← exists_sourcesOf_iff]
  rw [← exists_forall₂_iff]
  exact ⟨fun ⟨_, found, h, _⟩ => ⟨found, h⟩, fun ⟨found, h⟩ => ⟨_, found, h, rfl⟩⟩

/-- A file with its path and package as the first of the inputs gives them that finds its path. -/
def FileTree.FirstReached (tree : FileTree) (inputs : List String) (f : InputFile) : Prop :=
  ∃ before input after, inputs = before ++ input :: after ∧ tree.Reaches input f ∧
    ∀ i ∈ before, ∀ g, tree.Reaches i g → g.steps ≠ f.steps

theorem firstReached_of_firstAt {found : List (List InputFile)}
    (hfound : List.Forall₂ (fun input files => sourcesOf tree input = .ok files) inputs found)
    {path : List Path.Component} {f : InputFile}
    (h : InputFile.firstAt found.flatten path = some f) : tree.FirstReached inputs f := by
  -- input by input, until one has a file at the path
  induction hfound with
  | nil => cases h
  | @cons input files inputs found hinput _ ih =>
    rw [List.flatten_cons, InputFile.firstAt_append] at h
    cases hhere : InputFile.firstAt files path with
    | some f' =>
      rw [hhere, Option.some_or] at h
      cases h
      exact ⟨[], input, inputs, rfl, ⟨files, hinput, InputFile.mem_of_firstAt hhere⟩,
        fun i hi => absurd hi List.not_mem_nil⟩
    | none =>
      rw [hhere, Option.none_or] at h
      obtain ⟨before, input', after, rfl, hreaches, hbefore⟩ := ih h
      refine ⟨input :: before, input', after, rfl, hreaches, List.forall_mem_cons.mpr ⟨?_, hbefore⟩⟩
      -- this input reaches no file at the same path, or it would have been the first
      intro g hg heq
      obtain ⟨files', hfiles', hmem⟩ := hg
      rw [hinput] at hfiles'
      cases hfiles'
      have hsome : (InputFile.firstAt files path).isSome = true := by
        rw [InputFile.isSome_firstAt, ← InputFile.steps_of_firstAt h, ← heq]
        exact List.mem_map_of_mem hmem
      rw [hhere] at hsome
      cases hsome

theorem pairwise_discover (h : discover tree inputs = .ok files) :
    files.Pairwise fun f g => f.le g = true ∧ f.steps ≠ g.steps := by
  obtain ⟨found, _, rfl⟩ := discover_eq_ok_iff.mp h
  exact InputFile.pairwise_dropRepeated (InputFile.pairwise_mergeSort _)

theorem nodup_steps_discover (h : discover tree inputs = .ok files) :
    (files.map (·.steps)).Nodup :=
  List.pairwise_map.mpr ((pairwise_discover h).imp fun hfg => hfg.2)

theorem firstReached_of_mem (h : discover tree inputs = .ok files) {f : InputFile}
    (hf : f ∈ files) : tree.FirstReached inputs f := by
  have hfirst : InputFile.firstAt files f.steps = some f :=
    InputFile.firstAt_of_mem (nodup_steps_discover h) hf
  obtain ⟨found, hfound, rfl⟩ := discover_eq_ok_iff.mp h
  rw [InputFile.firstAt_dropRepeated, InputFile.firstAt_mergeSort] at hfirst
  exact firstReached_of_firstAt hfound hfirst

theorem FileTree.FirstReached.exists_reaches {f : InputFile} (h : tree.FirstReached inputs f) :
    ∃ input ∈ inputs, tree.Reaches input f := by
  obtain ⟨before, input, after, rfl, hreaches, _⟩ := h
  exact ⟨input, List.mem_append_right _ List.mem_cons_self, hreaches⟩

theorem mem_steps_discover_iff (h : discover tree inputs = .ok files) (path : List Path.Component) :
    path ∈ files.map (·.steps) ↔ ∃ input ∈ inputs, ∃ f, tree.Reaches input f ∧ f.steps = path := by
  constructor
  · intro hpath
    obtain ⟨f, hf, rfl⟩ := List.mem_map.mp hpath
    obtain ⟨input, hinput, hreaches⟩ := (firstReached_of_mem h hf).exists_reaches
    exact ⟨input, hinput, f, hreaches, rfl⟩
  · rintro ⟨input, hinput, f, ⟨mine, hmine, hf⟩, rfl⟩
    obtain ⟨found, hfound, rfl⟩ := discover_eq_ok_iff.mp h
    rw [← InputFile.isSome_firstAt, InputFile.firstAt_dropRepeated, InputFile.firstAt_mergeSort,
      InputFile.isSome_firstAt]
    obtain ⟨files, hfiles, hlisted⟩ := exists_mem_of_forall₂ hfound hinput
    rw [hmine] at hlisted
    cases hlisted
    exact List.mem_map_of_mem (List.mem_flatten_of_mem hfiles hf)

/-- The paths that are found do not depend on the order of the inputs. -/
theorem steps_discover_of_perm (h : discover tree inputs = .ok files)
    (h' : discover tree inputs' = .ok files') (hperm : inputs'.Perm inputs) :
    files'.map (·.steps) = files.map (·.steps) := by
  refine List.Perm.eq_of_pairwise (fun a b _ _ => Path.componentsLe_antisymm)
    (List.pairwise_map.mpr ((pairwise_discover h').imp fun hfg => hfg.1))
    (List.pairwise_map.mpr ((pairwise_discover h).imp fun hfg => hfg.1)) ?_
  rw [List.perm_ext_iff_of_nodup (nodup_steps_discover h') (nodup_steps_discover h)]
  intro path
  rw [mem_steps_discover_iff h, mem_steps_discover_iff h']
  simp only [hperm.mem_iff]

/-- No path is found through two inputs with different packages. -/
def FileTree.AgreeOn (tree : FileTree) (inputs : List String) : Prop :=
  ∀ a ∈ inputs, ∀ b ∈ inputs, ∀ f g, tree.Reaches a f → tree.Reaches b g → f.steps = g.steps →
    f.packageHint = g.packageHint

theorem map_entry_discover_of_agreeOn (hagree : tree.AgreeOn inputs)
    (h : discover tree inputs = .ok files) (h' : discover tree inputs' = .ok files')
    (hperm : inputs'.Perm inputs) :
    files'.map InputFile.entry = files.map InputFile.entry := by
  have hsteps := steps_discover_of_perm h h' hperm
  have hlength : files'.length = files.length := by simpa using congrArg List.length hsteps
  refine List.ext_getElem (by simpa using hlength) fun i hi hi' => ?_
  rw [List.length_map] at hi hi'
  have hstep : files'[i].steps = files[i].steps := by
    have hnth := congrArg (·[i]?) hsteps
    simpa [hi, hi'] using hnth
  obtain ⟨a, ha, hfa⟩ := (firstReached_of_mem h' (List.getElem_mem hi)).exists_reaches
  obtain ⟨b, hb, hfb⟩ := (firstReached_of_mem h (List.getElem_mem hi')).exists_reaches
  have hhint := hagree a (hperm.mem_iff.mp ha) b hb _ _ hfa hfb hstep
  rw [List.getElem_map, List.getElem_map, InputFile.entry, InputFile.entry, hstep, hhint]

/-- The first input decides about the package of whatever it finds. -/
theorem mem_entries_of_first {input : String} {f : InputFile}
    (h : discover tree (input :: inputs) = .ok files) (hf : tree.Reaches input f) :
    f.entry ∈ files.map InputFile.entry := by
  have hpath : f.steps ∈ files.map (·.steps) :=
    (mem_steps_discover_iff h _).mpr ⟨input, List.mem_cons_self, f, hf, rfl⟩
  obtain ⟨g, hg, hgf⟩ := List.mem_map.mp hpath
  obtain ⟨before, input', after, hinputs, hreaches, hbefore⟩ := firstReached_of_mem h hg
  cases before with
  | nil =>
    cases hinputs
    rw [InputFile.entry, ← hgf, ← hint_eq_of_reaches hreaches hf hgf]
    exact List.mem_map_of_mem hg
  | cons i before =>
    cases hinputs
    exact absurd hgf.symm (hbefore input List.mem_cons_self f hf)

theorem agreeOn_of_map_entry_eq (h : discover tree inputs = .ok files)
    (hsame : ∀ inputs' files', inputs'.Perm inputs → discover tree inputs' = .ok files' →
      files'.map InputFile.entry = files.map InputFile.entry) : tree.AgreeOn inputs := by
  intro a ha b hb f g hf hg heq
  -- with the input put first its file is the one that is kept, and the entries are the same
  have hentry : ∀ input ∈ inputs, ∀ f, tree.Reaches input f →
      f.entry ∈ files.map InputFile.entry := by
    intro input hinput f hf
    have hperm : (input :: inputs.erase input).Perm inputs := (List.perm_cons_erase hinput).symm
    have hsearch := exists_discover_iff.mp ⟨files, h⟩
    obtain ⟨files', h'⟩ := exists_discover_iff.mpr fun i hi => hsearch i (hperm.mem_iff.mp hi)
    rw [← hsame _ _ hperm h']
    exact mem_entries_of_first h' hf
  obtain ⟨f', hf', hfentry⟩ := List.mem_map.mp (hentry a ha f hf)
  obtain ⟨g', hg', hgentry⟩ := List.mem_map.mp (hentry b hb g hg)
  obtain ⟨hfsteps, hfhint⟩ := Prod.mk.inj hfentry
  obtain ⟨hgsteps, hghint⟩ := Prod.mk.inj hgentry
  have hsteps : f'.steps = g'.steps := hfsteps.trans (heq.trans hgsteps.symm)
  rw [← hfhint, ← hghint, List.inj_on_of_nodup_map (nodup_steps_discover h) hf' hg' hsteps]

end

/-- The sources of inputs are found exactly if every input is there and every directory among them
    can be searched.  They are sorted by path, no path is there twice, and their paths are those
    that some input finds, each with the package that the first input implies that finds it.  So
    the inputs can be listed in any order as far as the paths go, and as far as the packages go
    exactly if no two of the inputs find one path with different packages. -/
theorem files_of_reordered (tree : FileTree) (inputs : List String) :
    ((∃ files, discover tree inputs = .ok files) ↔ ∀ input ∈ inputs, tree.CanSearch input) ∧
    ∀ files, discover tree inputs = .ok files →
      (files.Pairwise fun f g => Path.le f.path g.path = true ∧ f.steps ≠ g.steps) ∧
      (∀ path, path ∈ files.map (·.steps) ↔
        ∃ input ∈ inputs, ∃ f, tree.Reaches input f ∧ f.steps = path) ∧
      (∀ f ∈ files, tree.FirstReached inputs f) ∧
      (∀ inputs', inputs'.Perm inputs → ∃ files', discover tree inputs' = .ok files' ∧
        files'.map (·.steps) = files.map (·.steps)) ∧
      ((∀ inputs' files', inputs'.Perm inputs → discover tree inputs' = .ok files' →
          files'.map InputFile.entry = files.map InputFile.entry) ↔ tree.AgreeOn inputs) := by
  refine ⟨exists_discover_iff, fun files h => ⟨pairwise_discover h, mem_steps_discover_iff h,
    fun f hf => firstReached_of_mem h hf, fun inputs' hperm => ?_, agreeOn_of_map_entry_eq h,
    fun hagree inputs' files' hperm h' => map_entry_discover_of_agreeOn hagree h h' hperm⟩⟩
  have hsearch := exists_discover_iff.mp ⟨files, h⟩
  obtain ⟨files', h'⟩ := exists_discover_iff.mpr fun i hi => hsearch i (hperm.mem_iff.mp hi)
  exact ⟨files', h', steps_discover_of_perm h h' hperm⟩

/-! ## A source that two inputs find -/

/-- Of one file that two inputs find, what the first one says is kept. -/
theorem discover_pair {tree : FileTree} {a b : String} {f g : InputFile}
    (ha : sourcesOf tree a = .ok [f]) (hb : sourcesOf tree b = .ok [g]) (h : f.steps = g.steps) :
    discover tree [a, b] = .ok [f] := by
  refine discover_eq_ok_iff.mpr ⟨[[f], [g]], .cons ha (.cons hb .nil), ?_⟩
  have hsorted : [f, g].Pairwise fun f g => f.le g = true :=
    List.pairwise_pair.mpr (InputFile.le_of_steps_eq h)
  have hpath : Path.components f.path = Path.components g.path := h
  show [f] = dropRepeated ([f, g].mergeSort InputFile.le)
  rw [List.mergeSort_of_pairwise hsorted, dropRepeated, if_pos hpath, dropRepeated]
  simp

namespace FileTree

/-- A tree with one source two directories deep. -/
def nestedSource : FileTree :=
  ⟨[(["src"], .dir), (["src", "a"], .dir), (["src", "a", "X.orbit"], .file .empty)], []⟩

theorem sourcesOf_dir_nestedSource :
    sourcesOf nestedSource "src" = .ok [⟨"src/a/X.orbit", some "a"⟩] := by
  decide +kernel

theorem sourcesOf_file_nestedSource :
    sourcesOf nestedSource "src/a/X.orbit" = .ok [⟨"src/a/X.orbit", none⟩] := by
  decide +kernel

end FileTree

theorem files_of_reordered_nested :
    (["src/a/X.orbit", "src"].Perm ["src", "src/a/X.orbit"] ∧
      discover .nestedSource ["src", "src/a/X.orbit"] = .ok [⟨"src/a/X.orbit", some "a"⟩]) ∧
    (∃ files', discover .nestedSource ["src/a/X.orbit", "src"] = .ok files' ∧
      files'.map (·.steps) = [Path.components "src/a/X.orbit"]) ∧
    ¬FileTree.nestedSource.AgreeOn ["src", "src/a/X.orbit"] := by
  have hperm : ["src/a/X.orbit", "src"].Perm ["src", "src/a/X.orbit"] := .swap _ _ _
  have hfound := discover_pair FileTree.sourcesOf_dir_nestedSource
    FileTree.sourcesOf_file_nestedSource rfl
  have hswapped := discover_pair FileTree.sourcesOf_file_nestedSource
    FileTree.sourcesOf_dir_nestedSource rfl
  obtain ⟨_, _, _, hreordered, hagree⟩ := (files_of_reordered _ _).2 _ hfound
  refine ⟨⟨hperm, hfound⟩, hreordered _ hperm, fun h => ?_⟩
  have hsame := hagree.mpr h _ _ hperm hswapped
  cases hsame

/-- The package of a file that is named itself and lies in a directory that is searched depends on
    which of the two comes first. -/
theorem discover_ne_of_swapped :
    discover .nestedSource ["src", "src/a/X.orbit"] = .ok [⟨"src/a/X.orbit", some "a"⟩] ∧
    discover .nestedSource ["src/a/X.orbit", "src"] = .ok [⟨"src/a/X.orbit", none⟩] :=
  ⟨discover_pair FileTree.sourcesOf_dir_nestedSource FileTree.sourcesOf_file_nestedSource rfl,
    discover_pair FileTree.sourcesOf_file_nestedSource FileTree.sourcesOf_dir_nestedSource rfl⟩

end ActorIdl
