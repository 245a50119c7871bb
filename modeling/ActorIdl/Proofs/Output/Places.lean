import ActorIdl.Output.Directory
import ActorIdl.Proofs.Lists
import ActorIdl.Proofs.Text.Joining
/-! # The places of outputs

    Where a path leads depends on its components alone, however they are spelled.  The outputs of
    one kind are names below one directory, and the directories of the two kinds differ, so two
    outputs are written to one place exactly if they are of one kind and have the same components.
    Writing an output leaves everything else in the tree as it was, but for new directories. -/

namespace ActorIdl

namespace Path

variable {d p : String}

/-! ## Components of joined paths -/

/-- What a path begins with before its names. -/
def lead (path : String) : List Component :=
  if isAbsolute path then [.root] else if (parts path).head? = some "." then [.current] else []

/-- The components of a list of parts. -/
def innerOf (parts : List String) : List Component := parts.filterMap inner?

theorem innerOf_append (ps qs : List String) : innerOf (ps ++ qs) = innerOf ps ++ innerOf qs :=
  List.filterMap_append

theorem components_eq (path : String) : components path = lead path ++ innerOf (parts path) := by
  unfold components lead
  split
  · rfl
  · split
    · rename_i rest hparts
      rw [hparts]
      rfl
    · rename_i hdot
      cases hparts : parts path with
      | nil => rfl
      | cons head rest =>
        have hne : head ≠ "." := fun h => hdot rest (by rw [hparts, h])
        rw [List.head?_cons, if_neg (by simpa using hne)]
        rfl

theorem parts_ne_nil (path : String) : parts path ≠ [] := by
  rw [parts, splitOn_eq]
  simp [List.splitOn_ne_nil]

theorem parts_append_slash (d p : String) : parts (d ++ "/" ++ p) = parts d ++ parts p := by
  have hslash : (d ++ "/" ++ p).toList = d.toList ++ '/' :: p.toList := by simp
  simp only [parts, splitOn_eq, hslash, List.splitOn_append_cons_self, List.map_append]

/-- The parts of a joined path are those of both paths, but for the empty part behind a slash at the
    end of the first one. -/
theorem exists_parts_join (hd : d ≠ "") (hp : isAbsolute p = false) :
    ∃ first rest, parts (join d p) = first :: rest ++ parts p ∧
      (parts d = first :: rest ∨ parts d = first :: rest ++ [""]) := by
  unfold join
  rw [if_neg (by simp [hp]), if_neg hd]
  split
  · -- `d` ends in a slash, and the empty part behind that is not among those of the joined path
    rename_i hlast
    obtain ⟨front, hfront⟩ := List.getLast?_eq_some_iff.mp hlast
    have hd : d = String.ofList front ++ "/" ++ "" := String.toList_inj.mp (by simp [hfront])
    have hjoin : d ++ p = String.ofList front ++ "/" ++ p :=
      String.toList_inj.mp (by simp [hfront])
    obtain ⟨first, rest, hparts⟩ := List.exists_cons_of_ne_nil (parts_ne_nil (String.ofList front))
    refine ⟨first, rest, ?_, .inr ?_⟩
    · rw [hjoin, parts_append_slash, hparts]
    · rw [hd, parts_append_slash, hparts]
      rfl
  · obtain ⟨first, rest, hparts⟩ := List.exists_cons_of_ne_nil (parts_ne_nil d)
    exact ⟨first, rest, by rw [parts_append_slash, hparts], .inl hparts⟩

theorem isAbsolute_join (hd : d ≠ "") (hp : isAbsolute p = false) :
    isAbsolute (join d p) = isAbsolute d := by
  have hne : d.toList ≠ [] := fun h => hd (String.toList_inj.mp h)
  obtain ⟨c, cs, hcs⟩ := List.exists_cons_of_ne_nil hne
  unfold join
  rw [if_neg (by simp [hp]), if_neg hd]
  split <;> simp [isAbsolute, hcs]

theorem components_join (hd : d ≠ "") (hp : isAbsolute p = false) :
    components (join d p) = components d ++ innerOf (parts p) := by
  obtain ⟨first, rest, hjoin, hparts⟩ := exists_parts_join hd hp
  have hhead : (parts (join d p)).head? = (parts d).head? := by
    rcases hparts with h | h <;> rw [hjoin, h] <;> rfl
  have hinner : innerOf (first :: rest) = innerOf (parts d) := by
    rcases hparts with h | h
    · rw [h]
    · rw [h, innerOf_append]
      exact (List.append_nil _).symm
  rw [components_eq, components_eq, lead, lead, isAbsolute_join hd hp, hhead, hjoin, innerOf_append,
    hinner, List.append_assoc]

/-! ## Plain paths -/

/-- The name that a component is, if it is one. -/
def Component.name? : Component → Option String
  | .normal name => some name
  | _ => none

/-- The names in a path. -/
def names (path : String) : List String := (components path).filterMap Component.name?

theorem components_of_isPlain (h : isPlain p = true) :
    components p = (names p).map Component.normal := by
  have hall : ∀ c ∈ components p, ∃ name, c = .normal name := by
    intro c hc
    rw [isPlain, Bool.and_eq_true, List.all_eq_true] at h
    have hnormal := h.2 c hc
    cases c with
    | normal name => exact ⟨name, rfl⟩
    | root | current | parent => cases hnormal
  unfold names
  revert hall
  -- that all of them are names is all that counts from here on
  generalize components p = cs
  intro hall
  induction cs with
  | nil => rfl
  | cons c cs ih =>
    obtain ⟨⟨name, rfl⟩, hcs⟩ := List.forall_mem_cons.mp hall
    have hname : (Component.normal name).name? = some name := rfl
    rw [List.filterMap_cons_some hname, List.map_cons, ← ih hcs]

theorem lead_of_isPlain (h : isPlain p = true) : isAbsolute p = false ∧ lead p = [] := by
  have hnormal := components_of_isPlain h
  rw [components_eq] at hnormal
  have hmem : ∀ c ∈ lead p, ∃ name, Component.normal name = c := by
    intro c hc
    have hc : c ∈ (names p).map Component.normal := hnormal ▸ List.mem_append_left _ hc
    obtain ⟨name, _, hname⟩ := List.mem_map.mp hc
    exact ⟨name, hname⟩
  unfold lead at hmem ⊢
  -- a root or a dot in front would be a component that is no name
  split at hmem
  · obtain ⟨name, hname⟩ := hmem .root (List.mem_singleton_self _)
    cases hname
  · rename_i habsolute
    rw [if_neg habsolute]
    split at hmem
    · obtain ⟨name, hname⟩ := hmem .current (List.mem_singleton_self _)
      cases hname
    · rename_i hdot
      exact ⟨by simpa using habsolute, if_neg hdot⟩

/-- The components of a plain path below a directory. -/
theorem components_join_of_isPlain (hd : d ≠ "") (h : isPlain p = true) :
    components (join d p) = components d ++ components p := by
  obtain ⟨habsolute, hlead⟩ := lead_of_isPlain h
  rw [components_join hd habsolute, components_eq p, hlead, List.nil_append]

theorem join_ne_empty (hp : p ≠ "") : join d p ≠ "" := by
  intro h
  unfold join at h
  split at h
  · exact hp h
  · split at h
    · exact hp h
    · split at h <;> simp_all

end Path

/-! ## Paths of outputs -/

namespace OutputDir

/-- The directories of outputs. -/
theorem components_dir (dir : String) (kind : OutputKind) :
    Path.components (Path.join dir (kindDir kind)) =
      Path.components dir ++ [.normal (kindDir kind)] := by
  have hkind : Path.isPlain (kindDir kind) = true ∧
      Path.components (kindDir kind) = [.normal (kindDir kind)] := by
    cases kind <;> decide
  by_cases hdir : dir = ""
  · have hjoin : Path.join dir (kindDir kind) = kindDir kind := by
      rw [Path.join, hdir, if_neg (by simp [(Path.lead_of_isPlain hkind.1).1]), if_pos rfl]
    rw [hjoin, hdir, hkind.2]
    rfl
  · rw [Path.components_join_of_isPlain hdir hkind.1, hkind.2]

theorem components_fullPath (o : OutputDir) (kind : OutputKind) {path : String}
    (h : Path.isPlain path = true) :
    Path.components (o.fullPath kind path) =
      Path.components o.dir ++ .normal (kindDir kind) :: Path.components path := by
  have hkind : kindDir kind ≠ "" := by cases kind <;> decide
  rw [fullPath, Path.components_join_of_isPlain (Path.join_ne_empty hkind) h, components_dir,
    List.append_assoc, List.singleton_append]

theorem kindDir_inj {kind kind' : OutputKind} (h : kindDir kind = kindDir kind') : kind = kind' := by
  cases kind <;> cases kind' <;> simp_all [kindDir]

end OutputDir

/-- What the place of an output is in a directory of its own: its kind and the components of its
    path. -/
def OutputFile.location (f : OutputFile) : OutputKind × List Path.Component :=
  (f.kind, Path.components f.path)

theorem OutputDir.components_fullPath_eq_iff (o : OutputDir) {f g : OutputFile}
    (hf : Path.isPlain f.path = true) (hg : Path.isPlain g.path = true) :
    Path.components (o.fullPath f.kind f.path) = Path.components (o.fullPath g.kind g.path) ↔
      f.location = g.location := by
  rw [components_fullPath o _ hf, components_fullPath o _ hg, List.append_right_inj,
    List.cons.injEq, Path.Component.normal.injEq, OutputFile.location, OutputFile.location,
    Prod.mk.injEq]
  exact and_congr_left fun _ => ⟨kindDir_inj, congrArg _⟩

/-! ## Where paths lead -/

namespace FileTree

/-- A step of a path from a place. -/
def stepTo (place : Place) : Path.Component → Place
  | .root => []
  | .current => place
  | .parent => place.dropLast
  | .normal name => place ++ [name]

/-- The place that components lead to. -/
def placeOf (t : FileTree) (path : List Path.Component) : Place := path.foldl stepTo t.workingDir

variable {t : FileTree} {place place' : Place}

theorem eq_of_step {part : String} (h : t.step place part = .ok place') :
    t.node? place = some .dir ∧ place' = (Path.inner? part).toList.foldl stepTo place := by
  unfold step at h
  split at h
  · cases h
  · cases h
  · rename_i hdir
    refine ⟨hdir, ?_⟩
    unfold Path.inner?
    split at h
    · -- nothing or a dot stays where it is
      rename_i hnone
      rw [if_pos hnone]
      cases h
      rfl
    · rename_i hnone
      rw [if_neg hnone]
      split at h
      · -- two dots lead outwards
        rename_i hparent
        rw [if_pos hparent]
        cases h
        rfl
      · rename_i hparent
        rw [if_neg hparent]
        split at h
        · cases h
        · cases h
          rfl

theorem eq_of_foldlM_step {parts : List String} (h : parts.foldlM t.step place = .ok place') :
    place' = (Path.innerOf parts).foldl stepTo place := by
  induction parts generalizing place with
  | nil => exact (Except.ok.inj h).symm
  | cons part parts ih =>
    rw [List.foldlM_cons, bind_eq_ok_iff] at h
    obtain ⟨next, hstep, hrest⟩ := h
    have hparts : Path.innerOf (part :: parts) =
        (Path.inner? part).toList ++ Path.innerOf parts := by
      unfold Path.innerOf
      cases hinner : Path.inner? part <;> simp [hinner]
    rw [ih hrest, (eq_of_step hstep).2, hparts, List.foldl_append]

theorem locate_eq_ok_iff {path : String} : t.locate path = .ok place ↔
    checkText path = .ok () ∧
      (Path.parts path).foldlM t.step (if Path.isAbsolute path then [] else t.workingDir) =
        .ok place := by
  rw [locate, follow, bind_eq_ok_iff]
  exact ⟨fun ⟨_, h⟩ => h, fun h => ⟨(), h⟩⟩

/-- A path that can be followed leads to the place of its components. -/
theorem eq_placeOf_of_locate {path : String} (h : t.locate path = .ok place) :
    place = t.placeOf (Path.components path) := by
  have hstart : (Path.lead path).foldl stepTo t.workingDir =
      if Path.isAbsolute path then [] else t.workingDir := by
    unfold Path.lead
    split
    · rfl
    · split <;> rfl
  rw [placeOf, Path.components_eq, List.foldl_append, hstart]
  exact eq_of_foldlM_step (locate_eq_ok_iff.mp h).2

/-! ## Trees that grow -/

theorem lookup_replace (nodes : List (Place × FileNode)) (p q : Place) (node : FileNode) :
    (nodes.map fun (p, n) => if p = q then (p, node) else (p, n)).lookup p =
      (nodes.lookup p).map fun n => if p = q then node else n := by
  induction nodes with
  | nil => rfl
  | cons entry nodes ih =>
    obtain ⟨p', n⟩ := entry
    have hhead : (if p' = q then (p', node) else (p', n)) = (p', if p' = q then node else n) := by
      split <;> rfl
    rw [List.map_cons, List.lookup_cons, List.lookup_cons]
    simp only [hhead]
    by_cases hp : p = p'
    · rw [hp, beq_self_eq_true]
      rfl
    · rw [beq_false_of_ne hp]
      exact ih

theorem lookup_append_singleton (nodes : List (Place × FileNode)) (p q : Place) (node : FileNode) :
    (nodes ++ [(q, node)]).lookup p =
      (nodes.lookup p).or (if p = q then some node else none) := by
  induction nodes with
  | nil =>
    rw [List.nil_append, List.lookup_cons]
    by_cases hp : p = q
    · rw [hp, beq_self_eq_true, if_pos rfl]
      rfl
    · rw [beq_false_of_ne hp, if_neg hp]
      rfl
  | cons entry nodes ih =>
    obtain ⟨p', n⟩ := entry
    rw [List.cons_append, List.lookup_cons, List.lookup_cons]
    by_cases hp : p = p'
    · rw [hp, beq_self_eq_true]
      rfl
    · rw [beq_false_of_ne hp]
      exact ih

theorem node?_set (t : FileTree) {q : Place} (hq : q ≠ []) (p : Place) (node : FileNode) :
    (t.set q node).node? p = if p = q then some node else t.node? p := by
  unfold node?
  -- the root is no entry of the list, so nothing can be set there
  by_cases hroot : p = []
  · rw [hroot, if_neg (Ne.symm hq)]
    rfl
  · have hnotRoot : ¬p.isEmpty = true := by simpa using hroot
    rw [if_neg hnotRoot, if_neg hnotRoot]
    unfold set
    split
    · -- an entry is replaced at its place, a new one is the last
      rename_i hthere
      rw [lookup_replace]
      split
      · rename_i hpq
        obtain ⟨n, hn⟩ := Option.isSome_iff_exists.mp hthere
        rw [hpq, hn]
        rfl
      · exact Option.map_id'
    · rename_i hnew
      rw [lookup_append_singleton]
      split
      · rename_i hpq
        rw [hpq, Option.not_isSome_iff_eq_none.mp hnew]
        rfl
      · exact Option.or_none

/-- A tree with all that another one has, but for what the file at one place holds. -/
structure Keeps (place : Place) (t t' : FileTree) : Prop where
  workingDir : t'.workingDir = t.workingDir
  node : ∀ p node, t.node? p = some node → p ≠ place ∨ node = .dir → t'.node? p = some node

namespace Keeps

theorem refl (place : Place) (t : FileTree) : Keeps place t t := ⟨rfl, fun _ _ h _ => h⟩

theorem trans {t₁ t₂ t₃ : FileTree} (h₁ : Keeps place t₁ t₂) (h₂ : Keeps place t₂ t₃) :
    Keeps place t₁ t₃ :=
  ⟨h₂.workingDir.trans h₁.workingDir, fun p node h hp => h₂.node p node (h₁.node p node h hp) hp⟩

variable {t' : FileTree}

/-- Something new, or other contents of the file at the place. -/
theorem set {q : Place} (node : FileNode)
    (hold : ∀ old, t.node? q = some old → q = place ∧ old ≠ .dir) :
    Keeps place t (t.set q node) := by
  have hq : q ≠ [] := by
    rintro rfl
    exact (hold .dir rfl).2 rfl
  constructor
  · unfold FileTree.set
    split <;> rfl
  · intro p old hp hkept
    have hne : p ≠ q := by
      rintro rfl
      obtain ⟨hplace, hdir⟩ := hold old hp
      exact hkept.elim (fun h => h hplace) hdir
    rw [node?_set t hq, if_neg hne, hp]

theorem step {p p' : Place} {part : String} (h : Keeps place t t') (hp : t.step p part = .ok p') :
    t'.step p part = .ok p' := by
  have hdir := (eq_of_step hp).1
  unfold FileTree.step at hp ⊢
  rw [hdir] at hp
  rw [h.node p .dir hdir (.inr rfl)]
  exact hp

theorem foldlM_step {p p' : Place} {parts : List String} (h : Keeps place t t')
    (hp : parts.foldlM t.step p = .ok p') : parts.foldlM t'.step p = .ok p' := by
  induction parts generalizing p with
  | nil => exact hp
  | cons part parts ih =>
    rw [List.foldlM_cons, bind_eq_ok_iff] at hp ⊢
    obtain ⟨next, hstep, hrest⟩ := hp
    exact ⟨next, h.step hstep, ih hrest⟩

/-- Paths lead to where they led before. -/
theorem locate {path : String} {p : Place} (h : Keeps place t t') (hp : t.locate path = .ok p) :
    t'.locate path = .ok p := by
  rw [locate_eq_ok_iff] at hp ⊢
  rw [h.workingDir]
  exact ⟨hp.1, h.foldlM_step hp.2⟩

theorem createDir {path : String} (h : t.createDir path = .ok t') : Keeps place t t' := by
  unfold FileTree.createDir at h
  rw [bind_eq_ok_iff] at h
  obtain ⟨p, _, hp⟩ := h
  split at hp
  · cases hp
  · rename_i hnone
    cases hp
    refine .set _ fun old hold => ?_
    rw [hnone] at hold
    cases hold

theorem createDirs (paths : List String) : Keeps place t (t.createDirs paths).2 := by
  induction paths generalizing t with
  | nil => exact .refl place t
  | cons path before ih =>
    unfold FileTree.createDirs
    split
    · rename_i hcreate
      exact createDir hcreate
    · split
      · -- the directories around it could not be made
        rename_i hbefore
        have hkeeps := ih (t := t)
        rwa [hbefore] at hkeeps
      · rename_i hbefore
        have hkeeps := ih (t := t)
        rw [hbefore] at hkeeps
        split
        · rename_i hcreate
          exact hkeeps.trans (createDir hcreate)
        · exact hkeeps
    · exact .refl place t

end Keeps

/-- What is written is there, and everything else is as it was. -/
theorem writeFile_eq_ok {t' : FileTree} {path : String} {bytes : ByteArray}
    (h : t.writeFile path bytes = .ok t') :
    Keeps (t.placeOf (Path.components path)) t t' ∧ t'.find? path = some (.file bytes) := by
  unfold writeFile at h
  split at h
  · rw [bind_eq_ok_iff] at h
    obtain ⟨_, _, h⟩ := h
    cases h
  · rw [bind_eq_ok_iff] at h
    obtain ⟨p, hp, h⟩ := h
    obtain rfl := eq_placeOf_of_locate hp
    split at h
    · cases h
    · rename_i hdir
      cases h
      have hkeeps : Keeps (t.placeOf (Path.components path)) t
          (t.set (t.placeOf (Path.components path)) (.file bytes)) :=
        .set _ fun old hold => ⟨rfl, fun heq => hdir (by rw [hold, heq])⟩
      refine ⟨hkeeps, ?_⟩
      -- no file is written at the root, which is a directory
      have hroot : t.placeOf (Path.components path) ≠ [] := fun hroot => hdir (by rw [hroot]; rfl)
      rw [find?, hkeeps.locate hp]
      dsimp only
      rw [node?_set t hroot, if_pos rfl]

theorem placeOf_eq {t' : FileTree} (h : Keeps place t t') (path : List Path.Component) :
    t'.placeOf path = t.placeOf path := by
  rw [placeOf, placeOf, h.workingDir]

/-- Writing a file adds directories and the file, or directories alone if it fails. -/
theorem place_cases (t : FileTree) (path : String) (bytes : ByteArray) :
    Keeps (t.placeOf (Path.components path)) t (t.place path bytes).2 ∧
      ((t.place path bytes).1 = .ok () →
        (t.place path bytes).2.find? path = some (.file bytes)) := by
  have hdirs : Keeps (t.placeOf (Path.components path)) t
      (t.createDirs (Path.initials path).reverse.tail).2 := .createDirs _
  unfold FileTree.place
  split
  · rename_i hcreate
    rw [hcreate] at hdirs
    exact ⟨hdirs, fun h => by cases h⟩
  · -- the directories are there, and the file is written in the last of them
    rename_i t' hcreate
    rw [hcreate] at hdirs
    split
    · exact ⟨hdirs, fun h => by cases h⟩
    · rename_i hwrite
      obtain ⟨hkeeps, hfind⟩ := writeFile_eq_ok hwrite
      rw [placeOf_eq hdirs] at hkeeps
      exact ⟨hdirs.trans hkeeps, fun _ => hfind⟩

/-- A file that is found is found again, unless it is the one that is written over. -/
theorem Keeps.find? {t' : FileTree} {path : String} {node : FileNode} (h : Keeps place t t')
    (hfind : t.find? path = some node) (hne : t.placeOf (Path.components path) ≠ place) :
    t'.find? path = some node := by
  unfold FileTree.find? at hfind ⊢
  split at hfind
  · cases hfind
  · rename_i p hp
    rw [h.locate hp]
    obtain rfl := eq_placeOf_of_locate hp
    exact h.node _ node hfind (.inl hne)

end FileTree

/-- Outputs at one place are of one kind and have the same components. -/
theorem OutputDir.location_eq_of_placeOf_eq (o : OutputDir) (t : FileTree) {f g : OutputFile}
    (hf : Path.isPlain f.path = true) (hg : Path.isPlain g.path = true)
    (h : t.placeOf (Path.components (o.fullPath f.kind f.path)) =
      t.placeOf (Path.components (o.fullPath g.kind g.path))) : f.location = g.location := by
  -- names lead inwards from any place
  have hnames : ∀ (names : List String) (start : Place),
      (names.map Path.Component.normal).foldl FileTree.stepTo start = start ++ names := by
    intro names
    induction names with
    | nil => exact fun start => (List.append_nil start).symm
    | cons name names ih =>
      intro start
      rw [List.map_cons, List.foldl_cons, ih, FileTree.stepTo, List.append_assoc,
        List.singleton_append]
  rw [components_fullPath o _ hf, components_fullPath o _ hg, Path.components_of_isPlain hf,
    Path.components_of_isPlain hg, ← List.map_cons, ← List.map_cons, FileTree.placeOf,
    FileTree.placeOf, List.foldl_append, List.foldl_append, hnames, hnames,
    List.append_cancel_left_eq, List.cons.injEq] at h
  rw [OutputFile.location, OutputFile.location, kindDir_inj h.1, Path.components_of_isPlain hf,
    Path.components_of_isPlain hg, h.2]

end ActorIdl
