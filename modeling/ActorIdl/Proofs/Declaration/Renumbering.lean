import ActorIdl.Proofs.Declaration.Growth
import Mathlib.Data.List.Perm.Basic
/-! # Tables of the same units in another order

    Units that declare no name twice can be entered in any order and from any files.  What is
    entered for a unit depends on the units before it only by how many names they declare, and the
    numbers are shifted by that.  References are resolved by names, so the table of the units in
    another order has the same declarations under other numbers.

    A renumbering takes the numbers of one table to those of another one and carries every
    declaration along. -/

namespace ActorIdl

/-! ## Declared names -/

mutual

/-- The qualified names of a declaration and of those in it, where `place` gives the qualified name
    of a simple one. -/
def Syntax.Member.declaredNames (place : String → String) : Syntax.Member → List String
  | .method _ => []
  | .nested head members =>
    place head.name.text ::
      Syntax.Member.allDeclaredNames (place head.name.text ++ "." ++ ·) members

/-- The qualified names that members declare, one after the other. -/
def Syntax.Member.allDeclaredNames (place : String → String) : List Syntax.Member → List String
  | [] => []
  | m :: ms => m.declaredNames place ++ Syntax.Member.allDeclaredNames place ms

end

/-- The qualified names of all declarations of a unit, at whatever depth. -/
def SourceUnit.declaredNames (u : SourceUnit) : List String :=
  Syntax.Member.allDeclaredNames (qualify u.package) (u.unit.decls.map (·.toMember))

theorem nodup_left_of_append_append {names xs ys : List String} (h : (names ++ (xs ++ ys)).Nodup) :
    (names ++ xs).Nodup := by
  rw [← List.append_assoc] at h
  exact (List.nodup_append.mp h).1

section
variable (u : SourceUnit)

mutual

theorem entryNames_enterMember (outers : List Outer) (names : List String) (m : Syntax.Member)
    (h : (names ++ m.declaredNames (qualifiedNameIn u.package outers)).Nodup) :
    entryNames (enterMember u outers (.of names) m).entries =
      m.declaredNames (qualifiedNameIn u.package outers) :=
  match m with
  | .method _ => by
    rw [enterMember, Syntax.Member.declaredNames]
    rfl
  | .nested head members => by
    rw [Syntax.Member.declaredNames] at h ⊢
    have hname : qualifiedNameIn u.package outers head.name.text ∉ names := fun hmem =>
      (List.nodup_append.mp h).2.2 _ hmem _ List.mem_cons_self rfl
    let e := Entry.made u outers (.of names) head members
    have h' : ((names ++ [e.qualifiedName]) ++
        Syntax.Member.allDeclaredNames (qualifiedNameIn u.package (e.asOuter :: outers))
          members).Nodup := by
      rw [List.append_assoc]
      exact h
    have ih := entryNames_enterMembers (e.asOuter :: outers) (names ++ [e.qualifiedName]) members h'
    rw [(enterMember_nested_of_not_mem u members (mt Register.mem_of.mp hname)).1, Register.enter_of,
      entryNames, List.map_cons, ← entryNames, ih]
    rfl

/-- Where no name is taken, everything that is declared is entered. -/
theorem entryNames_enterMembers (outers : List Outer) (names : List String)
    (ms : List Syntax.Member)
    (h : (names ++ Syntax.Member.allDeclaredNames (qualifiedNameIn u.package outers) ms).Nodup) :
    entryNames (enterMembers u outers (.of names) ms).entries =
      Syntax.Member.allDeclaredNames (qualifiedNameIn u.package outers) ms :=
  match ms with
  | [] => by
    rw [enterMembers, Syntax.Member.allDeclaredNames]
    rfl
  | m :: ms => by
    rw [Syntax.Member.allDeclaredNames] at h ⊢
    have ihm := entryNames_enterMember outers names m (nodup_left_of_append_append h)
    rw [← List.append_assoc, ← ihm] at h
    have ihms := entryNames_enterMembers outers _ ms h
    rw [enterMembers_cons]
    dsimp only
    rw [Register.enterAll_of, entryNames_append, ihms, ihm]

end

theorem entryNames_enterUnit {names : List String} (h : (names ++ u.declaredNames).Nodup) :
    entryNames (enterUnit (.of names) u).entries = u.declaredNames :=
  entryNames_enterMembers u [] names _ h

end

theorem entryNames_enterUnits {names : List String} (us : List SourceUnit)
    (h : (names ++ us.flatMap (·.declaredNames)).Nodup) :
    entryNames (enterUnits (.of names) us).entries = us.flatMap (·.declaredNames) := by
  induction us generalizing names with
  | nil => rfl
  | cons u us ih =>
    rw [List.flatMap_cons] at h ⊢
    have hu := entryNames_enterUnit u (nodup_left_of_append_append h)
    rw [← List.append_assoc, ← hu] at h
    rw [enterUnits_cons]
    dsimp only
    rw [Register.enterAll_of, entryNames_append, ih h, hu]

/-! ## Renumbered entries -/

section
variable (f : DeclId → DeclId) (file : FileId)

/-- The same declaration around others, under another number. -/
def Outer.renumber (o : Outer) : Outer := { o with id := f o.id }

/-- The same member, a declaration under another number. -/
def EnteredMember.renumber : EnteredMember → EnteredMember
  | .type id => .type (f id)
  | .method m => .method m

/-- The same entry with other numbers and from another file. -/
def Entry.renumber (e : Entry) : Entry :=
  { e with
    id := f e.id
    outers := e.outers.map (·.renumber f)
    members := e.members.map (·.renumber f)
    file }

/-- The same unit from another file. -/
def SourceUnit.inFile (u : SourceUnit) : SourceUnit := { u with file }

theorem qualifiedNameIn_renumber (package : String) (outers : List Outer) :
    qualifiedNameIn package (outers.map (·.renumber f)) = qualifiedNameIn package outers := by
  cases outers <;> rfl

theorem binaryNameIn_renumber (package : String) (outers : List Outer) :
    binaryNameIn package (outers.map (·.renumber f)) = binaryNameIn package outers := by
  cases outers <;> rfl

theorem package_inFile (u : SourceUnit) : (u.inFile file).package = u.package := rfl

variable {f}

theorem shift_append {n n' j j' : Nat} (hf : ∀ k < j + j', f (n + k) = n' + k) :
    ∀ k < j', f (n + j + k) = n' + j + k := by
  intro k hk
  rw [Nat.add_assoc, hf (j + k) (by omega), Nat.add_assoc]

variable (f) (u : SourceUnit)

mutual

theorem renumber_enterMember (outers : List Outer) (names names' : List String) (m : Syntax.Member)
    (h : (names ++ m.declaredNames (qualifiedNameIn u.package outers)).Nodup)
    (h' : (names' ++ m.declaredNames (qualifiedNameIn u.package outers)).Nodup)
    (hf : ∀ k < (m.declaredNames (qualifiedNameIn u.package outers)).length,
      f (names.length + k) = names'.length + k) :
    (enterMember (u.inFile file) (outers.map (·.renumber f)) (.of names') m).entries =
        (enterMember u outers (.of names) m).entries.map (·.renumber f file) ∧
      (enterMember (u.inFile file) (outers.map (·.renumber f)) (.of names') m).members =
        (enterMember u outers (.of names) m).members.map (·.renumber f) :=
  match m with
  | .method _ => by
    rw [enterMember, enterMember]
    exact ⟨rfl, rfl⟩
  | .nested head members => by
    rw [Syntax.Member.declaredNames] at h h' hf
    have hname : qualifiedNameIn u.package outers head.name.text ∉ names := fun hmem =>
      (List.nodup_append.mp h).2.2 _ hmem _ List.mem_cons_self rfl
    have hname' : qualifiedNameIn (u.inFile file).package (outers.map (·.renumber f))
        head.name.text ∉ names' := by
      rw [package_inFile, qualifiedNameIn_renumber]
      exact fun hmem => (List.nodup_append.mp h').2.2 _ hmem _ List.mem_cons_self rfl
    let e := Entry.made u outers (.of names) head members
    -- the declaration itself is the first of those that are entered
    have hid : f (Register.of names).next = (Register.of names').next := by
      rw [Register.next_of, Register.next_of]
      exact hf 0 (by simp)
    have ih := renumber_enterMembers (e.asOuter :: outers) (names ++ [e.qualifiedName])
      (names' ++ [e.qualifiedName]) members (by rw [List.append_assoc]; exact h)
      (by rw [List.append_assoc]; exact h') (by
        rw [List.length_append, List.length_append]
        refine shift_append fun k hk => hf k ?_
        rw [List.length_cons]
        exact Nat.lt_of_lt_of_eq hk (Nat.add_comm _ _))
    rw [← Register.enter_of, ← Register.enter_of] at ih
    have houter : (⟨(Register.of names').next, head.name.text, e.qualifiedName, e.binaryName⟩ : Outer) =
        e.asOuter.renumber f := by
      rw [← hid]
      rfl
    have hmade : Entry.made (u.inFile file) (outers.map (·.renumber f)) (.of names') head members =
        e.renumber f file := by
      have hmembers := ih.2
      rw [List.map_cons, ← houter] at hmembers
      unfold Entry.made
      simp only [package_inFile, qualifiedNameIn_renumber, binaryNameIn_renumber]
      refine (congrArg
        (fun members => Entry.mk (Register.of names').next _ _ _ _ _ members _ _) hmembers).trans ?_
      rw [← hid]
      rfl
    obtain ⟨hentries, hmember⟩ := enterMember_nested_of_not_mem u members
      (mt Register.mem_of.mp hname)
    obtain ⟨hentries', hmember'⟩ := enterMember_nested_of_not_mem (u.inFile file) members
      (mt Register.mem_of.mp hname')
    rw [hentries, hentries', hmember, hmember', hmade]
    refine ⟨?_, rfl⟩
    rw [List.map_cons, ← ih.1]
    rfl

theorem renumber_enterMembers (outers : List Outer) (names names' : List String)
    (ms : List Syntax.Member)
    (h : (names ++ Syntax.Member.allDeclaredNames (qualifiedNameIn u.package outers) ms).Nodup)
    (h' : (names' ++ Syntax.Member.allDeclaredNames (qualifiedNameIn u.package outers) ms).Nodup)
    (hf : ∀ k < (Syntax.Member.allDeclaredNames (qualifiedNameIn u.package outers) ms).length,
      f (names.length + k) = names'.length + k) :
    (enterMembers (u.inFile file) (outers.map (·.renumber f)) (.of names') ms).entries =
        (enterMembers u outers (.of names) ms).entries.map (·.renumber f file) ∧
      (enterMembers (u.inFile file) (outers.map (·.renumber f)) (.of names') ms).members =
        (enterMembers u outers (.of names) ms).members.map (·.renumber f) :=
  match ms with
  | [] => by
    rw [enterMembers, enterMembers]
    exact ⟨rfl, rfl⟩
  | m :: ms => by
    rw [Syntax.Member.allDeclaredNames] at h h' hf
    rw [List.length_append] at hf
    have hm := nodup_left_of_append_append h
    have hm' := nodup_left_of_append_append h'
    -- the names entered for the first member are those it declares, in both numberings
    have hnames := entryNames_enterMember u outers names m hm
    have ihm := renumber_enterMember outers names names' m hm hm' fun k hk => hf k (by omega)
    have hnames' : entryNames (enterMember (u.inFile file) (outers.map (·.renumber f)) (.of names')
        m).entries = m.declaredNames (qualifiedNameIn u.package outers) := by
      rw [ihm.1, entryNames, List.map_map]
      exact hnames
    -- the later members are entered behind these names, so their numbers are shifted further
    have ihms := renumber_enterMembers outers
      (names ++ m.declaredNames (qualifiedNameIn u.package outers))
      (names' ++ m.declaredNames (qualifiedNameIn u.package outers)) ms
      (by rw [List.append_assoc]; exact h) (by rw [List.append_assoc]; exact h') (by
        rw [List.length_append, List.length_append]
        exact shift_append hf)
    rw [enterMembers_cons, enterMembers_cons]
    dsimp only
    rw [hnames, hnames', Register.enterAll_of, Register.enterAll_of, ihm.1, ihm.2, ihms.1, ihms.2,
      List.map_append, List.map_append]
    refine ⟨rfl, congrArg (· ++ _) ?_⟩
    cases (enterMember u outers (.of names) m).members <;> rfl

end

end

/-! ## Renumbered declarations -/

section
variable (f : DeclId → DeclId) (file : FileId)

/-- The same method under another number and from another file. -/
def Method.renumber (m : Method) : Method :=
  { m with
    enclosing := f m.enclosing
    location := { m.location with file } }

/-- The same member under other numbers and from another file. -/
def Member.renumber : Member → Member
  | .type id => .type (f id)
  | .method m => .method (m.renumber f file)

/-- The same declaration with other numbers and from another file. -/
def Declaration.renumber (d : Declaration) : Declaration :=
  { d with
    members := d.members.map (·.renumber f file)
    enclosing := d.enclosing.map f
    location := { d.location with file } }

theorem Declaration.nested_renumber (d : Declaration) :
    (d.renumber f file).nested = d.nested.map f := by
  unfold Declaration.nested Declaration.renumber
  rw [List.filterMap_map, List.map_filterMap]
  refine List.filterMap_congr fun m _ => ?_
  cases m <;> rfl

theorem Declaration.methods_renumber (d : Declaration) :
    (d.renumber f file).methods = d.methods.map (·.renumber f file) := by
  unfold Declaration.methods Declaration.renumber
  rw [List.filterMap_map, List.map_filterMap]
  refine List.filterMap_congr fun m _ => ?_
  cases m <;> rfl

end

/-! ## Resolution by names -/

namespace Scope

mutual

theorem resolveType_congr {s s' : Scope} (h : s'.resolve = s.resolve) (t : Syntax.TypeExpr) :
    s'.resolveType t = s.resolveType t :=
  match t with
  | .mk name args dims _ => by rw [resolveType, resolveType, h, resolveTypes_congr h args]

theorem resolveTypes_congr {s s' : Scope} (h : s'.resolve = s.resolve)
    (ts : List Syntax.TypeExpr) : s'.resolveTypes ts = s.resolveTypes ts :=
  match ts with
  | [] => rfl
  | t :: ts => by
    rw [resolveTypes, resolveTypes, resolveType_congr h t, resolveTypes_congr h ts]

end

section
variable (index : NameIndex) (f : DeclId → DeclId) (s : Scope)

/-- The same scope under other numbers. -/
def renumber : Scope := { s with byName := index, outers := s.outers.map (·.renumber f) }

variable {index s} (hnames : ∀ name, index.contains name = s.byName.contains name)
include hnames

theorem declares_renumber (name : String) :
    (s.renumber index f).declares name = s.declares name :=
  hnames name

theorem around?_renumber (simple : String) :
    (s.renumber index f).around? simple = s.around? simple := by
  unfold around?
  rw [show (s.renumber index f).outers = s.outers.map (·.renumber f) from rfl,
    List.findSome?_map]
  congr 1
  funext outer
  simp only [Function.comp, declares_renumber f hnames]
  rfl

theorem head?_renumber (simple : String) :
    (s.renumber index f).head? simple = s.head? simple := by
  have hpackaged : (s.renumber index f).packaged? simple = s.packaged? simple := by
    simp only [packaged?, declares_renumber f hnames]
    rfl
  have himplicit : (s.renumber index f).implicit? simple = s.implicit? simple := by
    have hdeclares : (s.renumber index f).declares = s.declares :=
      funext (declares_renumber f hnames)
    rw [implicit?, hdeclares]
    rfl
  rw [head?, around?_renumber f hnames, hpackaged, himplicit]
  rfl

theorem below?_renumber (name : String) (segments : List Syntax.Name) :
    (s.renumber index f).below? name segments = s.below? name segments := by
  induction segments generalizing name with
  | nil => rfl
  | cons segment segments ih => simp only [below?, declares_renumber f hnames, ih]

theorem resolve_renumber (q : Syntax.QualifiedName) :
    (s.renumber index f).resolve q = s.resolve q := by
  simp only [resolve, head?_renumber f hnames, below?_renumber f hnames]

theorem resolveType_renumber : (s.renumber index f).resolveType = s.resolveType :=
  funext (resolveType_congr (funext (resolve_renumber f hnames)))

theorem resolveAnnotation_renumber :
    resolveAnnotation (s.renumber index f) = resolveAnnotation s := by
  funext a
  rw [ resolveAnnotation, resolveAnnotation, resolve_renumber f hnames]

theorem resolveMethod_renumber (enclosing : DeclId) (file file' : FileId) (m : Syntax.Method) :
    (s.renumber index f).resolveMethod (f enclosing) file' m =
      (s.resolveMethod enclosing file m).renumber f file' := by
  simp only [resolveMethod, resolveType_renumber f hnames,
    resolveAnnotation_renumber f hnames]
  rfl

end

end Scope

/-- An entry under other numbers has its declaration under other numbers. -/
theorem Entry.declared_renumber {index index' : NameIndex}
    (hnames : ∀ name, index'.contains name = index.contains name) (f : DeclId → DeclId)
    (file : FileId) (e : Entry) :
    (e.renumber f file).declared index' = (e.declared index).renumber f file := by
  have hhead : (e.renumber f file).headScope index' = (e.headScope index).renumber index' f := rfl
  have hbody : (e.renumber f file).bodyScope index' = (e.bodyScope index).renumber index' f := rfl
  have hmethod := Scope.resolveMethod_renumber f (s := e.bodyScope index) hnames e.id e.file file
  have hsame : (e.renumber f file).head = e.head := rfl
  unfold Entry.declared Entry.info Declaration.renumber
  dsimp only
  rw [hhead, hbody, Scope.resolveType_renumber f hnames, Scope.resolveAnnotation_renumber f hnames,
    hsame]
  -- the kind says only which of the types above are interfaces
  cases e.head.kind
  all_goals
    dsimp only
    congr 1
    · congr 1
      change Option.map _ (List.head? (List.map _ _)) = _
      rw [List.head?_map, Option.map_map, Option.map_map]
      rfl
    · rw [List.map_map]
      refine List.map_map.trans (List.map_congr_left fun m _ => ?_)
      cases m with
      | type id => rfl
      | method m => exact congrArg Member.method (hmethod m)

/-! ## Renumbered tables -/

namespace Table

/-- The numbers of one table as numbers of another one with the same declarations, be they from
    other files.  What is a root here is a root there. -/
structure Renumbers (t t' : Table) (f : DeclId → DeclId) : Prop where
  get? : ∀ id d, t.get? id = some d → ∃ file, t'.get? (f id) = some (d.renumber f file)
  lookup : ∀ name, t'.lookup name = (t.lookup name).map f
  roots : ∀ id ∈ t.roots, f id ∈ t'.roots
  inj : ∀ i j, i < t.size → j < t.size → f i = f j → i = j

section
variable {units units' : List SourceUnit}

theorem entryNames_entriesOf (hnames : (units.flatMap (·.declaredNames)).Nodup) :
    entryNames (entriesOf units) = units.flatMap (·.declaredNames) :=
  @entryNames_enterUnits [] units (by rwa [List.nil_append])

/-- The place that the name of an entry has in another list of names. -/
def placeIn (names' names : List String) (id : DeclId) : DeclId := names'.idxOf (names[id]?.getD "")

theorem placeIn_shift {names before after before' after' : List String}
    (h : (before' ++ (names ++ after')).Nodup) {k : Nat} (hk : k < names.length) :
    placeIn (before' ++ (names ++ after')) (before ++ (names ++ after)) (before.length + k) =
      before'.length + k := by
  have hget : ∀ xs ys : List String, (xs ++ (names ++ ys))[xs.length + k]? = some names[k] := by
    intro xs ys
    rw [List.getElem?_append_right (Nat.le_add_right _ _), Nat.add_sub_cancel_left,
      List.getElem?_append_left hk, List.getElem?_eq_getElem hk]
  obtain ⟨hlt, hnth⟩ := List.getElem?_eq_some_iff.mp (hget before' after')
  rw [placeIn, hget, Option.getD_some, ← hnth]
  exact List.Nodup.idxOf_getElem h _ hlt

/-- A unit in front of which other names are declared is entered with shifted numbers. -/
theorem renumber_enterUnit {u : SourceUnit} (file : FileId)
    {before after before' after' : List SourceUnit}
    (h : ((before ++ u :: after).flatMap (·.declaredNames)).Nodup)
    (h' : ((before' ++ u :: after').flatMap (·.declaredNames)).Nodup) :
    let f := placeIn ((before' ++ u :: after').flatMap (·.declaredNames))
      ((before ++ u :: after).flatMap (·.declaredNames))
    let entered := enterUnit (enterUnits .start before).register u
    let entered' := enterUnit (enterUnits .start before').register (u.inFile file)
    entered'.entries = entered.entries.map (·.renumber f file) ∧
      entered'.members = entered.members.map (·.renumber f) := by
  intro f
  simp only [List.flatMap_append, List.flatMap_cons] at h h'
  have hbefore := @entryNames_enterUnits [] before (List.nodup_append.mp h).1
  have hbefore' := @entryNames_enterUnits [] before' (List.nodup_append.mp h').1
  rw [register_enterUnits, register_enterUnits, ← Register.of_nil, Register.enterAll_of,
    Register.enterAll_of, List.nil_append, List.nil_append, hbefore, hbefore']
  refine renumber_enterMembers f file u [] _ _ _ (nodup_left_of_append_append h)
    (nodup_left_of_append_append h') fun k hk => ?_
  have hshift := @placeIn_shift u.declaredNames (before.flatMap (·.declaredNames))
    (after.flatMap (·.declaredNames)) _ _ h' k hk
  simpa [f] using hshift

theorem placeIn_inj {names names' : List String} (h : names.Perm names') (hnames : names.Nodup)
    {i j : Nat} (hi : i < names.length) (hj : j < names.length)
    (hij : placeIn names' names i = placeIn names' names j) : i = j := by
  rw [placeIn, placeIn, List.getElem?_eq_getElem hi, List.getElem?_eq_getElem hj,
    Option.getD_some, Option.getD_some] at hij
  have hmem := h.subset (List.getElem_mem hi)
  exact (List.Nodup.getElem_inj_iff hnames).mp ((List.idxOf_inj hmem).mp hij)

section
variable (hperm : (units.map (·.inFile 0)).Perm (units'.map (·.inFile 0)))
include hperm

theorem declaredNames_perm :
    (units.flatMap (·.declaredNames)).Perm (units'.flatMap (·.declaredNames)) := by
  have hdeclared : ∀ us : List SourceUnit,
      us.flatMap (·.declaredNames) = (us.map (·.inFile 0)).flatMap (·.declaredNames) :=
    fun us => (List.flatMap_map (·.inFile 0) (·.declaredNames) us).symm
  rw [hdeclared units, hdeclared units']
  exact hperm.flatMap_right _

/-- A unit stands among the others in the other order too. -/
theorem exists_split {before after : List SourceUnit} {u : SourceUnit}
    (hunits : units = before ++ u :: after) : ∃ file before' after',
      units' = before' ++ u.inFile file :: after' ∧
        units'.flatMap (·.declaredNames) = (before' ++ u :: after').flatMap (·.declaredNames) := by
  -- up to its file the unit is among those of the other order
  have hu : u.inFile 0 ∈ units'.map (·.inFile 0) := by
    refine hperm.subset (List.mem_map.mpr ⟨u, ?_, rfl⟩)
    rw [hunits]
    exact List.mem_append_right _ List.mem_cons_self
  obtain ⟨u', hu', heq⟩ := List.mem_map.mp hu
  have hsame : u' = u.inFile u'.file := by
    cases u'
    cases u
    cases heq
    rfl
  obtain ⟨before', after', hunits'⟩ := List.append_of_mem hu'
  rw [hsame] at hunits'
  refine ⟨u'.file, before', after', hunits', ?_⟩
  rw [hunits', List.flatMap_append, List.flatMap_append, List.flatMap_cons, List.flatMap_cons]
  rfl

/-- Units that declare no name twice, entered in another order and from other files. -/
theorem renumbers_of_perm (hnames : (units.flatMap (·.declaredNames)).Nodup) :
    (build units).1.Renumbers (build units').1
      (placeIn (units'.flatMap (·.declaredNames)) (units.flatMap (·.declaredNames))) := by
  have hnames' := (declaredNames_perm hperm).nodup hnames
  have hentered := entryNames_entriesOf hnames
  have hentered' := entryNames_entriesOf hnames'
  let f := placeIn (units'.flatMap (·.declaredNames)) (units.flatMap (·.declaredNames))
  have hentries : (entryNames (entriesOf units)).Perm (entryNames (entriesOf units')) := by
    rw [hentered, hentered']
    exact declaredNames_perm hperm
  have hget : ∀ id d, (build units).1.get? id = some d →
      ∃ file, (build units').1.get? (f id) = some (d.renumber f file) := by
    -- a declaration is entered for some unit, which is also among the units of the other order
    intro id d hd
    rw [get?_build] at hd
    obtain ⟨e, he, rfl⟩ := Option.map_eq_some_iff.mp hd
    obtain ⟨u, before, after, hunits, hin⟩ := isEnteredFor_of_mem_entries (List.mem_of_getElem? he)
    obtain ⟨file, before', after', hunits', hdeclared⟩ := exists_split hperm hunits
    have hcarried := (renumber_enterUnit file (hunits ▸ hnames) (hdeclared ▸ hnames')).1
    rw [← hunits, ← hdeclared] at hcarried
    have hin' : e.renumber f file ∈ entriesOf units' :=
      mem_entries_enterUnits.mpr ⟨before', u.inFile file, after', hunits', by
        rw [hcarried]
        exact List.mem_map_of_mem hin⟩
    have hid : e.id = id := id_of_getElem? he
    refine ⟨file, ?_⟩
    have hget' : (entriesOf units')[f e.id]? = some (e.renumber f file) :=
      getElem?_of_mem_entries hin'
    rw [get?_build, ← hid, hget', Option.map_some, Entry.declared_renumber]
    intro name
    rw [NameIndex.contains_of, NameIndex.contains_of, hentries.contains_eq]
  refine ⟨hget, fun name => ?_, fun id hid => ?_, fun i j hi hj hij => ?_⟩
  · -- a name is that of the same declaration in both orders, or of none
    cases hname : (build units).1.lookup name with
    | none =>
      have hnot := lookup_build_eq_none_iff.mp hname
      exact lookup_build_eq_none_iff.mpr fun hmem => hnot (hentries.mem_iff.mpr hmem)
    | some id =>
      obtain ⟨d, hd, hq⟩ := lookup_build_eq_some_iff.mp hname
      obtain ⟨file, hd'⟩ := hget id d hd
      exact lookup_build_eq_some_iff.mpr ⟨_, hd', hq⟩
  · -- the members of a root are carried to those of the same root
    obtain ⟨before, u, after, hunits, hroot, hin⟩ := mem_members_enterUnits.mp hid
    obtain ⟨file, before', after', hunits', hdeclared⟩ := exists_split hperm hunits
    have hcarried := (renumber_enterUnit file (hunits ▸ hnames) (hdeclared ▸ hnames')).2
    rw [← hunits, ← hdeclared] at hcarried
    refine mem_members_enterUnits.mpr ⟨before', u.inFile file, after', hunits', hroot, ?_⟩
    rw [hcarried]
    exact List.mem_map_of_mem hin
  · -- no name is there twice, so places are kept apart
    have hsize : (build units).1.size = (units.flatMap (·.declaredNames)).length := by
      rw [← hentered, length_entryNames]
      exact (standsFor_build units).length_eq
    rw [hsize] at hi hj
    exact placeIn_inj (declaredNames_perm hperm) hnames hi hj hij

end

end

end Table

end ActorIdl
