import ActorIdl.Proofs.Declaration.Dotted
import ActorIdl.Proofs.Declaration.Growth
/-! # Qualified and binary names

    The qualified names of a table are pairwise distinct: a declaration whose name is taken is not
    entered.  Binary names are made beside them and never looked up.  Both lead to a declaration by
    way of the declarations around it, the one with dots between their names and the other with
    dollars.  No identifier has a dot in it, but an identifier can have a dollar.  So binary names
    are distinct as long as no declaration has a dollar in its own name, and they can be equal if
    one has. -/

namespace ActorIdl

open Text

/-! ## Names in a package -/

theorem qualify_append (package simple s : String) :
    qualify package simple ++ s = qualify package (simple ++ s) := by
  unfold qualify
  split
  · rfl
  · rw [String.append_assoc]

/-- The package of a name without dots can be read off the qualified name. -/
theorem qualify_inj {package package' s t : String} (hs : '.' ∉ s.toList) (ht : '.' ∉ t.toList)
    (h : qualify package s = qualify package' t) : package = package' ∧ s = t := by
  have hdot : ∀ p w, '.' ∈ (p ++ "." ++ w : String).toList := fun p w => by simp
  unfold qualify at h
  split at h
  · rename_i hpackage
    split at h
    · rename_i hpackage'
      exact ⟨hpackage.trans hpackage'.symm, h⟩
    · exact absurd (hdot _ _) (h ▸ hs)
  · split at h
    · exact absurd (hdot _ _) (h ▸ ht)
    · have heq := eq_of_append_dot_eq hs ht h
      rw [heq, String.append_left_inj, String.append_left_inj] at h
      exact ⟨h, heq⟩

/-! ## The way to a declaration -/

/-- The simple names that lead to a declaration, from the outermost one to its own. -/
def pathIn (outers : List Outer) (simple : String) : List String :=
  outers.reverse.map (·.simpleName) ++ [simple]

theorem pathIn_ne_nil (outers : List Outer) (simple : String) : pathIn outers simple ≠ [] :=
  List.append_ne_nil_of_right_ne_nil _ (List.cons_ne_nil _ _)

theorem pathIn_cons (o : Outer) (os : List Outer) (simple : String) :
    pathIn (o :: os) simple = pathIn os o.simpleName ++ [simple] := by
  rw [pathIn, pathIn, List.reverse_cons, List.map_append]
  rfl

/-- A qualified name joins the names on the way with dots, a binary name with dollars. -/
theorem OutersFit.names {package : String} {outers : List Outer} (h : OutersFit package outers)
    (simple : String) :
    qualifiedNameIn package outers simple =
        qualify package (joinWith "." (pathIn outers simple)) ∧
      binaryNameIn package outers simple =
        qualify package (joinWith "$" (pathIn outers simple)) := by
  induction h generalizing simple with
  | nil => exact ⟨rfl, rfl⟩
  | @cons o os _ hqualified hbinary ih =>
    obtain ⟨hq, hb⟩ := ih o.simpleName
    have hne := pathIn_ne_nil os o.simpleName
    constructor
    · rw [pathIn_cons, joinWith_append _ hne, String.append_assoc, ← qualify_append, ← hq,
        ← hqualified, ← String.append_assoc]
      rfl
    · rw [pathIn_cons, joinWith_append _ hne, String.append_assoc, ← qualify_append, ← hb,
        ← hbinary, ← String.append_assoc]
      rfl

namespace Entry

/-- The simple names that lead to an entry. -/
def path (e : Entry) : List String := pathIn e.outers e.simpleName

theorem WellNamed.not_mem_path {e : Entry} (h : e.WellNamed) : ∀ w ∈ e.path, '.' ∉ w.toList := by
  intro w hw
  rcases List.mem_append.mp hw with hw | hw
  · obtain ⟨o, ho, rfl⟩ := List.mem_map.mp hw
    exact (h.outers o (List.mem_reverse.mp ho)).1.not_mem (by decide)
  · rw [List.mem_singleton.mp hw]
    exact h.head.name.1.not_mem (by decide)

/-- Entries with one binary name have one qualified name if there is no dollar on the way to
    them. -/
theorem Fits.qualifiedName_eq {u u' : SourceUnit} {e e' : Entry} (hfits : e.Fits u)
    (hfits' : e'.Fits u') (hwell : e.WellNamed) (hwell' : e'.WellNamed)
    (hpath : ∀ w ∈ e.path, '$' ∉ w.toList) (hpath' : ∀ w ∈ e'.path, '$' ∉ w.toList)
    (h : e.binaryName = e'.binaryName) : e.qualifiedName = e'.qualifiedName := by
  obtain ⟨hq, hb⟩ := hfits.outers.names e.simpleName
  obtain ⟨hq', hb'⟩ := hfits'.outers.names e'.simpleName
  rw [hfits.binaryName, hfits'.binaryName, hb, hb'] at h
  have hdot : '.' ∉ "$".toList := by decide
  -- the only dots of a binary name are in and behind its package
  obtain ⟨hpackage, hnames⟩ := qualify_inj (not_mem_joinWith hdot hwell.not_mem_path)
    (not_mem_joinWith hdot hwell'.not_mem_path) h
  have hsame : pathIn e.outers e.simpleName = pathIn e'.outers e'.simpleName :=
    joinWith_inj rfl hpath hpath' (pathIn_ne_nil _ _) (pathIn_ne_nil _ _) hnames
  rw [hfits.qualifiedName, hfits'.qualifiedName, hq, hq', hpackage, hsame]

end Entry

/-! ## The declarations around an entry -/

section
variable (u : SourceUnit)

mutual

theorem outers_enterMember (outers : List Outer) (r : Register) (m : Syntax.Member) :
    ∀ e ∈ (enterMember u outers r m).entries, ∀ o ∈ e.outers,
      o ∈ outers ∨ ∃ e' ∈ (enterMember u outers r m).entries, e'.asOuter = o :=
  match m with
  | .method _ => fun _ he => absurd he List.not_mem_nil
  | .nested head members => by
    intro e he o ho
    by_cases hname : qualifiedNameIn u.package outers head.name.text ∈ r
    · rw [(enterMember_nested_of_mem u members hname).1] at he
      cases he
    · rw [(enterMember_nested_of_not_mem u members hname).1] at he ⊢
      rcases List.mem_cons.mp he with rfl | he
      · exact .inl ho
      · rcases outers_enterMembers _ _ members e he o ho with hin | ⟨e', he', heq⟩
        · rcases List.mem_cons.mp hin with rfl | hin
          · exact .inr ⟨_, List.mem_cons_self, rfl⟩
          · exact .inl hin
        · exact .inr ⟨e', List.mem_cons_of_mem _ he', heq⟩

/-- What is around an entry is around the place too, or it is entered with the entry. -/
theorem outers_enterMembers (outers : List Outer) (r : Register)
    (ms : List Syntax.Member) :
    ∀ e ∈ (enterMembers u outers r ms).entries, ∀ o ∈ e.outers,
      o ∈ outers ∨ ∃ e' ∈ (enterMembers u outers r ms).entries, e'.asOuter = o :=
  match ms with
  | [] => fun _ he => absurd he List.not_mem_nil
  | m :: ms => by
    intro e he o ho
    rw [enterMembers_cons] at he ⊢
    rcases List.mem_append.mp he with he | he
    · rcases outers_enterMember outers r m e he o ho with hin | ⟨e', he', heq⟩
      · exact .inl hin
      · exact .inr ⟨e', List.mem_append_left _ he', heq⟩
    · rcases outers_enterMembers outers _ ms e he o ho with hin | ⟨e', he', heq⟩
      · exact .inl hin
      · exact .inr ⟨e', List.mem_append_right _ he', heq⟩

end

end

/-- Whatever is around an entry of a build is an entry itself. -/
theorem outers_of_mem_entries {units : List SourceUnit} {e : Entry} (he : e ∈ entriesOf units) :
    ∀ o ∈ e.outers, ∃ e' ∈ entriesOf units, e'.asOuter = o := by
  intro o ho
  obtain ⟨u, hu⟩ := Table.isEnteredFor_of_mem_entries he
  obtain ⟨before, after, hunits, hentered⟩ := hu
  rcases outers_enterMembers u [] _ _ e hentered o ho with hin | ⟨e', he', heq⟩
  · cases hin
  · exact ⟨e', (Table.IsEnteredFor.mem ⟨before, after, hunits, he'⟩).2, heq⟩

/-! ## The names of a table -/

/-- No two declarations of a table have one qualified name.  No two declarations of parsed units
    have one binary name either, provided that none has a dollar in its simple name.  Package hints
    do not matter. -/
theorem names_of_build (units : List SourceUnit) :
    let decls := (Table.build units).1.decls
    (decls.map (·.qualifiedName)).Nodup ∧
      ((∀ u ∈ units, u.IsParsed) → (∀ d ∈ decls, '$' ∉ d.simpleName.toList) →
        (decls.map (·.binaryName)).Nodup) := by
  intro decls
  have hqualified : (decls.map (·.qualifiedName)).Nodup := by
    rw [Table.map_qualifiedName_build]
    exact nodup_entryNames units
  refine ⟨hqualified, fun hunits hdollar => ?_⟩
  have hdecls : decls = _ := Table.decls_build
  rw [hdecls] at hqualified hdollar ⊢
  -- no way to a declaration leads through a name with a dollar
  have hpath : ∀ e ∈ entriesOf units, ∀ w ∈ e.path, '$' ∉ w.toList := by
    intro e he w hw
    have hentry : ∀ e' ∈ entriesOf units, '$' ∉ e'.simpleName.toList :=
      fun e' he' => hdollar _ (List.mem_map_of_mem he')
    rcases List.mem_append.mp hw with hw | hw
    · obtain ⟨o, ho, rfl⟩ := List.mem_map.mp hw
      obtain ⟨e', he', rfl⟩ := outers_of_mem_entries he o (List.mem_reverse.mp ho)
      exact hentry e' he'
    · rw [List.mem_singleton.mp hw]
      exact hentry e he
  have hwell : ∀ u ∈ units, u.unit.WellNamed := by
    intro u hu
    obtain ⟨_, hparse⟩ := hunits u hu
    exact Syntax.wellNamed_of_parse hparse
  rw [List.Nodup, List.pairwise_map] at hqualified ⊢
  refine hqualified.imp_of_mem fun {d d'} hd hd' hne heq => hne ?_
  obtain ⟨e, he, rfl⟩ := List.mem_map.mp hd
  obtain ⟨e', he', rfl⟩ := List.mem_map.mp hd'
  obtain ⟨u, hu, hfits, hentry⟩ := fits_of_mem_enterUnits he
  obtain ⟨u', hu', hfits', hentry'⟩ := fits_of_mem_enterUnits he'
  exact hfits.qualifiedName_eq hfits' (hentry (hwell u hu)) (hentry' (hwell u' hu'))
    (hpath e he) (hpath e' he') heq

theorem names_of_build_nested :
    let decls := (Table.build (unitsOfText (some "a$b") "class A { class B; } class C;")).1.decls
    (∀ d ∈ decls, '$' ∉ d.simpleName.toList) ∧ (decls.map (·.binaryName)).Nodup ∧
      decls.map (·.binaryName) = ["a$b.A", "a$b.A$B", "a$b.C"] := by
  intro decls
  obtain ⟨hnone, hbinary⟩ : decls.all (fun d => !d.simpleName.toList.contains '$') = true ∧
      decls.map (·.binaryName) = ["a$b.A", "a$b.A$B", "a$b.C"] := by
    unfold decls
    rw [unitsOfText_eq _ _ rfl]
    decide +kernel
  have hdollar : ∀ d ∈ decls, '$' ∉ d.simpleName.toList := by
    intro d hd
    simpa using List.all_eq_true.mp hnone d hd
  have hparsed : ∀ u ∈ unitsOfText (some "a$b") "class A { class B; } class C;", u.IsParsed :=
    fun u hu => (isParsed_of_mem_unitsOfText hu).1
  exact ⟨hdollar, (names_of_build _).2 hparsed hdollar, hbinary⟩

/-- A declaration with a dollar in its name can have the binary name of a nested one. -/
theorem binaryNames_of_dollar :
    ¬ ((Table.build (unitsOfText none "class A { class B; } class A$B;")).1.decls.map
      (·.binaryName)).Nodup := by
  have hnames : (Table.build (unitsOfText none "class A { class B; } class A$B;")).1.decls.map
      (·.binaryName) = ["A", "A$B", "A$B"] := by
    rw [unitsOfText_eq _ _ rfl]
    decide +kernel
  rw [hnames]
  decide

end ActorIdl
