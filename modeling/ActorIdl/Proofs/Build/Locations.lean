import ActorIdl.Proofs.Build.Settling
import ActorIdl.Proofs.Build.Single
import ActorIdl.Proofs.Syntax.Blame
import ActorIdl.Proofs.Syntax.Outline
/-! # Reports stand in the files that they name

    The location of a report is made of a file and a span of the tree of that file, or of a span
    that the parser gives to a fault there.  On the way to a report it passes through the entries,
    the table, the descriptors of inherited methods and several rounds, and the file goes with the
    span all the way.  So what holds of all spans of the units of a round holds of what the round
    reports; the proof goes along the stages, and for a build along its rounds.

    At the start of a span a rendered report cuts the text of the file.  For the locations of a
    build the cut is between two characters of the text or at one of its ends. -/

namespace ActorIdl

open Lexer (IsBoundary)

/-! ## Spans of a text -/

/-- A span of a text that is cut between two characters at both ends. -/
structure CutsText (cs : List Char) (span : Span) : Prop where
  start_le_stop : span.start ≤ span.stop
  start_isBoundary : IsBoundary cs span.start
  stop_isBoundary : IsBoundary cs span.stop

namespace Syntax

variable {source : String}

theorem IsTokenwise.cutsText {cs : List Char} {tokens : List Lexeme} {span : Span}
    (h : IsTokenwise cs tokens span) : CutsText cs span :=
  ⟨Nat.le_of_lt h.start_lt_stop, h.start_isBoundary, h.stop_isBoundary⟩

theorem cutsText_of_has {u : CompilationUnit} (h : (parse source).unit = some u) {o : Outline}
    (ho : o ∈ u.outlines) {span : Span} (hhas : o.Has span) : CutsText source.toList span :=
  ((isSound_of_mem_outlines h ho).isTokenwise_of_has hhas).cutsText

theorem cutsText_of_isBlamable {span : Span}
    (h : IsBlamable source.toList (DocComment.attach (lex source).lexemes) span) :
    CutsText source.toList span := by
  cases h with
  | endOfInput => exact ⟨Nat.le_refl _, ⟨_, List.prefix_rfl, rfl⟩, ⟨_, List.prefix_rfl, rfl⟩⟩
  | tokens hne hts =>
    obtain ⟨hordered, htokenwise⟩ := isRow_attach source
    have hrow : IsRow source.toList (DocComment.attach (lex source).lexemes) _ :=
      ⟨hordered.sublist hts.sublist, fun l hl => htokenwise l (hts.subset hl)⟩
    exact (hrow.isTokenwise_spanOf hne).cutsText

theorem cutsText_of_mem_errors {e : LexicalError × Span} (he : e ∈ (lex source).errors) :
    CutsText source.toList e.2 := by
  obtain ⟨tiles, htiles, hlex⟩ := Lexer.exists_tiles 0 source.toList
  rw [lex, hlex] at he
  obtain ⟨⟨piece, text, span⟩, ht, he⟩ := List.mem_filterMap.mp he
  cases piece <;> cases he
  obtain ⟨hstart, hstop⟩ := htiles.isBoundary ht
  exact ⟨Nat.le_of_lt (htiles.start_lt_stop ht).2, hstart, hstop⟩

/-- Every fault of a source has a span of the source. -/
theorem cutsText_of_mem_faults {fault : SourceFault} (h : fault ∈ (parse source).faults) :
    CutsText source.toList fault.span := by
  have hlexical : ∀ f ∈ (lex source).errors.map (fun e => (⟨.lexical e.1, e.2⟩ : SourceFault)),
      CutsText source.toList f.span := by
    intro f hf
    obtain ⟨e, he, rfl⟩ := List.mem_map.mp hf
    exact cutsText_of_mem_errors he
  let tokens := DocComment.attach (lex source).lexemes
  cases hrun : Parser.unit (Input.start source.toList tokens) none with
  | mk r pending =>
    cases r with
    | some r =>
      rw [parse_of_run hrun] at h
      exact hlexical fault h
    | none =>
      rw [parse_of_failed hrun] at h
      rcases List.mem_append.mp h with h | h
      · exact hlexical fault h
      · -- the one fault of the syntax blames tokens of the input
        have hstart : (Input.start source.toList tokens).GoesOn source.toList tokens :=
          ⟨rfl, List.suffix_refl _⟩
        obtain ⟨hblamable, -⟩ := Parser.blames_unit (fun l hl => spelled_of_mem_attach hl) _ none
          hstart fun _ hf => absurd hf (Option.not_mem_none _)
        rw [hrun] at hblamable
        obtain ⟨f, hf, rfl⟩ := Option.map_eq_some_iff.mp (Option.mem_toList.mp h)
        exact cutsText_of_isBlamable (hblamable f hf)

end Syntax

/-! ## Spans of declarations -/

namespace Syntax

theorem Member.outlines_eq (ms : List Member) : Member.outlines ms = ms.map (·.outline) := by
  induction ms with
  | nil => rfl
  | cons m ms ih =>
    rw [Member.outlines, ih]
    rfl

variable {head : DeclHead} {members : List Member}

theorem has_name : (Member.nested head members).outline.Has head.name.span := by
  have hroot : head.name.outline.Has head.name.span := .root
  rw [Member.outline]
  refine .inner (List.mem_append_left _ ?_) hroot
  exact List.mem_append_right _ List.mem_cons_self

theorem has_supertype {t : TypeExpr} (ht : t ∈ head.extended ∨ t ∈ head.implemented) :
    (Member.nested head members).outline.Has t.span := by
  have hroot : t.outline.Has t.span := by
    cases t
    rw [TypeExpr.outline]
    exact .root
  rw [Member.outline]
  refine .inner (List.mem_append_left _ ?_) hroot
  refine List.mem_append_right _ (List.mem_cons_of_mem _ ?_)
  rw [Grammar.outlines_eq, Grammar.outlines_eq, ← List.map_append]
  exact List.mem_map_of_mem (List.mem_append.mpr ht)

theorem has_member {m : Member} (hm : m ∈ members) {span : Span} (h : m.outline.Has span) :
    (Member.nested head members).outline.Has span := by
  rw [Member.outline]
  refine .inner (List.mem_append_right _ ?_) h
  rw [Member.outlines_eq]
  exact List.mem_map_of_mem hm

theorem has_method (m : Method) : (Member.method m).outline.Has m.span := by
  rw [Member.outline]
  exact .root

end Syntax

/-! ## From units to reports -/

section
variable (P : Location → Prop)

/-- Whatever stands in the tree of the unit has the property at its place. -/
def SourceUnit.IsWithin (u : SourceUnit) : Prop :=
  ∀ o ∈ u.unit.outlines, ∀ span, o.Has span → P ⟨u.file, span⟩

/-- A report that has a location has one with the property. -/
def Diagnostic.IsWithin (d : Diagnostic) : Prop := ∀ l ∈ d.location, P l

/-- The declarations of the table and their methods have locations with the property. -/
structure Table.IsWithin (t : Table) : Prop where
  decls : ∀ id d, t.get? id = some d → P d.location
  methods : ∀ id, ∀ m ∈ t.methodsOf id, P m.location

/-- The member of a file has the property at every place. -/
def Syntax.Member.IsWithin (file : FileId) (m : Syntax.Member) : Prop :=
  ∀ span, m.outline.Has span → P ⟨file, span⟩

end

section
variable {P : Location → Prop}

theorem Diagnostic.isWithin_some {cause : Cause} {l : Location} {origin : Option String} (h : P l) :
    Diagnostic.IsWithin P ⟨cause, some l, origin⟩ := fun _ hl => Option.mem_some.mp hl ▸ h

theorem supertype_of_surplus {qualifiedName : String} {head : Syntax.DeclHead}
    {surplus : Cause × Syntax.TypeExpr} (h : surplusSupertype? qualifiedName head = some surplus) :
    surplus.2 ∈ head.extended ∨ surplus.2 ∈ head.implemented := by
  unfold surplusSupertype? at h
  split at h
  · obtain ⟨t, ht, rfl⟩ := Option.map_eq_some_iff.mp h
    exact .inl (List.mem_of_getElem? ht)
  all_goals
    obtain ⟨t, ht, rfl⟩ := Option.map_eq_some_iff.mp h
    exact .inr (List.mem_of_head? ht)

section
variable {u : SourceUnit}

mutual

theorem isWithin_enterMember (outers : List Outer) (r : Register) (m : Syntax.Member)
    (hm : m.IsWithin P u.file) : ∀ d ∈ (enterMember u outers r m).reports, d.IsWithin P :=
  match m with
  | .method _ => fun _ hd => absurd hd List.not_mem_nil
  | .nested head members => by
    intro d hd
    rw [enterMember] at hd
    dsimp only at hd
    split at hd
    · -- a name that is taken is reported where it stands
      rw [List.mem_singleton.mp hd]
      exact Diagnostic.isWithin_some (hm _ Syntax.has_name)
    · rcases List.mem_append.mp hd with hd | hd
      · obtain ⟨surplus, hsurplus, rfl⟩ := List.mem_map.mp hd
        rw [Option.mem_toList] at hsurplus
        exact Diagnostic.isWithin_some (hm _ (Syntax.has_supertype (supertype_of_surplus hsurplus)))
      · exact isWithin_enterMembers _ _ members
          (fun m hmem span h => hm span (Syntax.has_member hmem h)) d hd

theorem isWithin_enterMembers (outers : List Outer) (r : Register)
    (ms : List Syntax.Member) (hms : ∀ m ∈ ms, m.IsWithin P u.file) :
    ∀ d ∈ (enterMembers u outers r ms).reports, d.IsWithin P :=
  match ms with
  | [] => fun _ hd => absurd hd List.not_mem_nil
  | m :: ms => by
    obtain ⟨hm, hms⟩ := List.forall_mem_cons.mp hms
    rw [enterMembers]
    exact List.forall_mem_append.mpr ⟨isWithin_enterMember outers r m hm,
      isWithin_enterMembers outers _ ms hms⟩

end

theorem SourceUnit.IsWithin.topLevel (h : u.IsWithin P) :
    ∀ m ∈ u.unit.decls.map (·.toMember), m.IsWithin P u.file := by
  intro m hm span hhas
  obtain ⟨d, hd, rfl⟩ := List.mem_map.mp hm
  exact h _ (List.mem_append_right _ (List.mem_map_of_mem hd)) span hhas

end

variable {units : List SourceUnit}

theorem isWithin_enterUnits (hunits : ∀ u ∈ units, u.IsWithin P) (r : Register) :
    ∀ d ∈ (enterUnits r units).reports, d.IsWithin P := by
  induction units generalizing r with
  | nil => exact fun _ hd => absurd hd List.not_mem_nil
  | cons u us ih =>
    obtain ⟨hu, hus⟩ := List.forall_mem_cons.mp hunits
    exact List.forall_mem_append.mpr ⟨isWithin_enterMembers [] r _ hu.topLevel, ih hus _⟩

/-- The name of an entry and its methods have the property where they stand. -/
theorem isWithin_of_mem_entries (hunits : ∀ u ∈ units, u.IsWithin P) {e : Entry}
    (he : e ∈ entriesOf units) :
    P ⟨e.file, e.head.name.span⟩ ∧ ∀ m, .method m ∈ e.members → P ⟨e.file, m.span⟩ := by
  obtain ⟨u, hu, r, he⟩ := mem_enterUnits he
  have hdown : GoesDown u (fun _ m => m.IsWithin P u.file) fun e =>
      P ⟨e.file, e.head.name.span⟩ ∧ ∀ m, .method m ∈ e.members → P ⟨e.file, m.span⟩ := by
    refine fun outers r head members h => ⟨⟨h _ Syntax.has_name, fun m hm => ?_⟩, fun m hm => ?_⟩
    · exact h _ (Syntax.has_member (mem_of_method_mem_enterMembers u hm) (Syntax.has_method m))
    · exact fun span hhas => h span (Syntax.has_member hm hhas)
  exact forall_mem_enterMembers u hdown [] r _ (hunits u hu).topLevel e he

theorem Table.isWithin_build (hunits : ∀ u ∈ units, u.IsWithin P) :
    (Table.build units).1.IsWithin P := by
  refine ⟨fun id d hd => ?_, fun id m hm => ?_⟩
  · rw [get?_build] at hd
    obtain ⟨e, he, rfl⟩ := Option.map_eq_some_iff.mp hd
    exact (isWithin_of_mem_entries hunits (List.mem_of_getElem? he)).1
  · obtain ⟨e, he, written, hentered, rfl⟩ := exists_written_of_mem_methodsOf hm
    exact (isWithin_of_mem_entries hunits he).2 written hentered

end

/-! ## The stages of a round -/

section
variable {P : Location → Prop} {t : Table} (ht : t.IsWithin P)
include ht

theorem Table.IsWithin.reportAt (id : DeclId) (cause : Cause) : (t.reportAt id cause).IsWithin P := by
  intro l hl
  obtain ⟨d, hd, rfl⟩ := Option.map_eq_some_iff.mp hl
  exact ht.decls id d hd

theorem Table.IsWithin.misplacedMarkers (candidates : Candidates) (actors : List DeclId) :
    ∀ d ∈ t.misplacedMarkers candidates actors, d.IsWithin P := by
  intro d hd
  obtain ⟨marker, id, rfl | ⟨m, hm, rfl⟩⟩ := exists_of_mem_misplacedMarkers hd
  · exact ht.reportAt id _
  · exact Diagnostic.isWithin_some (ht.methods id m hm)

theorem Table.IsWithin.collisionReports (is : List InterfaceDescriptor) :
    ∀ d ∈ collisionReports t is, d.IsWithin P := by
  refine List.forall_mem_append.mpr ⟨fun d hd => ?_, fun d hd => ?_⟩
  · obtain ⟨i, -, hd⟩ := List.mem_flatMap.mp hd
    obtain ⟨id, -, hd⟩ := List.mem_flatMap.mp hd
    obtain ⟨pair, -, rfl⟩ := List.mem_map.mp hd
    exact ht.reportAt _ _
  · obtain ⟨id, -, hd⟩ := List.mem_flatMap.mp hd
    obtain ⟨pair, -, rfl⟩ := List.mem_map.mp hd
    exact ht.reportAt _ _

/-- An inherited method keeps the location that it has where it is declared. -/
theorem Table.IsWithin.describe {id : DeclId} {isActor : Bool} {i : InterfaceDescriptor}
    (hi : t.describe id isActor = some i) : ∀ m ∈ i.methods, P m.location := by
  intro m hm
  obtain ⟨d, -, rfl⟩ := Table.describe_eq_some_iff.mp hi
  obtain ⟨above, -, m', hm', rfl⟩ := Table.mem_effectiveMethods hm
  exact ht.methods above m' hm'

end

theorem InterfaceDescriptor.isWithin_violationReports {P : Location → Prop}
    {i : InterfaceDescriptor} (hi : ∀ m ∈ i.methods, P m.location) :
    ∀ d ∈ i.violationReports, d.IsWithin P := by
  intro d hd
  obtain ⟨m, hm, hd⟩ := List.mem_filterMap.mp hd
  obtain ⟨cause, -, rfl⟩ := Option.map_eq_some_iff.mp hd
  exact Diagnostic.isWithin_some (hi m hm)

namespace Round

/-- What a round has made so far has locations with a property: its reports and the methods that it
    may still report. -/
structure IsWithin (P : Location → Prop) (r : Round) : Prop where
  methods : ∀ i ∈ r.descriptors, ∀ m ∈ i.methods, P m.location
  reports : ∀ d ∈ r.reports, d.IsWithin P

section
variable {P : Location → Prop} {σ : Type} (filer : Filer σ) (renderer : Renderer) {t : Table}
  (ht : t.IsWithin P)
include ht

theorem isWithin_writePlans (ps : List Plan) (s : σ) :
    ∀ d ∈ (writePlans filer renderer t ps s).1.2, d.IsWithin P := by
  intro d hd
  rw [writePlans_eq_visit] at hd
  obtain ⟨⟨p, outcome⟩, -, hd⟩ := List.mem_flatMap.mp hd
  cases outcome with
  | ok units => exact List.mem_singleton.mp hd ▸ ht.reportAt p.decl _
  | error cause => exact List.mem_singleton.mp hd ▸ ht.reportAt p.decl _

omit renderer in
theorem isWithin_registerInterfaces (ps : List Plan) (s : σ) :
    ∀ d ∈ (registerInterfaces filer t ps s).1.2, d.IsWithin P := by
  induction ps generalizing s with
  | nil => exact fun _ hd => absurd hd List.not_mem_nil
  | cons p ps ih =>
    unfold registerInterfaces
    dsimp only
    split
    · exact ih _
    · rename_i d houtcome
      obtain ⟨e, rfl⟩ := Manifest.reportAt_of_registerInterface houtcome
      exact List.forall_mem_cons.mpr ⟨ht.reportAt p.decl _, ih _⟩

omit renderer in
theorem isWithin_registerClasses (ids : List DeclId) (s : σ) :
    ∀ d ∈ (registerClasses filer t ids s).1.2, d.IsWithin P := by
  induction ids generalizing s with
  | nil => exact fun _ hd => absurd hd List.not_mem_nil
  | cons id ids ih =>
    unfold registerClasses
    dsimp only
    split
    · exact ih _
    · exact ih _
    · rename_i d houtcome
      obtain ⟨e, rfl⟩ := Manifest.reportAt_of_registerClass houtcome
      exact List.forall_mem_cons.mpr ⟨ht.reportAt id _, ih _⟩

/-- A stage keeps the locations that it is given. -/
theorem IsWithin.run {r : Round} (h : r.IsWithin P) (stage : Stage) (s : σ) :
    (run filer renderer t stage r s).1.IsWithin P := by
  cases stage with
  | walk => exact ⟨h.methods, h.reports⟩
  | classify => exact ⟨h.methods, h.reports⟩
  | describe =>
    -- only this stage finds methods; the later ones keep some of them
    refine ⟨fun i hi => ?_, h.reports⟩
    obtain ⟨role, -, hi⟩ := List.mem_filterMap.mp hi
    exact ht.describe hi
  | validate =>
    refine ⟨fun i hi m hm => ?_, List.forall_mem_append.mpr
      ⟨List.forall_mem_append.mpr ⟨h.reports, ht.misplacedMarkers _ _⟩, fun d hd => ?_⟩⟩
    · obtain ⟨kept, hkept, rfl⟩ := List.mem_map.mp hi
      exact h.methods kept hkept m (List.mem_of_mem_filter hm)
    · obtain ⟨i, hi, hd⟩ := List.mem_flatMap.mp hd
      exact InterfaceDescriptor.isWithin_violationReports (h.methods i hi) d hd
  | assignIds =>
    refine ⟨fun i hi m hm => ?_, List.forall_mem_append.mpr ⟨h.reports, ht.collisionReports _⟩⟩
    obtain ⟨_, hidentified, rfl⟩ := List.mem_map.mp hi
    obtain ⟨described, hdescribed, rfl⟩ := List.mem_map.mp hidentified
    obtain ⟨m', hm', rfl⟩ := List.mem_map.mp (List.mem_of_mem_filter hm)
    exact h.methods described hdescribed m' hm'
  | plan => exact ⟨h.methods, h.reports⟩
  | render =>
    exact ⟨h.methods, List.forall_mem_append.mpr
      ⟨h.reports, isWithin_writePlans filer renderer ht r.plans s⟩⟩
  | register =>
    have hinterfaces := isWithin_registerInterfaces filer ht (r.written.map (·.1)) s
    have hclasses := isWithin_registerClasses filer ht r.candidates.classes
      (registerInterfaces filer t (r.written.map (·.1)) s).2
    exact ⟨h.methods, List.forall_mem_append.mpr
      ⟨List.forall_mem_append.mpr ⟨h.reports, hinterfaces⟩, hclasses⟩⟩

end

end Round

/-- What a round reports has the locations of its table. -/
theorem isWithin_processRound {P : Location → Prop} {σ : Type} (filer : Filer σ)
    (renderer : Renderer) {t : Table} (ht : t.IsWithin P) (last : Stage) (s : σ) :
    ∀ d ∈ (processRound filer renderer t last s).1.reports, d.IsWithin P := by
  have hstart : Round.start.IsWithin P :=
    ⟨fun _ hi => absurd hi List.not_mem_nil, fun _ hd => absurd hd List.not_mem_nil⟩
  exact (@Round.runAll_keeps _ filer renderer t (fun r _ => r.IsWithin P)
    (fun stage _ s h => h.run filer renderer ht stage s) _ _ _ hstart).reports

/-! ## Files -/

/-- The location is a span of a file that is there. -/
def SourceMap.Holds (sources : SourceMap) (l : Location) : Prop :=
  ∃ f, sources[l.file]? = some f ∧ CutsText f.text.toList l.span

theorem SourceMap.Holds.append {sources : SourceMap} {l : Location} (h : sources.Holds l)
    (new : SourceMap) : (sources ++ new).Holds l := by
  obtain ⟨f, hf, hcuts⟩ := h
  refine ⟨f, ?_, hcuts⟩
  rw [List.getElem?_append_left (List.getElem?_eq_some_iff.mp hf).1, hf]

namespace Build

/-- The tree of the file has all its spans in the file. -/
def ParsedFile.IsHeld (sources : SourceMap) (f : ParsedFile) : Prop :=
  ∀ o ∈ f.unit.outlines, ∀ span, o.Has span → sources.Holds ⟨f.file, span⟩

/-- Files that are added are numbered behind the others, and so are their trees and their faults. -/
theorem isHeld_parseFiles (sources new : SourceMap) :
    (∀ f ∈ (parseFiles sources.length new).1, f.IsHeld (sources ++ new)) ∧
      ∀ d ∈ (parseFiles sources.length new).2, d.IsWithin (sources ++ new).Holds := by
  have hnth : ∀ {i : Nat} {f : SourceFile}, new[i]? = some f →
      (sources ++ new)[sources.length + i]? = some f := by
    intro i f hf
    rw [List.getElem?_append_right (Nat.le_add_right _ _), Nat.add_sub_cancel_left, hf]
  constructor
  · intro f hf o ho span hhas
    obtain ⟨i, source, hsource, hunit, hfile, -⟩ := mem_parseFiles hf
    exact ⟨source, hfile ▸ hnth hsource, Syntax.cutsText_of_has hunit ho hhas⟩
  · intro d hd
    obtain ⟨parsed, hparsed, hd⟩ := List.mem_flatMap.mp hd
    obtain ⟨i, hi, rfl⟩ := List.mem_mapIdx.mp hparsed
    obtain ⟨fault, hfault, rfl⟩ := List.mem_map.mp hd
    exact Diagnostic.isWithin_some ⟨new[i], hnth (List.getElem?_eq_getElem hi),
      Syntax.cutsText_of_mem_faults hfault⟩

theorem ParsedFile.IsHeld.append {sources : SourceMap} {f : ParsedFile} (h : f.IsHeld sources)
    (new : SourceMap) : f.IsHeld (sources ++ new) :=
  fun o ho span hhas => (h o ho span hhas).append new

theorem isWithin_unitsOf {sources : SourceMap} {files : List ParsedFile}
    (hfiles : ∀ f ∈ files, f.IsHeld sources) (firstNew : FileId) :
    ∀ u ∈ unitsOf files firstNew, u.IsWithin sources.Holds := by
  intro u hu
  obtain ⟨f, hf, rfl⟩ := List.mem_map.mp hu
  exact hfiles f hf

end Build

/-! ## Rounds of a build -/

/-- What a compilation has reported is in its files. -/
def Compilation.IsHeld (c : Compilation) : Prop := ∀ d ∈ c.diagnostics, d.IsWithin c.sources.Holds

theorem Diagnostic.IsWithin.append {sources : SourceMap} {d : Diagnostic}
    (h : d.IsWithin sources.Holds) (new : SourceMap) : d.IsWithin (sources ++ new).Holds :=
  fun l hl => (h l hl).append new

namespace Build

section
variable {σ : Type} (filer : Filer σ) (renderer : Renderer) (outDir : String) (last : Stage)
  {files : List ParsedFile} {firstNew : FileId} {c : Compilation} {s : σ}
  (hfiles : ∀ f ∈ files, f.IsHeld c.sources)
include hfiles

/-- What a round reports of the files that it knows is in these files. -/
theorem isWithin_roundAt (more : Nat) (known : FileId) :
    let b := (roundAt filer renderer outDir last more files firstNew known s).1
    ∀ d ∈ b.reports ++ b.made.reports, d.IsWithin c.sources.Holds := by
  have hunits := isWithin_unitsOf hfiles firstNew
  dsimp only
  rw [reports_roundAt, made_roundAt]
  exact List.forall_mem_append.mpr
    ⟨fun d hd => isWithin_enterUnits hunits .start d (List.mem_of_mem_filter hd),
      isWithin_processRound filer renderer (Table.isWithin_build hunits) last s⟩

/-- A round reports in the files that there are after it: the faults of stubs are in the stubs. -/
theorem isHeld_afterRound (hc : c.IsHeld) (more : Nat) :
    (afterRound outDir more
      (roundAt filer renderer outDir last more files firstNew c.sources.length s).1 c).IsHeld := by
  have hround := @isWithin_roundAt σ filer renderer outDir last files firstNew c s hfiles more
    c.sources.length
  have hafter := after_roundAt filer renderer outDir last more files firstNew c.sources.length s
  generalize (roundAt filer renderer outDir last more files firstNew c.sources.length s).1 = b at *
  intro d hd
  rw [(collects_afterRound outDir more b c).diagnostics, List.flatMap_singleton,
    BuildRound.diagnostics, hafter] at hd
  -- what is reported up to the round is in the files known there, which stay as they are
  have hold : d ∈ c.diagnostics ++ (b.reports ++ b.made.reports) → d.IsWithin c.sources.Holds :=
    fun hd => List.forall_mem_append.mpr ⟨hc, hround⟩ d hd
  rw [← List.append_assoc] at hd
  unfold reportsAfter at hd
  -- files are added only if there are stubs and a round is left for them
  by_cases hstubs : b.made.stubs = []
  · have hsources : (afterRound outDir more b c).sources = c.sources := by simp [afterRound, hstubs]
    rw [hstubs, List.isEmpty_nil, if_pos rfl, List.append_nil] at hd
    rw [hsources]
    exact hold hd
  · rw [if_neg (by rwa [List.isEmpty_iff])] at hd
    cases more with
    | zero =>
      have hsources : (afterRound outDir 0 b c).sources = c.sources := by simp [afterRound]
      rw [hsources]
      rcases List.mem_append.mp hd with hd | hd
      · exact hold hd
      · rw [List.mem_singleton.mp hd]
        exact fun _ hl => absurd hl (Option.not_mem_none _)
    | succ more =>
      rw [sources_afterRound outDir c rfl]
      rcases List.mem_append.mp hd with hd | hd
      · exact (hold hd).append _
      · exact (isHeld_parseFiles c.sources _).2 d hd

/-- On all its rounds a build reports in its files. -/
theorem isHeld_runRounds (hc : c.IsHeld) (more : Nat) :
    (runRounds filer renderer outDir last more files firstNew c s).1.IsHeld := by
  -- on the number of rounds that are still allowed
  induction more generalizing files firstNew c s with
  | zero =>
    have hround := @isHeld_afterRound σ filer renderer outDir last files firstNew c s hfiles hc 0
    rw [runRounds_eq]
    dsimp only
    rw [ite_self]
    exact hround
  | succ more ih =>
    have hround := @isHeld_afterRound σ filer renderer outDir last files firstNew c s hfiles hc
      (more + 1)
    rw [runRounds_eq]
    dsimp only
    split
    · exact hround
    · -- the next round knows the stubs of this one too
      refine ih ?_ hround
      rw [sources_afterRound outDir c rfl]
      exact List.forall_mem_append.mpr ⟨fun f hf => (hfiles f hf).append _,
        (isHeld_parseFiles c.sources _).1⟩

end

/-- A build reports in its files. -/
theorem isHeld_compile {σ : Type} {tree : FileTree} {options : BuildOptions} {filer : Filer σ}
    {renderer : Renderer} {s s' : σ} {c : Compilation}
    (h : compile tree options filer renderer s = (.ok c, s')) : c.IsHeld := by
  cases hlast : options.emit.lastStage? with
  | none =>
    -- nothing is compiled, so nothing is reported
    unfold compile at h
    split at h
    · cases h
    · rw [hlast] at h
      cases h
      exact fun _ hd => absurd hd List.not_mem_nil
  | some last =>
    obtain ⟨sources, -, hrun⟩ := compile_eq hlast h
    obtain ⟨hfiles, hfaults⟩ := isHeld_parseFiles [] sources
    rw [List.length_nil] at hfiles hfaults
    have hheld := @isHeld_runRounds σ filer renderer options.outDir last _ librarySources.length
      (read sources) s hfiles hfaults (maxRounds - 1)
    rw [hrun] at hheld
    exact hheld

end Build

/-! ## Rendering -/

theorem takeBytes_of_isBoundary {cs : List Char} {n : Nat} (h : IsBoundary cs n) :
    Text.takeBytes n cs <+: cs ∧ Text.byteLength (Text.takeBytes n cs) = n := by
  obtain ⟨pre, ⟨rest, rfl⟩, rfl⟩ := h
  rw [Text.takeBytes_append]
  exact ⟨List.prefix_append pre rest, rfl⟩

/-- The place in front of a rendered report is counted in the text before the span. -/
theorem SourceMap.Holds.render {sources : SourceMap} {d : Diagnostic} {l : Location}
    (hl : d.location = some l) (h : sources.Holds l) :
    ∃ f pre, sources[l.file]? = some f ∧ pre <+: f.text.toList ∧
      Text.byteLength pre = l.span.start ∧
      sources.render d = f.path ++ ":" ++ toString (positionAfter 1 1 pre).1 ++ ":" ++
        toString (positionAfter 1 1 pre).2 ++ ": " ++ d.text := by
  obtain ⟨f, hf, hcuts⟩ := h
  obtain ⟨hpre, hlength⟩ := takeBytes_of_isBoundary hcuts.start_isBoundary
  refine ⟨f, _, hf, hpre, hlength, ?_⟩
  unfold SourceMap.render
  rw [hl]
  dsimp only
  rw [hf]
  rfl

/-- In the tree of a source with tokens every node, the unit included, goes from the start of a
    token to the end of one, is not empty and begins and ends between two characters; every name is
    the text at its place; and the children of a node lie inside it, disjoint and in the order of
    the source.  The unit of a source without tokens has nothing below it and the empty span at the
    end of the source; the doc comments that are dropped are no tokens here.  What a build reports
    with a location is, whatever it is and in whatever round, in a file that the build has: the span
    is cut between two characters of that file at both ends, and the line and column in front of the
    rendered report are those behind exactly the text before the span. -/
theorem spans_within_sources :
    (∀ (source : String) (u : Syntax.CompilationUnit), (Syntax.parse source).unit = some u →
      let tokens := DocComment.attach (lex source).lexemes
      (tokens ≠ [] → u.outline.IsSound source.toList tokens) ∧
        (tokens = [] → u = ⟨none, [], [],
          ⟨Text.byteLength source.toList, Text.byteLength source.toList⟩⟩)) ∧
    ∀ {σ : Type} (tree : FileTree) (options : BuildOptions) (filer : Filer σ) (renderer : Renderer)
      (s s' : σ) (c : Compilation), compile tree options filer renderer s = (.ok c, s') →
      ∀ d ∈ c.diagnostics, ∀ l, d.location = some l →
        c.sources.Holds l ∧
        ∃ f pre, c.sources[l.file]? = some f ∧ pre <+: f.text.toList ∧
          Text.byteLength pre = l.span.start ∧
          c.sources.render d = f.path ++ ":" ++ toString (positionAfter 1 1 pre).1 ++ ":" ++
            toString (positionAfter 1 1 pre).2 ++ ": " ++ d.text := by
  refine ⟨fun source u h => ⟨Syntax.isSound_of_parse h, Syntax.eq_of_parse_of_no_tokens h⟩,
    fun tree options filer renderer s s' c h d hd l hl => ?_⟩
  have hheld : c.sources.Holds l := Build.isHeld_compile h d hd l hl
  exact ⟨hheld, hheld.render hl⟩

/-- The empty source has a unit, and no span of the empty source is that of a node that is not
    empty. -/
theorem not_isSound_empty :
    ∃ u, (Syntax.parse "").unit = some u ∧ u.span = ⟨0, 0⟩ ∧
      ∀ tokens, ¬ u.outline.IsSound "".toList tokens := by
  obtain ⟨u, hu, hspan⟩ : ∃ u, (Syntax.parse "").unit = some u ∧ u.span = ⟨0, 0⟩ :=
    Option.map_eq_some_iff.mp (by decide +kernel :
      (Syntax.parse "").unit.map (·.span) = some ⟨0, 0⟩)
  refine ⟨u, hu, hspan, fun tokens hsound => ?_⟩
  have hlt := (hsound.isTokenwise_of_has .root).start_lt_stop
  rw [hspan] at hlt
  exact absurd hlt (Nat.lt_irrefl 0)

/-- A source with three declarations, behind a character of two bytes: one of them has a surplus
    type and another a name that is taken. -/
def surplusSource : String :=
  "@A(\"é\") interface I \x7b @B C<D, E.f[]> m(F g); \x7d class G extends I, I; interface I;"

/-- The surplus type is reported at the type, the other declaration at its name. -/
theorem locations_surplusSource :
    (Build.runRounds Outputs.filer .default "out" .plan (maxRounds - 1)
      (Build.parseFiles 0 (singleSources surplusSource)).1 Build.librarySources.length
      (Build.read (singleSources surplusSource)) (.empty [])).1.diagnostics.map (·.location) =
        [some ⟨4, ⟨67, 68⟩⟩, some ⟨4, ⟨80, 81⟩⟩] := by
  rw [Build.read, parseFiles_single (rfl : surplusSource = String.ofList _)]
  decide +kernel

theorem spans_within_sources_surplusSource :
    (∃ u, (Syntax.parse surplusSource).unit = some u ∧ u.span = ⟨0, 82⟩ ∧ u.outlines.length = 3 ∧
      u.outline.IsSound surplusSource.toList (DocComment.attach (lex surplusSource).lexemes)) ∧
    ∃ c o, compile (.single surplusSource) ⟨["A.orbit"], "out", .plans⟩ Outputs.filer .default
        (.empty []) = (.ok c, o) ∧
      ∃ d ∈ c.diagnostics, d.location = some ⟨4, ⟨80, 81⟩⟩ ∧
        c.sources.Holds ⟨4, ⟨80, 81⟩⟩ ∧
        ∃ f pre, c.sources[4]? = some f ∧ pre <+: f.text.toList ∧ Text.byteLength pre = 80 ∧
          c.sources.render d = f.path ++ ":" ++ toString (positionAfter 1 1 pre).1 ++ ":" ++
            toString (positionAfter 1 1 pre).2 ++ ": " ++ d.text := by
  constructor
  · obtain ⟨u, hu, hunit⟩ : ∃ u, (Syntax.parse surplusSource).unit = some u ∧
        (u.span, u.outlines.length) = (⟨0, 82⟩, 3) := by
      have hunit : ((Syntax.parse surplusSource).unit.map fun u => (u.span, u.outlines.length)) =
          some (⟨0, 82⟩, 3) := by
        rw [Syntax.parse_eq_parseChars (rfl : surplusSource = String.ofList _)]
        decide +kernel
      exact Option.map_eq_some_iff.mp hunit
    obtain ⟨hspan, hlength⟩ := Prod.mk.inj hunit
    refine ⟨u, hu, hspan, hlength, (spans_within_sources.1 surplusSource u hu).1 fun hnil => ?_⟩
    rw [(spans_within_sources.1 surplusSource u hu).2 hnil] at hlength
    cases hlength
  · obtain ⟨c, o, hcompile, hlocations⟩ : ∃ c o, compile (.single surplusSource)
        ⟨["A.orbit"], "out", .plans⟩ Outputs.filer .default (.empty []) = (.ok c, o) ∧
        c.diagnostics.map (·.location) =
          [some ⟨4, ⟨67, 68⟩⟩, some ⟨4, ⟨80, 81⟩⟩] :=
      ⟨_, _, Build.compile_of_loadInputs rfl (loadInputs_single surplusSource),
        locations_surplusSource⟩
    have hmem : some ⟨4, ⟨80, 81⟩⟩ ∈ c.diagnostics.map (·.location) := by
      rw [hlocations]
      exact List.mem_cons_of_mem _ List.mem_cons_self
    obtain ⟨d, hd, hl⟩ := List.mem_map.mp hmem
    exact ⟨c, o, hcompile, d, hd, hl,
      spans_within_sources.2 _ _ _ _ _ _ c hcompile d hd _ hl⟩

end ActorIdl
