import ActorIdl.Proofs.Declaration.Growth
import ActorIdl.Proofs.Declaration.Resolution
import ActorIdl.Proofs.Round.Reports
import Mathlib.Data.List.Forall2
/-! # Misused markers

    A marker is borne by a declaration or by a method of one.  It belongs on actor interfaces alone,
    so among the declarations that a round is about every other bearer misuses it.  A round goes
    through its candidates, and through the methods of each of them, and reports each marker once
    for each bearer, however often it stands there. -/

namespace ActorIdl

/-! ## Bearers -/

/-- What can bear a marker: a declaration, or the method of a declaration at a position. -/
inductive Bearer where
  | declaration (id : DeclId)
  | method (id : DeclId) (index : Nat)
deriving DecidableEq

/-- The declaration that bears or has the method that bears. -/
def Bearer.decl : Bearer → DeclId
  | .declaration id => id
  | .method id _ => id

/-- Every marker. -/
def Marker.all : List Marker := [.statelessWorker, .noIdentity]

/-- The code under which the misuse of a marker is reported. -/
def Marker.code : Marker → String
  | .statelessWorker => "E0204"
  | .noIdentity => "E0205"

theorem Marker.mem_all (marker : Marker) : marker ∈ all := by
  cases marker <;> decide

theorem Marker.nodup_all : all.Nodup := by decide

/-- Whether a report is about a misused marker. -/
def Diagnostic.isMarkerReport (d : Diagnostic) : Bool :=
  d.cause.code? == some "E0204" || d.cause.code? == some "E0205"

theorem flatMap_eq_flatMap_positions {α β : Type} {f : α → List β} {g : Nat → List β} {xs : List α}
    (h : ∀ k x, xs[k]? = some x → f x = g k) :
    xs.flatMap f = (List.range xs.length).flatMap g := by
  induction xs generalizing g with
  | nil => rfl
  | cons x xs ih =>
    rw [List.length_cons, List.range_succ_eq_map, List.flatMap_cons, List.flatMap_cons,
      List.flatMap_map, h 0 x rfl, ih fun k y hy => h (k + 1) y hy]

namespace Table

variable {t : Table} {marker : Marker} {b : Bearer}

/-- One annotation at least of a bearer is the marker. -/
inductive Bears (t : Table) (marker : Marker) : Bearer → Prop where
  | declaration {id : DeclId} {d : Declaration} {a : AnnotationRef} : t.get? id = some d →
      a ∈ d.annotations → a.name = marker.name → Bears t marker (.declaration id)
  | method {id : DeclId} {index : Nat} {d : Declaration} {m : Method} {a : AnnotationRef} :
      t.get? id = some d → d.methods[index]? = some m → a ∈ m.annotations → a.name = marker.name →
      Bears t marker (.method id index)

/-- No marker belongs on a bearer that a round is about: it is no actor interface. -/
inductive BansMarkers (t : Table) : Bearer → Prop where
  | declaration {id : DeclId} : t.IsSubject id →
      ¬ (t.isKind id .interfaceType = true ∧ t.role id = .actor) → BansMarkers t (.declaration id)
  | method {id : DeclId} {index : Nat} : t.IsSubject id → BansMarkers t (.method id index)

/-- Where a bearer is and how reports name it. -/
inductive Locates (t : Table) : Bearer → Option Location → Option String → Prop where
  | declaration {id : DeclId} {d : Declaration} : t.get? id = some d →
      Locates t (.declaration id) (some d.location) (some d.qualifiedName)
  | method {id : DeclId} {index : Nat} {d : Declaration} {m : Method} : t.get? id = some d →
      d.methods[index]? = some m →
      Locates t (.method id index) (some m.location) (some (d.qualifiedName ++ "#" ++ m.name))

theorem BansMarkers.isSubject (h : t.BansMarkers b) : t.IsSubject b.decl := by
  cases h with
  | declaration h _ => exact h
  | method h => exact h

/-- Whether a bearer bears a marker. -/
def bears (t : Table) (marker : Marker) : Bearer → Bool
  | .declaration id => t.isMarked id marker.name
  | .method id index => (t.methodsOf id)[index]?.any (·.isMarked marker.name)

theorem methodsOf_of_get? {id : DeclId} {d : Declaration} (hd : t.get? id = some d) :
    t.methodsOf id = d.methods := by
  rw [methodsOf, hd]
  rfl

theorem exists_get?_of_getElem?_methodsOf {id : DeclId} {index : Nat} {m : Method}
    (hm : (t.methodsOf id)[index]? = some m) :
    ∃ d, t.get? id = some d ∧ d.methods[index]? = some m := by
  cases hd : t.get? id with
  | none =>
    rw [methodsOf, hd] at hm
    cases hm
  | some d => exact ⟨d, rfl, methodsOf_of_get? hd ▸ hm⟩

theorem bears_iff : t.bears marker b = true ↔ t.Bears marker b := by
  cases b with
  | declaration id =>
    rw [bears, isMarked, Option.any_eq_true]
    constructor
    · rintro ⟨d, hd, hmarked⟩
      obtain ⟨a, ha, hname⟩ := List.any_eq_true.mp hmarked
      exact .declaration hd ha (beq_iff_eq.mp hname)
    · rintro (⟨hd, ha, hname⟩ | _)
      exact ⟨_, hd, List.any_eq_true.mpr ⟨_, ha, beq_iff_eq.mpr hname⟩⟩
  | method id index =>
    rw [bears, Option.any_eq_true]
    constructor
    · rintro ⟨m, hm, hmarked⟩
      obtain ⟨d, hd, hm⟩ := exists_get?_of_getElem?_methodsOf hm
      obtain ⟨a, ha, hname⟩ := List.any_eq_true.mp hmarked
      exact .method hd hm ha (beq_iff_eq.mp hname)
    · rintro (_ | ⟨hd, hm, ha, hname⟩)
      exact ⟨_, methodsOf_of_get? hd ▸ hm, List.any_eq_true.mpr ⟨_, ha, beq_iff_eq.mpr hname⟩⟩

end Table

/-- An error report about a misused marker, at the bearer. -/
structure Diagnostic.IsMisuse (d : Diagnostic) (t : Table) (marker : Marker) (b : Bearer) : Prop where
  isError : d.isError = true
  code : d.cause.code? = some marker.code
  cause : d.cause = .misplacedMarker marker
  place : t.Locates b d.location d.origin

namespace Table

variable {t : Table}

/-! ## The bearers of a round -/

/-- The bearers among some candidates, those that must be actor interfaces left out. -/
def bearers (t : Table) (actors : List DeclId) (ids : List DeclId) : List Bearer :=
  ids.flatMap fun id => (if actors.contains id then [] else [.declaration id]) ++
    (List.range (t.methodsOf id).length).map (.method id)

/-- The markers that a bearer bears. -/
def misusesOf (t : Table) (b : Bearer) : List (Marker × Bearer) :=
  (Marker.all.filter (t.bears · b)).map fun marker => (marker, b)

/-- The markers that bearers bear. -/
def misuses (t : Table) (bs : List Bearer) : List (Marker × Bearer) := bs.flatMap t.misusesOf

/-- The report about a misused marker. -/
def misuseReport (t : Table) (misuse : Marker × Bearer) : Diagnostic :=
  match misuse.2 with
  | .declaration id => t.reportAt id (.misplacedMarker misuse.1)
  | .method id index =>
    ⟨.misplacedMarker misuse.1, (t.methodsOf id)[index]?.map (·.location),
      (t.methodsOf id)[index]?.map (t.nameOf id ++ "#" ++ ·.name)⟩

theorem mem_misuses {bs : List Bearer} {marker : Marker} {b : Bearer} :
    (marker, b) ∈ t.misuses bs ↔ b ∈ bs ∧ t.Bears marker b := by
  rw [misuses, List.mem_flatMap]
  constructor
  · rintro ⟨b', hb', hmem⟩
    obtain ⟨marker', hmarker, heq⟩ := List.mem_map.mp hmem
    obtain ⟨rfl, rfl⟩ := Prod.mk.inj heq
    exact ⟨hb', bears_iff.mp (List.mem_filter.mp hmarker).2⟩
  · rintro ⟨hb, hbears⟩
    exact ⟨b, hb, List.mem_map_of_mem (List.mem_filter.mpr ⟨marker.mem_all, bears_iff.mpr hbears⟩)⟩

/-- No marker is listed twice for one bearer. -/
theorem nodup_misuses {bs : List Bearer} (h : bs.Nodup) : (t.misuses bs).Nodup := by
  rw [misuses, List.nodup_flatMap]
  constructor
  · intro b _
    exact (Marker.nodup_all.filter _).map fun _ _ heq => congrArg Prod.fst heq
  · refine h.imp fun {b b'} hne misuse hmem hmem' => hne ?_
    obtain ⟨_, _, rfl⟩ := List.mem_map.mp hmem
    obtain ⟨_, _, heq⟩ := List.mem_map.mp hmem'
    exact (congrArg Prod.snd heq).symm

theorem declaration_mem_bearers {actors ids : List DeclId} {id : DeclId} :
    .declaration id ∈ t.bearers actors ids ↔ id ∈ ids ∧ id ∉ actors := by
  rw [bearers, List.mem_flatMap]
  constructor
  · rintro ⟨id', hid, hb⟩
    rcases List.mem_append.mp hb with hb | hb
    · by_cases hactor : id' ∈ actors
      · rw [if_pos (List.contains_iff_mem.mpr hactor)] at hb
        cases hb
      · rw [if_neg (List.contains_iff_mem.not.mpr hactor)] at hb
        cases List.mem_singleton.mp hb
        exact ⟨hid, hactor⟩
    · obtain ⟨_, _, heq⟩ := List.mem_map.mp hb
      cases heq
  · rintro ⟨hid, hactor⟩
    refine ⟨id, hid, List.mem_append_left _ ?_⟩
    rw [if_neg (List.contains_iff_mem.not.mpr hactor)]
    exact List.mem_singleton_self _

theorem method_mem_bearers {actors ids : List DeclId} {id : DeclId} {index : Nat} :
    .method id index ∈ t.bearers actors ids ↔ id ∈ ids ∧ index < (t.methodsOf id).length := by
  rw [bearers, List.mem_flatMap]
  constructor
  · rintro ⟨id', hid, hb⟩
    rcases List.mem_append.mp hb with hb | hb
    · split at hb
      · cases hb
      · cases List.mem_singleton.mp hb
    · obtain ⟨_, hindex, heq⟩ := List.mem_map.mp hb
      cases heq
      exact ⟨hid, List.mem_range.mp hindex⟩
  · rintro ⟨hid, hindex⟩
    exact ⟨id, hid, List.mem_append_right _ (List.mem_map_of_mem (List.mem_range.mpr hindex))⟩

theorem nodup_bearers {actors ids : List DeclId} (h : ids.Nodup) :
    (t.bearers actors ids).Nodup := by
  have hdecl : ∀ id, ∀ b ∈ (if actors.contains id then [] else [Bearer.declaration id]) ++
      (List.range (t.methodsOf id).length).map (.method id), b.decl = id := by
    intro id b hb
    rcases List.mem_append.mp hb with hb | hb
    · split at hb
      · cases hb
      · rw [List.mem_singleton.mp hb]
        rfl
    · obtain ⟨_, _, rfl⟩ := List.mem_map.mp hb
      rfl
  rw [bearers, List.nodup_flatMap]
  constructor
  · intro id _
    refine List.Nodup.append ?_ ?_ ?_
    · split
      · exact List.nodup_nil
      · exact List.nodup_singleton _
    · exact List.nodup_range.map fun _ _ heq => (Bearer.method.inj heq).2
    · -- a declaration is no method
      intro b hb hb'
      obtain ⟨_, _, rfl⟩ := List.mem_map.mp hb'
      split at hb
      · cases hb
      · cases List.mem_singleton.mp hb
  · exact h.imp fun {id id'} hne b hb hb' => hne ((hdecl id b hb).symm.trans (hdecl id' b hb'))

/-! ## The reports of a round -/

/-- The reports about the markers of one bearer. -/
theorem map_misuseReport_misusesOf (t : Table) (b : Bearer) :
    (t.misusesOf b).map t.misuseReport = Marker.all.filterMap fun marker =>
      if t.bears marker b then some (t.misuseReport (marker, b)) else none := by
  rw [misusesOf, List.map_map, ← List.filterMap_eq_map, List.filterMap_filter]
  rfl

theorem markersOn_eq (t : Table) (id : DeclId) :
    t.markersOn id = (t.misusesOf (.declaration id)).map t.misuseReport := by
  rw [map_misuseReport_misusesOf]
  rfl

theorem markersOnMethod_eq {id : DeclId} {index : Nat} {m : Method}
    (hm : (t.methodsOf id)[index]? = some m) :
    t.markersOnMethod id m = (t.misusesOf (.method id index)).map t.misuseReport := by
  rw [map_misuseReport_misusesOf]
  refine List.filterMap_congr fun marker _ => ?_
  have hbears : t.bears marker (.method id index) = m.isMarked marker.name := by
    rw [bears, hm]
    rfl
  have hreport : t.misuseReport (marker, .method id index) =
      ⟨.misplacedMarker marker, some m.location, some (t.nameOf id ++ "#" ++ m.name)⟩ := by
    unfold misuseReport
    dsimp only
    rw [hm]
    rfl
  rw [hbears, hreport]

/-- The markers are reported bearer by bearer. -/
theorem misplacedMarkers_eq (t : Table) (candidates : Candidates) (actors : List DeclId) :
    t.misplacedMarkers candidates actors =
      (t.misuses (t.bearers actors candidates.all)).map t.misuseReport := by
  rw [misuses, bearers, List.flatMap_assoc, List.map_flatMap, misplacedMarkers]
  refine List.flatMap_congr fun id _ => ?_
  have hmethods : (t.methodsOf id).flatMap (t.markersOnMethod id) =
      (((List.range (t.methodsOf id).length).map (.method id)).flatMap t.misusesOf).map
        t.misuseReport := by
    rw [List.flatMap_map, List.map_flatMap]
    exact flatMap_eq_flatMap_positions fun _ _ hm => markersOnMethod_eq hm
  rw [List.flatMap_append, List.map_append, ← hmethods]
  split
  · rfl
  · rw [List.flatMap_singleton, markersOn_eq]

/-- The report about a misused marker is at its bearer. -/
theorem isMisuse_misuseReport {marker : Marker} {b : Bearer} (h : t.Bears marker b) :
    (t.misuseReport (marker, b)).IsMisuse t marker b := by
  have hcode : (Cause.misplacedMarker marker).code? = some marker.code := by
    cases marker <;> rfl
  cases h with
  | @declaration id d _ hd _ _ =>
    refine ⟨rfl, hcode, rfl, ?_⟩
    have hreport : t.misuseReport (marker, .declaration id) =
        ⟨.misplacedMarker marker, some d.location, some d.qualifiedName⟩ := by
      unfold misuseReport reportAt nameOf
      dsimp only
      rw [hd]
      rfl
    rw [hreport]
    exact .declaration hd
  -- a method is named by its declaration and its own name
  | @method id index d m _ hd hm _ _ =>
    refine ⟨rfl, hcode, rfl, ?_⟩
    have hreport : t.misuseReport (marker, .method id index) =
        ⟨.misplacedMarker marker, some m.location, some (d.qualifiedName ++ "#" ++ m.name)⟩ := by
      unfold misuseReport nameOf
      dsimp only
      rw [methodsOf_of_get? hd, hm, hd]
      rfl
    rw [hreport]
    exact .method hd hm

/-! ## The candidates of a round -/

/-- The actor interfaces among the candidates. -/
def actors (t : Table) : List DeclId := t.candidates.interfaces.filter (t.role · == .actor)

theorem mem_actors {id : DeclId} : id ∈ t.actors ↔
    t.IsSubject id ∧ t.isKind id .interfaceType = true ∧ t.role id = .actor := by
  rw [actors, List.mem_filter, mem_interfaces, beq_iff_eq, and_assoc]

/-- Each pair of a marker and a bearer that misuses it is listed, and nothing else. -/
theorem mem_misuses_candidates {marker : Marker} {b : Bearer} :
    (marker, b) ∈ t.misuses (t.bearers t.actors t.candidates.all) ↔
      t.Bears marker b ∧ t.BansMarkers b := by
  rw [mem_misuses, and_comm]
  refine and_congr_right fun hbears => ?_
  cases hbears with
  | @declaration id d _ hd _ _ =>
    rw [declaration_mem_bearers, mem_all_candidates, mem_actors]
    constructor
    · rintro ⟨⟨hsubject, _⟩, hactor⟩
      exact .declaration hsubject fun h => hactor ⟨hsubject, h⟩
    · rintro (⟨hsubject, hactor⟩ | _)
      exact ⟨⟨hsubject, lt_size_of_get? hd⟩, fun h => hactor h.2⟩
  | @method id index d m _ hd hm _ _ =>
    rw [method_mem_bearers, mem_all_candidates, methodsOf_of_get? hd]
    constructor
    · rintro ⟨⟨hsubject, _⟩, _⟩
      exact .method hsubject
    · rintro (_ | hsubject)
      exact ⟨⟨hsubject, lt_size_of_get? hd⟩, (List.getElem?_eq_some_iff.mp hm).1⟩

end Table

/-! ## Rounds with markers -/

namespace Round

section
variable {σ : Type} (filer : Filer σ) (renderer : Renderer) (t : Table)

/-- The codes under which a round reports anything but misused markers. -/
def otherCodes : List String :=
  ["E0201", "E0202", "E0203", "E0206", "E0301", "E0302", "E0401", "E0402", "I0001"]

/-- A stage other than validation adds reports about other things. -/
theorem exists_more_of_run {stage : Stage} (hstage : stage ≠ .validate) (r : Round) (s : σ) :
    ∃ more, (run filer renderer t stage r s).1.reports = r.reports ++ more ∧
      HaveCodes otherCodes more := by
  cases stage with
  | validate => exact absurd rfl hstage
  | assignIds => exact ⟨_, rfl, (haveCodes_collisionReports t _).mono (by decide)⟩
  | render =>
    rw [run_render]
    exact ⟨_, rfl, (haveCodes_writePlans filer t renderer _ s).mono (by decide)⟩
  | register =>
    rw [run_register]
    refine ⟨_, List.append_assoc _ _ _, haveCodes_append.mpr ⟨?_, ?_⟩⟩
    · exact (haveCodes_registerInterfaces filer t _ s).mono (by decide)
    · exact (haveCodes_registerClasses filer t _ _).mono (by decide)
  | _ => exact ⟨[], (List.append_nil _).symm, haveCodes_nil⟩

theorem exists_more_of_runAll {stages : List Stage} (hstages : .validate ∉ stages) (r : Round)
    (s : σ) : ∃ more, (runAll filer renderer t stages r s).1.reports = r.reports ++ more ∧
      HaveCodes otherCodes more := by
  induction stages generalizing r s with
  | nil => exact ⟨[], (List.append_nil _).symm, haveCodes_nil⟩
  | cons stage stages ih =>
    obtain ⟨hstage, hrest⟩ := not_or.mp (List.mem_cons.not.mp hstages)
    obtain ⟨first, hfirst, hcodes⟩ := exists_more_of_run filer renderer t (Ne.symm hstage) r s
    obtain ⟨more, hmore, hmorecodes⟩ := ih hrest (run filer renderer t stage r s).1
      (run filer renderer t stage r s).2
    refine ⟨first ++ more, ?_, haveCodes_append.mpr ⟨hcodes, hmorecodes⟩⟩
    rw [← List.append_assoc, ← hfirst]
    exact hmore

/-- Validation reports the misused markers first. -/
theorem reports_validated (t : Table) :
    ((Stage.required .validate).foldl (runPure t) .start).reports =
      t.misplacedMarkers t.candidates t.actors ++ t.described.flatMap (·.violationReports) := by
  have hactors : ((t.candidates.interfaces.map fun id => (id, t.role id)).filter
      (·.2 == .actor)).map (·.1) = t.actors := by
    rw [List.filter_map, List.map_map]
    exact List.map_id _
  rw [← hactors, ← described_planned]
  rfl

end

end Round

/-- A stage that needs validation comes behind it. -/
theorem Stage.exists_behind_validate {last : Stage} (hlast : .validate ∈ last.required) :
    ∃ behind, last.required = Stage.required .validate ++ behind ∧ .validate ∉ behind := by
  cases last with
  | validate => exact ⟨[], by decide, by decide⟩
  | assignIds => exact ⟨[.assignIds], by decide, by decide⟩
  | plan => exact ⟨[.assignIds, .plan], by decide, by decide⟩
  | render => exact ⟨[.assignIds, .plan, .render], by decide, by decide⟩
  | register => exact ⟨[.assignIds, .plan, .render, .register], by decide, by decide⟩
  | _ => exact absurd hlast (by decide)

section
variable {σ : Type} (filer : Filer σ) (renderer : Renderer) (t : Table) (s : σ)

theorem isMarkerReport_eq_false {codes : List String} {ds : List Diagnostic}
    (h : HaveCodes codes ds) (hcodes : "E0204" ∉ codes ∧ "E0205" ∉ codes) :
    ∀ d ∈ ds, d.isMarkerReport = false := by
  intro d hd
  rw [Diagnostic.isMarkerReport, Bool.or_eq_false_iff, beq_eq_false_iff_ne, beq_eq_false_iff_ne]
  exact ⟨h.ne hcodes.1 d hd, h.ne hcodes.2 d hd⟩

/-- The reports of a round about misused markers are those of its validation. -/
theorem filter_isMarkerReport_processRound {last : Stage} (hlast : .validate ∈ last.required) :
    (processRound filer renderer t last s).1.reports.filter (·.isMarkerReport) =
      t.misplacedMarkers t.candidates t.actors := by
  obtain ⟨behind, hstages, hbehind⟩ := Stage.exists_behind_validate hlast
  obtain ⟨more, hmore, hcodes⟩ := Round.exists_more_of_runAll filer renderer t hbehind
    ((Stage.required .validate).foldl (Round.runPure t) .start) s
  -- nothing is reported in front of the check of the markers, and everything else behind it
  have hreports : (processRound filer renderer t last s).1.reports =
      t.misplacedMarkers t.candidates t.actors ++
        (t.described.flatMap (·.violationReports) ++ more) := by
    rw [processRound, hstages, Round.runAll_append,
      Round.runAll_of_pure filer renderer t (Stage.required .validate) (by decide), hmore,
      Round.reports_validated, List.append_assoc]
  have hviolations : HaveCodes ["E0201", "E0202", "E0203", "E0206"]
      (t.described.flatMap (·.violationReports)) :=
    haveCodes_flatMap fun i _ => haveCodes_violationReports i
  have hmarkers : ∀ d ∈ t.misplacedMarkers t.candidates t.actors, d.isMarkerReport = true := by
    intro d hd
    obtain ⟨code, hcode, heq⟩ := haveCodes_misplacedMarkers t _ _ d hd
    rw [Diagnostic.isMarkerReport, heq]
    rcases List.mem_pair.mp hcode with rfl | rfl <;> rfl
  -- no other stage reports with the codes of the markers
  have hothers : ∀ d ∈ t.described.flatMap (·.violationReports) ++ more,
      d.isMarkerReport = false :=
    List.forall_mem_append.mpr ⟨isMarkerReport_eq_false hviolations (by decide),
      isMarkerReport_eq_false hcodes (by decide)⟩
  have hnone : (t.described.flatMap (·.violationReports) ++ more).filter (·.isMarkerReport) = [] :=
    List.filter_eq_nil_iff.mpr fun d hd => Bool.eq_false_iff.mp (hothers d hd)
  rw [hreports, List.filter_append, List.filter_eq_self.mpr hmarkers, hnone, List.append_nil]

end

/-- A round that validates has one error report, at the bearer, for each pair of a marker and a
    bearer that misuses it: any bearer other than an actor interface, among the declarations that
    the round is about.  It has no other reports under the codes of misused markers; what it reports
    was declared in a root unit, and the compiler wrote neither that nor anything around it. -/
theorem misuses_of_round {σ : Type} (filer : Filer σ) (renderer : Renderer)
    (units : List SourceUnit) (last : Stage) (hlast : .validate ∈ last.required) (s : σ) :
    let t := (Table.build units).1
    let round := (processRound filer renderer t last s).1
    ∃ misuses : List (Marker × Bearer), misuses.Nodup ∧
      (∀ marker b, (marker, b) ∈ misuses ↔ t.Bears marker b ∧ t.BansMarkers b) ∧
      List.Forall₂ (fun misuse d => d.IsMisuse t misuse.1 misuse.2) misuses
        (round.reports.filter (·.isMarkerReport)) ∧
      ∀ misuse ∈ misuses, t.isGenerated misuse.2.decl = false ∧
        ∃ u e, u.isRoot = true ∧ Table.IsEnteredFor units u e ∧ e.id = misuse.2.decl := by
  dsimp only
  have hroot := fun id => @Table.isEnteredFor_of_isSubject units id
  generalize (Table.build units).1 = t at *
  refine ⟨t.misuses (t.bearers t.actors t.candidates.all),
    Table.nodup_misuses (Table.nodup_bearers Table.nodup_all_candidates),
    fun marker b => Table.mem_misuses_candidates, ?_, ?_⟩
  · rw [filter_isMarkerReport_processRound filer renderer t s hlast, Table.misplacedMarkers_eq,
      List.forall₂_map_right_iff, List.forall₂_same]
    rintro ⟨marker, b⟩ hmisuse
    exact Table.isMisuse_misuseReport (Table.mem_misuses_candidates.mp hmisuse).1
  · rintro ⟨marker, b⟩ hmisuse
    have hsubject := (Table.mem_misuses_candidates.mp hmisuse).2.isSubject
    exact ⟨hsubject.not_generated, hroot _ hsubject⟩

/-- A class that bears a marker twice and has a method that bears it too. -/
def markedUnits : List SourceUnit :=
  unitsOfText none
    "import orbit.actors.annotation.NoIdentity; @NoIdentity @NoIdentity class C { @NoIdentity int f(); }"

theorem misuses_of_round_markedClass :
    .validate ∈ Stage.plan.required ∧
      ∃ misuses : List (Marker × Bearer), misuses.Nodup ∧
        (.noIdentity, .declaration 0) ∈ misuses ∧ (.noIdentity, .method 0 0) ∈ misuses ∧
        List.Forall₂ (fun misuse d => d.IsMisuse (Table.build markedUnits).1 misuse.1 misuse.2)
          misuses ((processRound Outputs.filer .default (Table.build markedUnits).1 .plan
            (.empty [])).1.reports.filter (·.isMarkerReport)) := by
  have hlast : .validate ∈ Stage.plan.required := by decide
  obtain ⟨hvisited, hkind, hclass, hmethod⟩ :
      (Table.build markedUnits).1.visited.contains 0 = true ∧
        (Table.build markedUnits).1.isKind 0 .interfaceType = false ∧
        (Table.build markedUnits).1.bears .noIdentity (.declaration 0) = true ∧
        (Table.build markedUnits).1.bears .noIdentity (.method 0 0) = true := by
    rw [markedUnits, unitsOfText_eq none _ rfl]
    decide +kernel
  have hsubject := (Table.mem_visited.mp (List.contains_iff_mem.mp hvisited)).1
  obtain ⟨misuses, hnodup, hmem, hreports, _⟩ :=
    misuses_of_round Outputs.filer .default markedUnits .plan hlast (.empty [])
  refine ⟨hlast, misuses, hnodup, (hmem _ _).mpr ⟨Table.bears_iff.mp hclass, ?_⟩,
    (hmem _ _).mpr ⟨Table.bears_iff.mp hmethod, .method hsubject⟩, hreports⟩
  refine .declaration hsubject fun h => ?_
  rw [hkind] at h
  exact absurd h.1 Bool.false_ne_true

end ActorIdl
