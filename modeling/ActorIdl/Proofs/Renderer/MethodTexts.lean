import ActorIdl.Generated.Module
import ActorIdl.Proofs.Lists
/-! # Methods in generated code

    Before a plan is rendered, every method is given its identifier, and its parameters theirs.
    This fails at the first name that is taken and at the first type that has no text.  What it
    means to succeed does not depend on the order in which this happens: names that differ, and a
    text for every type. -/

namespace ActorIdl.Generated

/-! ## Names of methods -/

/-- The identifiers that methods are to have: a method of a name that others have had before has the
    number of these behind it. -/
def assignedNames (methods : List MethodDescriptor) : List String :=
  methods.mapIdx fun i m =>
    overloadIdentifier m.name ((methods.take i).countP (·.name == m.name))

/-- The identifiers of further methods. -/
def assignedAfter (before methods : List MethodDescriptor) : List String :=
  methods.mapIdx fun i m =>
    overloadIdentifier m.name ((before ++ methods.take i).countP (·.name == m.name))

@[simp] theorem length_assignedNames (methods : List MethodDescriptor) :
    (assignedNames methods).length = methods.length := by
  simp [assignedNames]

theorem assignedAfter_cons (before : List MethodDescriptor) (m : MethodDescriptor)
    (ms : List MethodDescriptor) : assignedAfter before (m :: ms) =
      overloadIdentifier m.name (before.countP (·.name == m.name)) ::
        assignedAfter (before ++ [m]) ms := by
  simp [assignedAfter, List.mapIdx_cons]

section

variable {before : List (MethodDescriptor × String)} {m : MethodDescriptor}
  {ms : List MethodDescriptor} {name : String}
  (hname : name = overloadIdentifier m.name (before.countP (·.1.name == m.name)))
include hname

/-- A method whose identifier another method has. -/
theorem methodNames_of_some {first : MethodDescriptor × String}
    (h : before.find? (·.2 == name) = some first) :
    methodNames before (m :: ms) =
      .error (.nameClash first.1.signature m.signature name) := by
  subst hname
  rw [methodNames, h]

/-- A method whose identifier is new. -/
theorem methodNames_of_none (h : before.find? (·.2 == name) = none) :
    methodNames before (m :: ms) =
      (methodNames (before ++ [(m, name)]) ms).map (name :: ·) := by
  subst hname
  rw [methodNames, h]

end

theorem find?_name_eq_none_iff {before : List (MethodDescriptor × String)} {name : String} :
    before.find? (·.2 == name) = none ↔ name ∉ before.map (·.2) := by
  simp only [List.find?_eq_none, List.mem_map, beq_iff_eq, not_exists, not_and]

/-- With the identifiers in `before` taken, the methods get theirs if these are new and differ. -/
theorem methodNames_eq_ok_iff {before : List (MethodDescriptor × String)}
    (hbefore : (before.map (·.2)).Nodup) {methods : List MethodDescriptor} {names : List String} :
    methodNames before methods = .ok names ↔
      names = assignedAfter (before.map (·.1)) methods ∧ (before.map (·.2) ++ names).Nodup := by
  induction methods generalizing before names with
  | nil =>
    show Except.ok [] = Except.ok names ↔ names = [] ∧ _
    constructor
    · intro h
      cases h
      simpa using hbefore
    · intro h
      rw [h.1]
  | cons m ms ih =>
    obtain ⟨name, hname⟩ : ∃ name, name =
      overloadIdentifier m.name (before.countP (·.1.name == m.name)) := ⟨_, rfl⟩
    have hassigned : assignedAfter (before.map (·.1)) (m :: ms) =
        name :: assignedAfter ((before ++ [(m, name)]).map (·.1)) ms := by
      rw [assignedAfter_cons, List.countP_map, List.map_append, List.map_singleton, hname]
      rfl
    rw [hassigned]
    by_cases hnew : name ∈ before.map (·.2)
    · -- the name is taken, so there are no names, and none that differ
      cases hfind : before.find? (·.2 == name) with
      | none => exact absurd hnew (find?_name_eq_none_iff.mp hfind)
      | some first =>
        rw [methodNames_of_some hname hfind]
        constructor
        · intro h
          cases h
        · intro h
          rw [h.1] at h
          exact absurd List.mem_cons_self ((List.nodup_append.mp h.2).2.2 name hnew name · rfl)
    · have hnodup : ((before ++ [(m, name)]).map (·.2)).Nodup := by
        rw [List.map_append, List.map_singleton]
        exact hbefore.append (List.nodup_singleton name) (by simpa using hnew)
      -- the identifiers that are taken then and the further ones are those that there are now
      have htaken : ∀ rest : List String,
          (before ++ [(m, name)]).map (·.2) ++ rest = before.map (·.2) ++ name :: rest := by
        intro rest
        simp
      rw [methodNames_of_none hname (find?_name_eq_none_iff.mpr hnew), map_eq_ok_iff]
      constructor
      · intro h
        obtain ⟨rest, hrest, rfl⟩ := h
        rw [ih hnodup, htaken] at hrest
        exact ⟨by rw [← hrest.1], hrest.2⟩
      · intro h
        obtain ⟨rfl, hdistinct⟩ := h
        rw [← htaken] at hdistinct
        exact ⟨_, (ih hnodup).mpr ⟨rfl, hdistinct⟩, rfl⟩

/-- Methods get the identifiers that they are to have if no two of these are the same. -/
theorem methodNames_nil_eq_ok_iff {methods : List MethodDescriptor} {names : List String} :
    methodNames [] methods = .ok names ↔
      names = assignedNames methods ∧ (assignedNames methods).Nodup := by
  have hnone : (([] : List (MethodDescriptor × String)).map (·.2)).Nodup := List.nodup_nil
  rw [methodNames_eq_ok_iff hnone]
  show names = assignedNames methods ∧ names.Nodup ↔ _
  constructor
  · intro h
    exact ⟨h.1, h.1 ▸ h.2⟩
  · intro h
    exact ⟨h.1, h.1 ▸ h.2⟩

/-! ## Parameters -/

/-- A parameter as it is written. -/
def ParamDescriptor.Written (p : ParamDescriptor) (text : String × String) : Prop :=
  text.1 = identifier p.name ∧ typeText p.type = .ok text.2

theorem map_fst_of_written {ps : List ParamDescriptor} {texts : List (String × String)}
    (h : List.Forall₂ ParamDescriptor.Written ps texts) :
    texts.map (·.1) = ps.map fun p => identifier p.name := by
  induction h with
  | nil => rfl
  | cons hhead _ ih => rw [List.map_cons, List.map_cons, hhead.1, ih]

theorem typeTexts_of_written {ps : List ParamDescriptor} {texts : List (String × String)}
    (h : List.Forall₂ ParamDescriptor.Written ps texts) :
    typeTexts (ps.map (·.type)) = .ok (texts.map (·.2)) := by
  induction h with
  | nil => rfl
  | cons hhead _ ih =>
    rw [List.map_cons, List.map_cons, typeTexts, hhead.2, ih]
    rfl

/-- With the identifiers in `before` taken, the parameters get theirs if these are new and differ,
    and if all types have texts. -/
theorem paramTexts_eq_ok_iff {signature : String} {before : List (String × String)}
    (hbefore : (before.map (·.1)).Nodup) {ps : List ParamDescriptor}
    {texts : List (String × String)} :
    paramTexts signature before ps = .ok texts ↔
      (texts.map (·.1)).Nodup ∧
        ∃ further, texts = before ++ further ∧
          List.Forall₂ ParamDescriptor.Written ps further := by
  induction ps generalizing before with
  | nil =>
    show Except.ok before = Except.ok texts ↔ _
    constructor
    · intro h
      cases h
      exact ⟨hbefore, [], by simp⟩
    · intro h
      obtain ⟨_, further, htexts, hfurther⟩ := h
      cases hfurther
      rw [htexts, List.append_nil]
  | cons p ps ih =>
    rw [paramTexts]
    split
    · -- the identifier is taken, so nothing that begins with it differs
      rename_i htaken
      have htaken : identifier p.name ∈ before.map (·.1) := by
        simpa only [List.any_eq_true, beq_iff_eq, ← List.mem_map] using htaken
      constructor
      · intro h
        cases h
      · intro h
        obtain ⟨hnodup, further, rfl, hfurther⟩ := h
        cases hfurther with
        | @cons _ text _ texts hp hps =>
          rw [List.map_append, List.map_cons, hp.1] at hnodup
          exact absurd List.mem_cons_self
            ((List.nodup_append.mp hnodup).2.2 _ htaken _ · rfl)
    · -- it is new, and the type has a text or the parameter cannot be written
      rename_i hnew
      have hnew : identifier p.name ∉ before.map (·.1) := by
        simpa only [List.any_eq_true, beq_iff_eq, ← List.mem_map] using hnew
      cases htype : typeText p.type with
      | error e =>
        constructor
        · intro h
          cases h
        · intro h
          obtain ⟨_, further, _, hfurther⟩ := h
          cases hfurther with
          | cons hp hps =>
            rw [hp.2] at htype
            cases htype
      | ok type =>
        have hnodup : ((before ++ [(identifier p.name, type)]).map (·.1)).Nodup := by
          rw [List.map_append, List.map_singleton]
          exact hbefore.append (List.nodup_singleton _) (by simpa using hnew)
        dsimp only
        rw [ih hnodup]
        apply and_congr_right
        intro _
        constructor
        · intro h
          obtain ⟨further, htexts, hfurther⟩ := h
          exact ⟨(identifier p.name, type) :: further, by simpa using htexts,
            .cons ⟨rfl, htype⟩ hfurther⟩
        · intro h
          obtain ⟨further, htexts, hfurther⟩ := h
          cases hfurther with
          | @cons _ text _ rest hp hps =>
            have hsecond : text.2 = type := Except.ok.inj (hp.2.symm.trans htype)
            have htext : text = (identifier p.name, type) := Prod.ext hp.1 hsecond
            exact ⟨rest, by simpa [htext] using htexts, hps⟩

/-! ## Methods -/

/-- A method as it is written, under a name. -/
structure MethodText.Writes (text : MethodText) (m : MethodDescriptor) (name : String) : Prop where
  descriptor : text.descriptor = m
  name : text.name = name
  params : List.Forall₂ ParamDescriptor.Written m.params text.params
  distinct : (text.params.map (·.1)).Nodup
  result : typeText m.returnType = .ok text.result

theorem methodText_eq_ok_iff {m : MethodDescriptor} {name : String} {text : MethodText} :
    methodText m name = .ok text ↔ text.Writes m name := by
  have hparams : ∀ params, paramTexts m.signature [] m.params = .ok params ↔
      (params.map (·.1)).Nodup ∧ List.Forall₂ ParamDescriptor.Written m.params params := by
    intro params
    have hnone : (([] : List (String × String)).map (·.1)).Nodup := List.nodup_nil
    rw [paramTexts_eq_ok_iff hnone]
    simp
  unfold methodText
  constructor
  · intro h
    obtain ⟨params, hps, h⟩ := bind_eq_ok_iff.mp h
    obtain ⟨result, hresult, h⟩ := bind_eq_ok_iff.mp h
    obtain ⟨hdistinct, hwritten⟩ := (hparams params).mp hps
    cases h
    exact ⟨rfl, rfl, hwritten, hdistinct, hresult⟩
  · intro h
    obtain ⟨descriptor, textName, params, result⟩ := text
    obtain ⟨rfl, rfl, hwritten, hdistinct, hresult⟩ := h
    rw [(hparams params).mpr ⟨hdistinct, hwritten⟩, hresult]
    rfl

theorem methodTextsOf_eq_ok_iff {ms : List (MethodDescriptor × String)} {texts : List MethodText} :
    methodTextsOf ms = .ok texts ↔ List.Forall₂ (fun m text => text.Writes m.1 m.2) ms texts := by
  -- method by method, in both directions
  induction ms generalizing texts with
  | nil =>
    show Except.ok [] = Except.ok texts ↔ _
    constructor
    · intro h
      cases h
      exact .nil
    · intro h
      cases h
      rfl
  | cons m ms ih =>
    obtain ⟨m, name⟩ := m
    rw [methodTextsOf]
    constructor
    · intro h
      obtain ⟨first, hfirst, h⟩ := bind_eq_ok_iff.mp h
      obtain ⟨rest, hrest, h⟩ := bind_eq_ok_iff.mp h
      cases h
      exact .cons (methodText_eq_ok_iff.mp hfirst) (ih.mp hrest)
    · intro h
      cases h with
      | cons hfirst hrest =>
        rw [methodText_eq_ok_iff.mpr hfirst, ih.mpr hrest]
        rfl

/-- Each method is written under the name that it is to have, and no two of these are the same. -/
theorem methodTexts_eq_ok_iff {p : Plan} {texts : List MethodText} :
    methodTexts p = .ok texts ↔ (assignedNames p.methods).Nodup ∧
      List.Forall₂ (fun m text => text.Writes m.1 m.2) (p.methods.zip (assignedNames p.methods))
        texts := by
  unfold methodTexts
  rw [bind_eq_ok_iff]
  constructor
  · intro h
    obtain ⟨names, hnames, htexts⟩ := h
    obtain ⟨rfl, hdistinct⟩ := methodNames_nil_eq_ok_iff.mp hnames
    exact ⟨hdistinct, methodTextsOf_eq_ok_iff.mp htexts⟩
  · intro h
    exact ⟨_, methodNames_nil_eq_ok_iff.mpr ⟨rfl, h.1⟩, methodTextsOf_eq_ok_iff.mpr h.2⟩

theorem map_of_writes {ms : List (MethodDescriptor × String)} {texts : List MethodText}
    (h : List.Forall₂ (fun m text => text.Writes m.1 m.2) ms texts) :
    texts.map (·.descriptor) = ms.map (·.1) ∧ texts.map (·.name) = ms.map (·.2) := by
  induction h with
  | nil => exact ⟨rfl, rfl⟩
  | cons hhead _ ih =>
    simp [hhead.descriptor, hhead.name, ih.1, ih.2]

/-- The methods that are written are those of the plan, in order, with the names that they are to
    have. -/
theorem of_methodTexts {p : Plan} {texts : List MethodText} (h : methodTexts p = .ok texts) :
    texts.map (·.descriptor) = p.methods ∧ texts.map (·.name) = assignedNames p.methods ∧
      (assignedNames p.methods).Nodup ∧
      ∀ text ∈ texts, text.Writes text.descriptor text.name := by
  obtain ⟨hdistinct, hwrites⟩ := methodTexts_eq_ok_iff.mp h
  obtain ⟨hdescriptors, hnames⟩ := map_of_writes hwrites
  rw [List.map_fst_zip (by simp)] at hdescriptors
  rw [List.map_snd_zip (by simp)] at hnames
  refine ⟨hdescriptors, hnames, hdistinct, ?_⟩
  intro text htext
  obtain ⟨m, hm⟩ := exists_forall₂_iff.mp ⟨_, hwrites.flip⟩ text htext
  have hm : text.Writes m.1 m.2 := hm
  rwa [hm.descriptor, hm.name]

theorem renderModule_eq_ok_iff {p : Plan} {u : RenderedUnit} : renderModule p = .ok u ↔
    ∃ texts, methodTexts p = .ok texts ∧ u = ⟨.implementation, modulePath p, moduleText p texts⟩ := by
  unfold renderModule
  rw [bind_eq_ok_iff]
  apply exists_congr
  intro texts
  apply and_congr_right
  intro _
  show Except.ok _ = Except.ok u ↔ _
  rw [Except.ok.injEq, eq_comm]

/-! ## When a plan is rendered -/

/-- A method that can be written: its parameters have different identifiers, and its types texts. -/
structure Writable (m : MethodDescriptor) : Prop where
  distinct : (m.params.map fun p => identifier p.name).Nodup
  params : ∀ p ∈ m.params, ∃ text, typeText p.type = .ok text
  result : ∃ text, typeText m.returnType = .ok text

theorem writable_iff {m : MethodDescriptor} {name : String} :
    (∃ text : MethodText, text.Writes m name) ↔ Writable m := by
  -- the name of a parameter can always be written, so its type decides
  have hparams : (∃ params, List.Forall₂ ParamDescriptor.Written m.params params) ↔
      ∀ p ∈ m.params, ∃ text, typeText p.type = .ok text := by
    rw [exists_forall₂_iff]
    apply forall₂_congr
    intro p _
    constructor
    · intro h
      obtain ⟨written, hwritten⟩ := h
      exact ⟨written.2, hwritten.2⟩
    · intro h
      obtain ⟨text, htext⟩ := h
      exact ⟨(identifier p.name, text), rfl, htext⟩
  constructor
  · intro h
    obtain ⟨text, htext⟩ := h
    exact ⟨map_fst_of_written htext.params ▸ htext.distinct, hparams.mp ⟨_, htext.params⟩,
      ⟨_, htext.result⟩⟩
  · intro h
    obtain ⟨params, hwritten⟩ := hparams.mpr h.params
    obtain ⟨result, hresult⟩ := h.result
    exact ⟨⟨m, name, params, result⟩, rfl, rfl, hwritten,
      map_fst_of_written hwritten ▸ h.distinct, hresult⟩

/-- The module of a plan can be written if the names of the methods differ and each of them can be
    written. -/
theorem exists_renderModule_iff {p : Plan} : (∃ u, renderModule p = .ok u) ↔
    (assignedNames p.methods).Nodup ∧ ∀ m ∈ p.methods, Writable m := by
  have hmethods : (∀ x ∈ p.methods.zip (assignedNames p.methods), Writable x.1) ↔
      ∀ m ∈ p.methods, Writable m := by
    have hfst : (p.methods.zip (assignedNames p.methods)).map (·.1) = p.methods :=
      List.map_fst_zip (by simp)
    rw [← hfst, List.forall_mem_map, hfst]
  rw [← hmethods]
  constructor
  · intro h
    obtain ⟨u, hu⟩ := h
    obtain ⟨texts, htexts, _⟩ := renderModule_eq_ok_iff.mp hu
    obtain ⟨hdistinct, hwrites⟩ := methodTexts_eq_ok_iff.mp htexts
    refine ⟨hdistinct, fun x hx => ?_⟩
    exact writable_iff.mp (exists_forall₂_iff.mp ⟨texts, hwrites⟩ x hx)
  · intro h
    obtain ⟨texts, hwrites⟩ :=
      exists_forall₂_iff.mpr fun x hx => writable_iff.mpr (h.2 x hx)
    exact ⟨_, renderModule_eq_ok_iff.mpr
      ⟨texts, methodTexts_eq_ok_iff.mpr ⟨h.1, hwrites⟩, rfl⟩⟩

end ActorIdl.Generated
