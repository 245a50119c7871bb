import ActorIdl.Interface.Collision
import ActorIdl.Interface.Contract
import Mathlib.Data.List.Nodup
/-! # The methods of an interface from stage to stage

    The descriptors of a round pass through three filters and a renaming.  The effective methods
    have different signatures and number their parameters in order; the contract leaves methods
    that return tasks and whose parameters have different names; every method gets the identifier
    of its signature; methods that share one go.  Each filter keeps what the filters before it
    have established. -/

namespace ActorIdl

/-! ## Effective methods -/

/-- Of methods with one signature only the first is left, and none with a signature seen before. -/
theorem signatures_firstOfSignature (seen : List String) (ms : List MethodDescriptor) :
    ((firstOfSignature seen ms).map (·.signature)).Nodup ∧
      ∀ m ∈ firstOfSignature seen ms, m.signature ∉ seen := by
  -- a method that stays adds its signature to those that have been seen
  induction ms generalizing seen with
  | nil => simp [firstOfSignature]
  | cons m ms ih =>
    unfold firstOfSignature
    by_cases hm : seen.contains m.signature = true
    · rw [if_pos hm]
      exact ih seen
    · rw [if_neg hm]
      obtain ⟨hnodup, hseen⟩ := ih (m.signature :: seen)
      constructor
      · rw [List.map_cons, List.nodup_cons]
        refine ⟨fun hmem => ?_, hnodup⟩
        obtain ⟨m', hm', heq⟩ := List.mem_map.mp hmem
        exact hseen m' hm' (heq ▸ List.mem_cons_self)
      · intro m' hm'
        rcases List.mem_cons.mp hm' with rfl | hm'
        · simpa using hm
        · exact fun h => hseen m' hm' (List.mem_cons_of_mem _ h)

theorem firstOfSignature_sublist (seen : List String) (ms : List MethodDescriptor) :
    (firstOfSignature seen ms).Sublist ms := by
  induction ms generalizing seen with
  | nil => exact List.Sublist.refl _
  | cons m ms ih =>
    unfold firstOfSignature
    split
    · exact (ih seen).cons m
    · exact (ih _).cons_cons m

namespace MethodDescriptor

theorem indices_ofMethod (declaredIn : String) (m : Method) :
    (ofMethod declaredIn m).params.map (·.index) =
      List.range (ofMethod declaredIn m).params.length := by
  apply List.ext_getElem
  · simp [ofMethod]
  · intro i h₁ h₂
    simp [ofMethod]

end MethodDescriptor

namespace Table

/-- Every effective method is declared in some declaration of the lineage. -/
theorem mem_effectiveMethods {t : Table} {id : DeclId} {m : MethodDescriptor}
    (hm : m ∈ t.effectiveMethods id) :
    ∃ above ∈ t.lineage id, ∃ m' ∈ t.methodsOf above, m = .ofMethod (t.nameOf above) m' := by
  have hm := (firstOfSignature_sublist _ _).subset hm
  obtain ⟨above, habove, hm⟩ := List.mem_flatMap.mp hm
  obtain ⟨m', hm', rfl⟩ := List.mem_map.mp hm
  exact ⟨above, habove, m', hm', rfl⟩

end Table

/-! ## The contract -/

theorem firstRepeated?_eq_none_iff (seen names : List String) :
    firstRepeated? seen names = none ↔ names.Nodup ∧ ∀ name ∈ names, name ∉ seen := by
  induction names generalizing seen with
  | nil => simp [firstRepeated?]
  | cons name names ih =>
    -- a name that is not seen yet is seen by all behind it
    unfold firstRepeated?
    by_cases h : name ∈ seen
    · simp [h]
    · simp only [List.contains_iff_mem, h, if_false, ih, List.nodup_cons, List.mem_cons]
      constructor
      · rintro ⟨hnodup, hseen⟩
        refine ⟨⟨fun hmem => hseen name hmem (.inl rfl), hnodup⟩, ?_⟩
        rintro other (rfl | hother)
        · exact h
        · exact fun hs => hseen other hother (.inr hs)
      · rintro ⟨⟨hname, hnodup⟩, hseen⟩
        refine ⟨hnodup, fun other hother hs => ?_⟩
        rcases hs with rfl | hs
        · exact hname hother
        · exact hseen other (.inr hother) hs

namespace TypeRef

theorem isRaw_iff {t : TypeRef} {name : String} : t.isRaw name = true ↔ t = named name := by
  cases t with
  | mk n args dims => simp [isRaw, named, TypeRef.name, TypeRef.args, TypeRef.dims, and_assoc]

theorem isTask_iff {t : TypeRef} :
    t.isTask = true ↔ t.name = Library.task ∧ t.dims = 0 ∧ t.args.length ≤ 1 := by
  simp [isTask, and_assoc]

theorem isVoidTask_iff {t : TypeRef} :
    t.isVoidTask = true ↔ t = named Library.task ∨ t = mk Library.task [named Library.void] 0 := by
  cases t with
  | mk n args dims =>
    rw [isVoidTask, Bool.or_eq_true, isRaw_iff]
    refine or_congr Iff.rfl ?_
    cases args with
    | nil => simp [TypeRef.args]
    | cons a as =>
      cases as with
      | nil =>
        simp only [TypeRef.name, TypeRef.args, TypeRef.dims, Bool.and_eq_true, beq_iff_eq, isRaw_iff]
        constructor
        · rintro ⟨⟨rfl, rfl⟩, rfl⟩
          rfl
        · intro h
          cases h
          exact ⟨⟨rfl, rfl⟩, rfl⟩
      | cons b bs => simp [TypeRef.args]

end TypeRef

/-- A method keeps the contract of remote calls. -/
structure MethodDescriptor.KeepsContract (m : MethodDescriptor) : Prop where
  returns_task : m.returnType.name = Library.task ∧ m.returnType.dims = 0 ∧
    m.returnType.args.length ≤ 1
  one_way : m.isOneWay = true →
    m.returnType = .named Library.task ∨ m.returnType = .mk Library.task [.named Library.void] 0
  names : (m.params.map (·.name)).Nodup

/-- No rule is reported exactly if all are kept.  That the result is not `void` needs no rule of
    its own: it is no task. -/
theorem MethodDescriptor.violation?_eq_none_iff (m : MethodDescriptor) :
    m.violation? = none ↔ m.KeepsContract := by
  have hvoid : m.returnType.isRaw "void" = true → m.returnType.isTask = false := by
    intro h
    rw [TypeRef.isRaw_iff.mp h]
    decide
  have hnames := firstRepeated?_eq_none_iff [] (m.params.map (·.name))
  unfold violation?
  constructor
  · -- the first rule that is broken is reported, so all four branches have been passed
    intro h
    split at h
    · cases h
    split at h
    · cases h
    split at h
    · cases h
    rename_i htask hway
    refine ⟨TypeRef.isTask_iff.mp (by simpa using htask), fun hone => ?_, ?_⟩
    · exact TypeRef.isVoidTask_iff.mp (by simpa [hone] using hway)
    · exact (hnames.mp (by simpa using h)).1
  · rintro ⟨htask, hway, hnodup⟩
    have htask := TypeRef.isTask_iff.mpr htask
    rw [if_neg, if_neg, if_neg]
    · rw [hnames.mpr ⟨hnodup, by simp⟩]
      rfl
    · intro h
      rw [Bool.and_eq_true, Bool.not_eq_true'] at h
      rw [TypeRef.isVoidTask_iff.mpr (hway h.1)] at h
      exact absurd h.2 (by decide)
    · simp [htask]
    · intro h
      rw [hvoid h] at htask
      cases htask

/-- What is reported about a method that breaks the contract. -/
theorem MethodDescriptor.violation?_cases {m : MethodDescriptor} {cause : Cause}
    (h : m.violation? = some cause) :
    cause = .voidResult ∨ cause = .resultNotTask m.returnType ∨
      cause = .oneWayResult m.returnType ∨ ∃ name, cause = .repeatedParameter name := by
  unfold violation? at h
  split at h
  · exact .inl (Option.some.inj h).symm
  split at h
  · exact .inr (.inl (Option.some.inj h).symm)
  split at h
  · exact .inr (.inr (.inl (Option.some.inj h).symm))
  · obtain ⟨name, _, rfl⟩ := Option.map_eq_some_iff.mp h
    exact .inr (.inr (.inr ⟨name, rfl⟩))

/-! ## Identifiers -/

/-- A method stays exactly if fewer than two methods have its identifier, so those that stay have
    different identifiers. -/
theorem InterfaceDescriptor.ids_dropCollisions (i : InterfaceDescriptor)
    (hid : ∀ m ∈ i.methods, m.methodId.isSome = true) :
    (i.dropCollisions.methods.map (·.methodId)).Nodup := by
  rw [List.nodup_iff_count_le_one]
  intro id
  by_cases hmem : id ∈ i.dropCollisions.methods.map (·.methodId)
  · obtain ⟨m, hm, rfl⟩ := List.mem_map.mp hmem
    obtain ⟨hm, hown⟩ := List.mem_filter.mp hm
    obtain ⟨id, hsome⟩ := Option.isSome_iff_exists.mp (hid m hm)
    -- the identifier occurs once among all methods, so at most once among those that stay
    have hlt : (i.methodsWithId id).length < 2 := by
      simpa [hasOwnId, hsome] using hown
    rw [hsome, List.count, List.countP_map]
    calc (i.dropCollisions.methods).countP ((· == some id) ∘ (·.methodId))
        ≤ i.methods.countP ((· == some id) ∘ (·.methodId)) := List.filter_sublist.countP_le
      _ = (i.methodsWithId id).length := List.countP_eq_length_filter
      _ ≤ 1 := by omega
  · rw [List.count_eq_zero_of_not_mem hmem]
    omega

end ActorIdl
