import ActorIdl.Proofs.Interface.Methods
import Mathlib.Data.List.Forall2
/-! # What is reported of the methods of an interface

    The rules of the contract come in an order, and a method is reported for the first rule that it
    breaks.  Which rule that is depends on the return type, on whether the method is one-way and on
    the names of its parameters.  A method that breaks no rule stays as it is and where it is; each
    of the others leaves with one report of its own.  What is left breaks no rule, so nothing is
    left out or reported a second time. -/

namespace ActorIdl

/-! ## Repeated names -/

/-- The first name in a list that has stood there before. -/
def IsFirstRepeated (names : List String) (name : String) : Prop :=
  ∃ before after, names = before ++ name :: after ∧ before.Nodup ∧ name ∈ before

theorem firstRepeated?_eq_some_iff {seen names : List String} {name : String} :
    firstRepeated? seen names = some name ↔
      ∃ before after, names = before ++ name :: after ∧ before.Nodup ∧
        (∀ other ∈ before, other ∉ seen) ∧ (name ∈ before ∨ name ∈ seen) := by
  -- a name that is passed has been seen by those behind it
  induction names generalizing seen with
  | nil => simp [firstRepeated?]
  | cons first rest ih =>
    unfold firstRepeated?
    simp only [List.contains_iff_mem]
    by_cases hfirst : first ∈ seen
    · rw [if_pos hfirst, Option.some.injEq]
      constructor
      · rintro rfl
        exact ⟨[], rest, rfl, List.nodup_nil, fun _ h => absurd h List.not_mem_nil, .inr hfirst⟩
      · rintro ⟨before, after, heq, _, hnew, _⟩
        cases before with
        | nil => exact (List.cons.inj heq).1
        | cons other before =>
          obtain rfl := (List.cons.inj heq).1
          exact absurd hfirst (hnew first List.mem_cons_self)
    · rw [if_neg hfirst, ih]
      constructor
      · rintro ⟨before, after, rfl, hnodup, hnew, hname⟩
        have hnot : first ∉ before := fun h => hnew first h List.mem_cons_self
        refine ⟨first :: before, after, rfl, List.nodup_cons.mpr ⟨hnot, hnodup⟩, ?_, ?_⟩
        · exact List.forall_mem_cons.mpr
            ⟨hfirst, fun other h hseen => hnew other h (List.mem_cons_of_mem _ hseen)⟩
        · rcases hname with hname | hname
          · exact .inl (List.mem_cons_of_mem _ hname)
          · rcases List.mem_cons.mp hname with rfl | hname
            · exact .inl List.mem_cons_self
            · exact .inr hname
      · rintro ⟨before, after, heq, hnodup, hnew, hname⟩
        cases before with
        | nil =>
          -- then the first name would be the one that has been seen
          obtain rfl := (List.cons.inj heq).1
          exact absurd (hname.resolve_left List.not_mem_nil) hfirst
        | cons other before =>
          obtain ⟨rfl, rfl⟩ := List.cons.inj heq
          obtain ⟨hnot, hnodup⟩ := List.nodup_cons.mp hnodup
          refine ⟨before, after, rfl, hnodup, fun other h hseen => ?_, ?_⟩
          · rcases List.mem_cons.mp hseen with rfl | hseen
            · exact hnot h
            · exact hnew other (List.mem_cons_of_mem _ h) hseen
          · rcases hname with hname | hname
            · rcases List.mem_cons.mp hname with rfl | hname
              · exact .inr List.mem_cons_self
              · exact .inl hname
            · exact .inr (List.mem_cons_of_mem _ hname)

theorem firstRepeated?_nil_eq_some_iff {names : List String} {name : String} :
    firstRepeated? [] names = some name ↔ IsFirstRepeated names name := by
  rw [firstRepeated?_eq_some_iff, IsFirstRepeated]
  simp

/-! ## The first rule that is broken -/

namespace MethodDescriptor

variable {m : MethodDescriptor} {cause : Cause}

/-- The return type is a task with at most one result type. -/
def ReturnsTask (m : MethodDescriptor) : Prop :=
  m.returnType.name = Library.task ∧ m.returnType.dims = 0 ∧ m.returnType.args.length ≤ 1

/-- The return type is a task without a result. -/
def ReturnsNothing (m : MethodDescriptor) : Prop :=
  m.returnType = .named Library.task ∨ m.returnType = .mk Library.task [.named Library.void] 0

/-- The names of the parameters. -/
def paramNames (m : MethodDescriptor) : List String := m.params.map (·.name)

/-- What is to be reported of a method: the first rule that it breaks. -/
inductive Breaks (m : MethodDescriptor) : Cause → Prop where
  | voidResult : m.returnType = .named "void" → Breaks m .voidResult
  | resultNotTask : m.returnType ≠ .named "void" → ¬ m.ReturnsTask →
      Breaks m (.resultNotTask m.returnType)
  | oneWayResult : m.ReturnsTask → m.isOneWay = true → ¬ m.ReturnsNothing →
      Breaks m (.oneWayResult m.returnType)
  | repeatedParameter {name : String} : m.ReturnsTask →
      (m.isOneWay = true → m.ReturnsNothing) → IsFirstRepeated m.paramNames name →
      Breaks m (.repeatedParameter name)

theorem not_returnsTask_of_void (h : m.returnType = .named "void") : ¬ m.ReturnsTask := by
  rintro ⟨hname, _⟩
  rw [h] at hname
  exact absurd hname (by decide)

/-- The checks find the first rule that is broken. -/
theorem violation?_eq_some_iff : m.violation? = some cause ↔ m.Breaks cause := by
  have hvoid : m.returnType.isRaw "void" = true ↔ m.returnType = .named "void" := TypeRef.isRaw_iff
  have htask : (!m.returnType.isTask) = true ↔ ¬ m.ReturnsTask := by
    rw [Bool.not_eq_true', Bool.eq_false_iff, ne_eq, TypeRef.isTask_iff, ReturnsTask]
  have hway : (m.isOneWay && !m.returnType.isVoidTask) = true ↔
      m.isOneWay = true ∧ ¬ m.ReturnsNothing := by
    rw [Bool.and_eq_true, Bool.not_eq_true', Bool.eq_false_iff, ne_eq, TypeRef.isVoidTask_iff,
      ReturnsNothing]
  unfold violation?
  constructor
  · intro h
    split at h
    · rename_i h₁
      cases h
      exact .voidResult (hvoid.mp h₁)
    rename_i h₁
    split at h
    · rename_i h₂
      cases h
      exact .resultNotTask (fun h => h₁ (hvoid.mpr h)) (htask.mp h₂)
    rename_i h₂
    have h₂ : m.ReturnsTask := not_not.mp fun h => h₂ (htask.mpr h)
    split at h
    · rename_i h₃
      cases h
      exact .oneWayResult h₂ (hway.mp h₃).1 (hway.mp h₃).2
    · rename_i h₃
      obtain ⟨name, hname, rfl⟩ := Option.map_eq_some_iff.mp h
      refine .repeatedParameter h₂ (fun hone => ?_) (firstRepeated?_nil_eq_some_iff.mp hname)
      exact not_not.mp fun hnot => h₃ (hway.mpr ⟨hone, hnot⟩)
  · -- a task is not void, so the rules before the broken one are kept
    have hnot₁ : m.ReturnsTask → ¬ m.returnType.isRaw "void" = true := fun h₂ h =>
      not_returnsTask_of_void (hvoid.mp h) h₂
    have hnot₂ : m.ReturnsTask → ¬ (!m.returnType.isTask) = true := fun h₂ h => htask.mp h h₂
    intro h
    cases h with
    | voidResult h₁ => rw [if_pos (hvoid.mpr h₁)]
    | resultNotTask h₁ h₂ => rw [if_neg fun h => h₁ (hvoid.mp h), if_pos (htask.mpr h₂)]
    | oneWayResult h₂ hone hnothing =>
      rw [if_neg (hnot₁ h₂), if_neg (hnot₂ h₂), if_pos (hway.mpr ⟨hone, hnothing⟩)]
    | repeatedParameter h₂ hnothing hname =>
      have hnot₃ : ¬ (m.isOneWay && !m.returnType.isVoidTask) = true := fun h =>
        (hway.mp h).2 (hnothing (hway.mp h).1)
      have hfirst : firstRepeated? [] (m.params.map (·.name)) = some _ :=
        firstRepeated?_nil_eq_some_iff.mpr hname
      rw [if_neg (hnot₁ h₂), if_neg (hnot₂ h₂), if_neg hnot₃, hfirst]
      rfl

instance decidableKeepsContract (m : MethodDescriptor) : Decidable m.KeepsContract :=
  decidable_of_iff _ m.violation?_eq_none_iff

theorem isNone_violation? (m : MethodDescriptor) : m.violation?.isNone = decide m.KeepsContract := by
  rw [Bool.eq_iff_iff, Option.isNone_iff_eq_none, m.violation?_eq_none_iff, decide_eq_true_iff]

end MethodDescriptor

/-! ## Reports -/

/-- An error report about a method at its place, in the name of the interface that declares it, with
    the first rule that it breaks and the code of that rule. -/
structure Diagnostic.IsViolationOf (d : Diagnostic) (m : MethodDescriptor) : Prop where
  isError : d.isError = true
  location : d.location = some m.location
  origin : d.origin = some (m.declaredIn ++ "#" ++ m.name)
  breaks : m.Breaks d.cause
  e0201 : d.cause.code? = some "E0201" ↔ m.returnType = .named "void"
  e0202 : d.cause.code? = some "E0202" ↔ m.returnType ≠ .named "void" ∧ ¬ m.ReturnsTask
  e0203 : d.cause.code? = some "E0203" ↔
    m.ReturnsTask ∧ m.isOneWay = true ∧ ¬ m.ReturnsNothing
  e0206 : d.cause.code? = some "E0206" ↔ m.ReturnsTask ∧
    (m.isOneWay = true → m.ReturnsNothing) ∧
      ∃ name, IsFirstRepeated m.paramNames name ∧ d.cause = .repeatedParameter name

namespace MethodDescriptor

variable {m : MethodDescriptor} {cause : Cause}

/-- The report about the first rule that is broken has the code of this rule and of no other. -/
theorem isViolationOf_of_breaks (h : m.Breaks cause) :
    (⟨cause, some m.location, some m.originName⟩ : Diagnostic).IsViolationOf m := by
  refine ⟨?_, rfl, rfl, h, ?_, ?_, ?_, ?_⟩
  · cases h <;> rfl
  all_goals
    cases h with
    | voidResult h₁ =>
      have h₂ := not_returnsTask_of_void h₁
      simp [Cause.code?, h₁, h₂]
    | resultNotTask h₁ h₂ => simp [Cause.code?, h₁, h₂]
    | oneWayResult h₂ hone hnot =>
      have h₁ : m.returnType ≠ .named "void" := fun h => not_returnsTask_of_void h h₂
      simp [Cause.code?, h₁, h₂, hone, hnot]
    | repeatedParameter h₂ hnothing hname =>
      have h₁ : m.returnType ≠ .named "void" := fun h => not_returnsTask_of_void h h₂
      simp +contextual [Cause.code?, h₁, h₂, hnothing, hname]

/-- A method is reported exactly if it breaks the contract. -/
theorem violationReport?_cases (m : MethodDescriptor) :
    m.KeepsContract ∧ m.violationReport? = none ∨
      ¬ m.KeepsContract ∧ ∃ d, m.violationReport? = some d ∧ d.IsViolationOf m := by
  unfold violationReport?
  cases h : m.violation? with
  | none => exact .inl ⟨m.violation?_eq_none_iff.mp h, rfl⟩
  | some cause =>
    refine .inr ⟨fun hkeeps => ?_, _, rfl, isViolationOf_of_breaks (violation?_eq_some_iff.mp h)⟩
    rw [m.violation?_eq_none_iff.mpr hkeeps] at h
    cases h

end MethodDescriptor

/-! ## A whole interface -/

namespace InterfaceDescriptor

theorem methods_keepValid (i : InterfaceDescriptor) :
    i.keepValid.methods = i.methods.filter fun m => decide m.KeepsContract :=
  List.filter_congr fun m _ => m.isNone_violation?

/-- Each method that breaks the contract has its report, in their order. -/
theorem forall₂_violationReports (ms : List MethodDescriptor) :
    List.Forall₂ (fun m d => d.IsViolationOf m) (ms.filter fun m => decide ¬ m.KeepsContract)
      (ms.filterMap (·.violationReport?)) := by
  induction ms with
  | nil => exact .nil
  | cons m ms ih =>
    rcases m.violationReport?_cases with ⟨hkeeps, hnone⟩ | ⟨hbreaks, d, hd, hviolation⟩
    · rw [List.filter_cons_of_neg (by simpa using hkeeps), List.filterMap_cons_none hnone]
      exact ih
    · rw [List.filter_cons_of_pos (by simpa using hbreaks), List.filterMap_cons_some hd]
      exact .cons hviolation ih

theorem keepValid_keepValid (i : InterfaceDescriptor) : i.keepValid.keepValid = i.keepValid := by
  have hmethods : i.keepValid.methods.filter (·.violation?.isNone) = i.keepValid.methods :=
    List.filter_filter.trans (List.filter_congr fun m _ => Bool.and_self _)
  exact congrArg (fun methods => { i with methods }) hmethods

theorem violationReports_keepValid (i : InterfaceDescriptor) :
    i.keepValid.violationReports = [] := by
  refine List.filterMap_eq_nil_iff.mpr fun m hm => ?_
  have hvalid : m.violation? = none := by simpa using (List.mem_filter.mp hm).2
  rw [MethodDescriptor.violationReport?, hvalid]
  rfl

/-- The methods that keep the contract stay, unchanged and in their order, and nothing else of the
    interface changes.  Every method that does not stay is reported once, in method order, for the
    first rule that it breaks.  A second time everything stays and nothing is reported. -/
theorem validation_of_methods (i : InterfaceDescriptor) :
    i.keepValid = { i with methods := i.methods.filter fun m => decide m.KeepsContract } ∧
      List.Forall₂ (fun m d => d.IsViolationOf m)
        (i.methods.filter fun m => decide ¬ m.KeepsContract) i.violationReports ∧
      i.keepValid.keepValid = i.keepValid ∧ i.keepValid.violationReports = [] := by
  refine ⟨?_, forall₂_violationReports i.methods, i.keepValid_keepValid,
    i.violationReports_keepValid⟩
  rw [← methods_keepValid]
  rfl

end InterfaceDescriptor

end ActorIdl
