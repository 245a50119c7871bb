import ActorIdl.Proofs.Declaration.Supertypes
import ActorIdl.Proofs.Interface.EffectiveMethods
/-! # Hierarchies as roles and as methods see them

    Two searches go up from an interface.  The one for its role takes every step up: to interfaces
    and, from a class, to the superclass.  The one for its methods takes the steps to interfaces
    only, and none from the root type.  So it goes nowhere that the first does not go, and whatever
    it misses lies behind a step that it leaves out. -/

namespace ActorIdl.Table

variable {t : Table} {id : DeclId}

/-! ## The two ways up -/

/-- A declared type that steps up lead to, the declaration itself included. -/
inductive Above (t : Table) (id : DeclId) : DeclId → Prop where
  | self : Above t id id
  | step {x y : DeclId} {name : String} : Above t id x → t.StepsUp x name →
      t.lookup name = some y → Above t id y

/-- A step up to a declared type over which no methods are inherited. -/
inductive LeavesOut (t : Table) (x y : DeclId) : Prop where
  | superclass {d : Declaration} {type : TypeRef} : t.get? x = some d → d.kind = .classType →
      d.superclass = some type → t.lookup type.name = some y → LeavesOut t x y
  | root {name : String} : t.nameOf x = Library.object → t.StepsUp x name →
      t.lookup name = some y → LeavesOut t x y

/-- The search for roles lists the declaration and everything above it. -/
theorem mem_ancestry (hid : id < t.size) {x : DeclId} : x ∈ t.ancestry id ↔ t.Above id x := by
  rw [ancestry, mem_breadthFirst]
  constructor
  · intro h
    induction h with
    | start hx _ => exact List.mem_singleton.mp hx ▸ .self
    | step _ hy _ ih =>
      obtain ⟨name, hname, hlookup⟩ := List.mem_filterMap.mp hy
      exact .step ih (mem_supertypeNames.mp hname) hlookup
  · intro h
    induction h with
    | self => exact .start (List.mem_singleton_self _) (List.mem_range.mpr hid)
    | step _ hname hlookup ih =>
      refine .step ih ?_ (List.mem_range.mpr (lt_size_of_lookup hlookup))
      exact List.mem_filterMap.mpr ⟨_, mem_supertypeNames.mpr hname, hlookup⟩

/-- What methods are inherited from is above. -/
theorem Inherits.above {n : Nat} {x : DeclId} (h : t.Inherits id n x) : t.Above id x := by
  induction h with
  | self => exact .self
  | extended _ _ hd htype hlookup ih => exact .step ih (.interface hd htype) hlookup

/-- A step up either passes methods on or is one of those that are left out. -/
theorem Inherits.step_or_leavesOut {n : Nat} {x y : DeclId} {name : String}
    (h : t.Inherits id n x) (hname : t.StepsUp x name) (hlookup : t.lookup name = some y) :
    t.Inherits id (n + 1) y ∨ t.LeavesOut x y := by
  by_cases hroot : t.nameOf x = Library.object
  · exact .inr (.root hroot hname hlookup)
  · cases hname with
    | interface hd htype => exact .inl (.extended h hroot hd htype hlookup)
    | superclass hd hclass htype => exact .inr (.superclass hd hclass htype hlookup)

/-- A type above that no methods are inherited from lies behind a step that is left out, and this
    step leads to a type that no methods are inherited from on any other way. -/
theorem Above.inherits_or_behind {x : DeclId} (h : t.Above id x) :
    (∃ n, t.Inherits id n x) ∨
      ∃ n y z, t.Inherits id n y ∧ t.LeavesOut y z ∧ (∀ k, ¬ t.Inherits id k z) ∧ t.Above z x := by
  induction h with
  | self => exact .inl ⟨0, .self⟩
  | @step x x' _ _ hname hlookup ih =>
    rcases ih with ⟨n, hx⟩ | ⟨n, y, z, hy, hout, hnone, hz⟩
    · rcases hx.step_or_leavesOut hname hlookup with hx' | hout
      · exact .inl ⟨n + 1, hx'⟩
      · -- methods may still be inherited from there on another way
        by_cases hother : ∃ k, t.Inherits id k x'
        · exact .inl hother
        · exact .inr ⟨n, x, x', hx, hout, not_exists.mp hother, .self⟩
    · exact .inr ⟨n, y, z, hy, hout, hnone, .step hz hname hlookup⟩

/-! ## The signatures above an interface -/

/-- Everything that is declared above a declaration, other than in the root type, has its signature
    among the given methods. -/
def CoversAbove (t : Table) (id : DeclId) (methods : List MethodDescriptor) : Prop :=
  ∀ x, t.Above id x → t.nameOf x ≠ Library.object → ∀ m ∈ t.ownMethods x,
    m.signature ∈ methods.map (·.signature)

/-- The search for roles lists all that has to be looked at. -/
theorem coversAbove_iff (hid : id < t.size) {methods : List MethodDescriptor} :
    t.CoversAbove id methods ↔ ∀ x ∈ t.ancestry id, t.nameOf x ≠ Library.object →
      ∀ m ∈ t.ownMethods x, m.signature ∈ methods.map (·.signature) :=
  forall_congr' fun _ => imp_congr_left (mem_ancestry hid).symm

theorem AreEffective.signature_mem {methods : List MethodDescriptor}
    (h : t.AreEffective id methods) {n : Nat} {x : DeclId} (hx : t.Inherits id n x)
    (hroot : t.nameOf x ≠ Library.object) {m : MethodDescriptor} (hm : m ∈ t.ownMethods x) :
    m.signature ∈ methods.map (·.signature) := by
  obtain ⟨m', hm', hsignature, _⟩ := h.nearest n x hx hroot m hm
  exact hsignature ▸ List.mem_map_of_mem hm'

/-- Every declaration has a descriptor, and this has the signatures of all methods of the types,
    other than the root type, that can be reached over steps to interfaces without a step from the
    root type.  The search for the role goes through all of these types, and of what else it goes
    through, everything lies behind a step that is left out.  Where such steps lead only to types
    that methods are inherited from on another way, everything above is covered. -/
theorem signatures_of_describe (t : Table) {id : DeclId} {d : Declaration} (hd : t.get? id = some d)
    (isActor : Bool) :
    ∃ i, t.describe id isActor = some i ∧
      (∀ n x, t.Inherits id n x → t.nameOf x ≠ Library.object → ∀ m ∈ t.ownMethods x,
        m.signature ∈ i.methods.map (·.signature)) ∧
      (∀ x, x ∈ t.ancestry id ↔ t.Above id x) ∧
      (∀ n x, t.Inherits id n x → t.Above id x) ∧
      (∀ x, t.Above id x → (∃ n, t.Inherits id n x) ∨
        ∃ n y z, t.Inherits id n y ∧ t.LeavesOut y z ∧ (∀ k, ¬ t.Inherits id k z) ∧ t.Above z x) ∧
      ((∀ n y z, t.Inherits id n y → t.LeavesOut y z → ∃ k, t.Inherits id k z) →
        t.CoversAbove id i.methods) := by
  have hid := lt_size_of_get? hd
  obtain ⟨i, hi⟩ : ∃ i, t.describe id isActor = some i := by
    rw [describe, hd]
    exact ⟨_, rfl⟩
  have heffective := areEffective_effectiveMethods hid
  rw [← methods_eq_of_describe hi] at heffective
  refine ⟨i, hi, fun n x hx hroot m hm => heffective.signature_mem hx hroot hm,
    fun x => mem_ancestry hid, fun n x hx => hx.above, fun x hx => hx.inherits_or_behind, ?_⟩
  intro hother x hx hroot m hm
  -- nothing lies behind a step that is left out without being inherited from
  rcases hx.inherits_or_behind with ⟨n, hx⟩ | ⟨n, y, z, hy, hout, hnone, _⟩
  · exact heffective.signature_mem hx hroot hm
  · obtain ⟨k, hz⟩ := hother n y z hy hout
    exact absurd hz (hnone k)

/-! ## Sources that are compiled alone -/

theorem LeavesOut.mem_supertypes {x y : DeclId} (h : t.LeavesOut x y) : y ∈ t.supertypes x := by
  cases h with
  | superclass hd hclass htype hlookup =>
    exact List.mem_filterMap.mpr
      ⟨_, mem_supertypeNames.mpr (.superclass hd hclass htype), hlookup⟩
  | root _ hname hlookup =>
    exact List.mem_filterMap.mpr ⟨_, mem_supertypeNames.mpr hname, hlookup⟩

/-- A cyclic hierarchy over classes.  The superclass of one class is extended by the interface too,
    so the step to it, which is left out, does no harm. -/
theorem signatures_of_describe_classes :
    let t := (build (unitsOfText none "
interface I extends C, D;
class C extends D implements J;
class D { T g(); }
interface J extends I { T f(int x); }
")).1
    ∃ d i, t.get? 0 = some d ∧ t.describe 0 true = some i ∧ t.CoversAbove 0 i.methods ∧
      "f(int)" ∈ i.methods.map (·.signature) := by
  intro t
  obtain ⟨hsome, hancestry, hlineage, hsupertypes, hroot, hown⟩ :
      (t.get? 0).isSome = true ∧ t.ancestry 0 = [0, 1, 2, 3] ∧ (∀ x ∈ [0, 1, 2, 3], x ∈ t.lineage 0) ∧
        (∀ y ∈ [0, 1, 2, 3], ∀ z ∈ t.supertypes y, z ∈ [0, 1, 2, 3]) ∧
        t.nameOf 3 ≠ Library.object ∧ (t.ownMethods 3).map (·.signature) = ["f(int)"] := by
    unfold t
    rw [unitsOfText_eq _ _ rfl]
    decide +kernel
  obtain ⟨d, hd⟩ := Option.isSome_iff_exists.mp hsome
  obtain ⟨i, hi, hsignatures, _, _, _, hcovers⟩ := signatures_of_describe t hd true
  have hinherits : ∀ x ∈ [0, 1, 2, 3], ∃ n, t.Inherits 0 n x := fun x hx =>
    ((mem_lineage (lt_size_of_get? hd)).mp (hlineage x hx)).1
  refine ⟨d, i, hd, hi, hcovers fun n y z hy hout => ?_, ?_⟩
  · -- every step up, whether it is left out or not, ends at one of the four
    have hmem := (mem_ancestry (lt_size_of_get? hd)).mpr hy.above
    exact hinherits z (hsupertypes y (hancestry ▸ hmem) z hout.mem_supertypes)
  · obtain ⟨m, hm, hsignature⟩ := List.mem_map.mp (hown ▸ List.mem_singleton_self "f(int)")
    obtain ⟨n, hx⟩ := hinherits 3 (by simp)
    exact hsignature ▸ hsignatures n 3 hx hroot m hm

/-- The first declaration of a source is an actor interface, and its descriptor does not cover what
    is above it. -/
def MissesSignature (text : String) : Prop :=
  let t := (build (unitsOfText none text)).1
  t.isKind 0 .interfaceType = true ∧ t.role 0 = .actor ∧
    ∃ i, t.describe 0 true = some i ∧ ¬ t.CoversAbove 0 i.methods

theorem MissesSignature.of_ancestry {text : String} {cs : List Char}
    (htext : text = String.ofList cs)
    (h : let t := (build ((Syntax.parseChars cs).unit.toList.map fun unit =>
        ⟨unit, 0, none, true⟩)).1
      t.isKind 0 .interfaceType = true ∧ t.role 0 = .actor ∧
        ¬ ∀ x ∈ t.ancestry 0, t.nameOf x ≠ Library.object → ∀ m ∈ t.ownMethods x,
          m.signature ∈ (t.effectiveMethods 0).map (·.signature)) : MissesSignature text := by
  rw [← unitsOfText_eq none text htext] at h
  unfold MissesSignature
  generalize (build (unitsOfText none text)).1 = t at h ⊢
  obtain ⟨hkind, hrole, hmissing⟩ := h
  have hid := lt_size_of_isKind hkind
  obtain ⟨d, hd⟩ := exists_get?_of_lt_size hid
  obtain ⟨i, hi, _⟩ := signatures_of_describe t hd true
  rw [← coversAbove_iff hid, ← methods_eq_of_describe hi] at hmissing
  exact ⟨hkind, hrole, i, hi, hmissing⟩

/-- Methods that are declared in the superclass of a class, and methods that are declared above the
    root type, are missing from interfaces below.  In the first source the interface is an actor
    through that very superclass. -/
theorem missesSignature_of_classes :
    MissesSignature "
interface I extends C; class C extends D; class D implements orbit.actors.Actor { T f(); }" ∧
      MissesSignature "
package orbit.lang; interface I extends Object, orbit.actors.Actor;
class Object implements A; interface A { T f(); }" := by
  constructor
  · exact .of_ancestry rfl (by decide +kernel)
  · exact .of_ancestry rfl (by decide +kernel)

end ActorIdl.Table
