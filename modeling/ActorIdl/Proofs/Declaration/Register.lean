import ActorIdl.Declaration.Entry
import Mathlib.Data.List.Induction
import Mathlib.Data.List.Nodup
/-! # Names in the register

    A register is known by the names that were entered, in the order of their numbers.  It has the
    number of a name that was entered once, and it holds a name if and only if the name was entered.
    What is entered for the members of a unit goes into the register entry by entry. -/

namespace ActorIdl

namespace NameIndex

theorem contains_insert (index : NameIndex) (key : String) (id : DeclId) (name : String) :
    (index.insert key id).contains name = (decide (name = key) || index.contains name) := by
  rw [contains, find?_insert]
  by_cases h : name = key
  · simp [h]
  · simp [h, contains]

end NameIndex

namespace Register

/-- The register after names are entered one after the other. -/
def enterAll (r : Register) (names : List String) : Register := names.foldl enter r

/-- A name is in a register if a number stands under it. -/
instance : Membership String Register := ⟨fun r name => r.byName.contains name = true⟩

theorem mem_iff {r : Register} {name : String} : name ∈ r ↔ r.byName.contains name = true := Iff.rfl

/-- The register in which names are entered. -/
def of (names : List String) : Register := start.enterAll names

theorem enterAll_cons (r : Register) (name : String) (names : List String) :
    r.enterAll (name :: names) = (r.enter name).enterAll names := rfl

theorem enterAll_append (r : Register) (names names' : List String) :
    r.enterAll (names ++ names') = (r.enterAll names).enterAll names' := List.foldl_append

@[simp] theorem of_nil : of [] = start := rfl

theorem enterAll_of (names names' : List String) :
    (of names).enterAll names' = of (names ++ names') := (enterAll_append _ _ _).symm

theorem enter_of (names : List String) (name : String) :
    (of names).enter name = of (names ++ [name]) := (enterAll_append _ _ [name]).symm

theorem next_enterAll (r : Register) (names : List String) :
    (r.enterAll names).next = r.next + names.length := by
  induction names generalizing r with
  | nil => rfl
  | cons name names ih => rw [enterAll_cons, ih, next_enter, List.length_cons, Nat.add_assoc,
      Nat.add_comm 1]

/-- The next number is the count of the names. -/
@[simp] theorem next_of (names : List String) : (of names).next = names.length :=
  (next_enterAll start names).trans (Nat.zero_add _)

end Register

namespace NameIndex

/-- The index of names, each with its place. -/
def of (names : List String) : NameIndex := (Register.of names).byName

theorem of_concat (names : List String) (name : String) :
    of (names ++ [name]) = (of names).insert name names.length := by
  rw [of, ← Register.enter_of, Register.byName_enter, Register.next_of]
  rfl

@[simp] theorem contains_of (names : List String) (name : String) :
    (of names).contains name = names.contains name := by
  induction names using List.reverseRecOn with
  | nil => rfl
  | append_singleton names key ih =>
    rw [of_concat, contains_insert, ih, List.contains_append, List.contains_cons,
      List.contains_nil, Bool.or_false, Bool.or_comm]
    rfl

/-- The number of a name that is there once is its place among the names. -/
theorem find?_of_eq_some_iff {names : List String} (h : names.Nodup) {name : String} {id : DeclId} :
    (of names).find? name = some id ↔ names[id]? = some name := by
  induction names using List.reverseRecOn generalizing id with
  | nil => exact ⟨(nomatch ·), (nomatch ·)⟩
  | append_singleton names key ih =>
    obtain ⟨hnames, _, hdisjoint⟩ := List.nodup_append.mp h
    rw [of_concat, find?_insert]
    by_cases hkey : name = key
    · subst hkey
      have hfresh : name ∉ names := fun hmem => hdisjoint name hmem name List.mem_cons_self rfl
      rw [if_pos rfl, Option.some.injEq]
      constructor
      · rintro rfl
        exact List.getElem?_concat_length
      · -- the name is not among those before
        intro hget
        rcases Nat.lt_or_ge id names.length with hlt | hge
        · rw [List.getElem?_append_left hlt] at hget
          exact absurd (List.mem_of_getElem? hget) hfresh
        · have hlt := (List.getElem?_eq_some_iff.mp hget).1
          rw [List.length_append, List.length_singleton] at hlt
          exact Nat.le_antisymm hge (Nat.le_of_lt_succ hlt)
    · rw [if_neg hkey, ih hnames]
      constructor
      · exact fun hget => List.getElem?_append_left (List.getElem?_eq_some_iff.mp hget).1 ▸ hget
      · intro hget
        rcases Nat.lt_or_ge id names.length with hlt | hge
        · rwa [List.getElem?_append_left hlt] at hget
        · rw [List.getElem?_append_right hge] at hget
          have hmem := List.mem_of_getElem? hget
          exact absurd (List.mem_singleton.mp hmem) hkey

end NameIndex

/-- A name is in the register if it was entered. -/
@[simp] theorem Register.mem_of {names : List String} {name : String} :
    name ∈ Register.of names ↔ name ∈ names := by
  rw [Register.mem_iff, ← List.contains_iff_mem, ← NameIndex.contains_of]
  rfl

/-! ## The register after entering -/

theorem entryNames_append (entries entries' : List Entry) :
    entryNames (entries ++ entries') = entryNames entries ++ entryNames entries' := List.map_append

section
variable (u : SourceUnit)

mutual

theorem register_enterMember (outers : List Outer) (r : Register) (m : Syntax.Member) :
    (enterMember u outers r m).register =
      r.enterAll (entryNames (enterMember u outers r m).entries) :=
  match m with
  | .method _ => rfl
  | .nested head members => by
    rw [enterMember]
    dsimp only
    split
    · rfl
    · exact register_enterMembers _ _ members

/-- What is entered for members is in the register afterwards. -/
theorem register_enterMembers (outers : List Outer) (r : Register) (ms : List Syntax.Member) :
    (enterMembers u outers r ms).register =
      r.enterAll (entryNames (enterMembers u outers r ms).entries) :=
  match ms with
  | [] => rfl
  | m :: ms => by
    rw [enterMembers]
    dsimp only
    rw [register_enterMembers outers _ ms, entryNames_append, Register.enterAll_append,
      register_enterMember outers r m]

end

/-- Members are entered behind what was entered for those before. -/
theorem enterMembers_cons (outers : List Outer) (r : Register) (m : Syntax.Member)
    (ms : List Syntax.Member) :
    let first := enterMember u outers r m
    let rest := enterMembers u outers (r.enterAll (entryNames first.entries)) ms
    enterMembers u outers r (m :: ms) =
      ⟨first.members.toList ++ rest.members, first.entries ++ rest.entries,
        first.reports ++ rest.reports, rest.register⟩ := by
  rw [enterMembers, register_enterMember]

/-- Units are entered behind what was entered for those before. -/
theorem enterUnits_cons (r : Register) (us : List SourceUnit) :
    let first := enterUnit r u
    let rest := enterUnits (r.enterAll (entryNames first.entries)) us
    enterUnits r (u :: us) =
      ⟨(if u.isRoot then enteredIds first.members else []) ++ rest.members,
        first.entries ++ rest.entries, first.reports ++ rest.reports, rest.register⟩ := by
  rw [enterUnits, enterUnit, register_enterMembers]

end

theorem register_enterUnits (r : Register) (us : List SourceUnit) :
    (enterUnits r us).register = r.enterAll (entryNames (enterUnits r us).entries) := by
  induction us generalizing r with
  | nil => rfl
  | cons u us ih =>
    rw [enterUnits_cons]
    dsimp only
    rw [ih, entryNames_append, Register.enterAll_append]

end ActorIdl
