/-! # The register of declarations

    While declarations are entered, the register counts them and remembers the number of each under
    its qualified name.  The number of a declaration is its place in the table, so the next one gets
    the count. -/

namespace ActorIdl

/-- The number of a declaration. -/
abbrev DeclId := Nat

/-- The numbers of declarations by their qualified names. -/
structure NameIndex where
  pairs : List (String × DeclId)
deriving Repr

namespace NameIndex

def empty : NameIndex := ⟨[]⟩

/-- The number that stands under a name. -/
def find? (index : NameIndex) (name : String) : Option DeclId := index.pairs.lookup name

/-- Whether a number stands under a name. -/
def contains (index : NameIndex) (name : String) : Bool := (index.find? name).isSome

/-- The index with a number under a name, in place of the one that may stand there. -/
def insert (index : NameIndex) (name : String) (id : DeclId) : NameIndex :=
  ⟨(name, id) :: index.pairs⟩

theorem find?_insert (index : NameIndex) (key : String) (id : DeclId) (name : String) :
    (index.insert key id).find? name = if name = key then some id else index.find? name := by
  by_cases h : name = key
  · subst h
    simp [find?, insert]
  · have hne : (name == key) = false := by simpa using h
    simp [find?, insert, List.lookup_cons, h, hne]

end NameIndex

/-- The declarations entered so far. -/
structure Register where
  /-- How many they are, which is the number of the next one. -/
  next : DeclId
  byName : NameIndex
  /-- Every number in the index is that of a declaration entered before. -/
  lt_next : ∀ name id, byName.find? name = some id → id < next

namespace Register

/-- The register in which nothing is entered. -/
def start : Register := ⟨0, .empty, fun _ _ h => nomatch h⟩

/-- The register after a declaration is entered under a name. -/
def enter (r : Register) (name : String) : Register where
  next := r.next + 1
  byName := r.byName.insert name r.next
  lt_next := by
    intro key id h
    rw [NameIndex.find?_insert] at h
    split at h
    · cases h
      exact Nat.lt_succ_self _
    · exact Nat.lt_succ_of_lt (r.lt_next key id h)

@[simp] theorem next_start : start.next = 0 := rfl

@[simp] theorem next_enter (r : Register) (name : String) : (r.enter name).next = r.next + 1 := rfl

@[simp] theorem byName_enter (r : Register) (name : String) :
    (r.enter name).byName = r.byName.insert name r.next := rfl

end Register

end ActorIdl
