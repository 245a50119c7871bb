import ActorIdl.Plan
import Mathlib.Data.List.Nodup
/-! # Dispatch tables

    The table of a list of methods holds for an identifier the position of the first method that
    has it.  If all identifiers are different it is therefore the exact inverse of the list. -/

namespace ActorIdl

namespace DispatchTable

theorem get?_insertNew (d : DispatchTable) (id other : MethodId) (index : Nat) :
    (d.insertNew id index).get? other =
      (d.get? other).or (if id = other then some index else none) := by
  unfold insertNew
  by_cases hid : (d.get? id).isSome = true
  · rw [if_pos hid]
    by_cases h : id = other
    · subst h
      obtain ⟨i, hi⟩ := Option.isSome_iff_exists.mp hid
      rw [hi, Option.some_or]
    · rw [if_neg h, Option.or_none]
  · rw [if_neg hid]
    by_cases h : id = other
    · subst h
      simp [get?, List.lookup_append]
    · have hne : (other == id) = false := by simpa using fun h' => h h'.symm
      simp [get?, List.lookup_append, List.lookup_cons, hne, h]

/-- What is in the table stays, and of the methods that come in the first counts. -/
theorem get?_insertAll (d : DispatchTable) (index : Nat) (ms : List MethodDescriptor)
    (id : MethodId) :
    (d.insertAll index ms).get? id =
      (d.get? id).or ((ms.findIdx? (·.effectiveId == id)).map (· + index)) := by
  induction ms generalizing d index with
  | nil => simp [insertAll]
  | cons m ms ih =>
    rw [insertAll, ih, get?_insertNew, Option.or_assoc, List.findIdx?_cons]
    by_cases h : m.effectiveId = id
    · simp [h]
    · -- positions behind the first method count from one further on
      have hshift : ∀ o : Option Nat,
          o.map (· + (index + 1)) = (o.map (· + 1)).map (· + index) := by
        intro o
        cases o with
        | none => rfl
        | some i => simp [Nat.add_assoc, Nat.add_comm 1]
      simp [h, hshift]

theorem get?_ofMethods (ms : List MethodDescriptor) (id : MethodId) :
    (ofMethods ms).get? id = ms.findIdx? (·.effectiveId == id) := by
  rw [ofMethods, get?_insertAll]
  simp [get?]

/-- With different identifiers the table maps an identifier to the place of its method and maps
    nothing else. -/
theorem get?_ofMethods_eq_some_iff {ms : List MethodDescriptor}
    (hids : (ms.map (·.effectiveId)).Nodup) {id : MethodId} {i : Nat} :
    (ofMethods ms).get? id = some i ↔ ∃ m, ms[i]? = some m ∧ m.effectiveId = id := by
  rw [get?_ofMethods, List.findIdx?_eq_some_iff_getElem]
  constructor
  · rintro ⟨hi, hid, _⟩
    exact ⟨ms[i], List.getElem?_eq_getElem hi, by simpa using hid⟩
  · rintro ⟨m, hm, rfl⟩
    obtain ⟨hi, rfl⟩ := List.getElem?_eq_some_iff.mp hm
    refine ⟨hi, by simp, fun j hj => ?_⟩
    -- an earlier method with the identifier would stand at the same position
    have hj' : j < ms.length := Nat.lt_trans hj hi
    have hne : ms[j].effectiveId ≠ ms[i].effectiveId := by
      intro heq
      have hji : j = i := by
        have hnth : (ms.map (·.effectiveId))[j]? = (ms.map (·.effectiveId))[i]? := by
          simp [hi, hj', heq]
        exact (List.getElem?_inj (by simpa using hj') hids).mp hnth
      omega
    simpa using hne

end DispatchTable

end ActorIdl
