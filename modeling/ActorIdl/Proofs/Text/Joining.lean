import ActorIdl.Proofs.Text.Lines
/-! # Words joined by a separator

    A text that joins words has the separator between every two of them.  If the separator is one
    character and no word has it, the words are the parts of the text between the separators. -/

namespace ActorIdl

open Text

theorem joinWith_cons_append (sep head : String) (tail : List String) (w : String) :
    joinWith sep (head :: (tail ++ [w])) = joinWith sep (head :: tail) ++ sep ++ w := by
  induction tail generalizing head with
  | nil => rfl
  | cons t tail ih =>
    calc joinWith sep (head :: t :: (tail ++ [w]))
        = head ++ sep ++ joinWith sep (t :: (tail ++ [w])) := rfl
      _ = head ++ sep ++ (joinWith sep (t :: tail) ++ sep ++ w) := by rw [ih]
      _ = joinWith sep (head :: t :: tail) ++ sep ++ w := by
        simp only [joinWith, String.append_assoc]

theorem joinWith_append (sep : String) {words : List String} (h : words ≠ []) (w : String) :
    joinWith sep (words ++ [w]) = joinWith sep words ++ sep ++ w := by
  cases words with
  | nil => exact absurd rfl h
  | cons head tail => exact joinWith_cons_append sep head tail w

theorem joinWith_cons (sep head : String) {tail : List String} (h : tail ≠ []) :
    joinWith sep (head :: tail) = head ++ sep ++ joinWith sep tail := by
  cases tail with
  | nil => exact absurd rfl h
  | cons t ts => rfl

/-- What is in no word and not in the separator is not in the whole. -/
theorem not_mem_joinWith {c : Char} {sep : String} (hsep : c ∉ sep.toList) {words : List String}
    (hwords : ∀ w ∈ words, c ∉ w.toList) : c ∉ (joinWith sep words).toList := by
  induction words with
  | nil => exact List.not_mem_nil
  | cons w ws ih =>
    obtain ⟨hw, hws⟩ := List.forall_mem_cons.mp hwords
    by_cases hnil : ws = []
    · rw [hnil]
      exact hw
    · rw [joinWith_cons sep w hnil, String.toList_append, String.toList_append, List.mem_append,
        List.mem_append]
      exact not_or.mpr ⟨not_or.mpr ⟨hw, hsep⟩, ih hws⟩

theorem toList_joinWith (sep : String) (words : List String) :
    (joinWith sep words).toList = sep.toList.intercalate (words.map String.toList) := by
  induction words with
  | nil => rfl
  | cons w ws ih =>
    by_cases hnil : ws = []
    · rw [hnil, List.map_singleton, List.intercalate_singleton]
      rfl
    · have hne : ws.map String.toList ≠ [] := by simpa using hnil
      rw [joinWith_cons sep w hnil, String.toList_append, String.toList_append, List.map_cons,
        List.intercalate_cons_of_ne_nil hne, ih]

/-- Words without the separator are the parts of the text that joins them. -/
theorem splitOn_joinWith {c : Char} {sep : String} (hsep : sep.toList = [c]) {words : List String}
    (hwords : ∀ w ∈ words, c ∉ w.toList) (hne : words ≠ []) :
    splitOn c (joinWith sep words).toList = words.map String.toList := by
  rw [splitOn_eq, toList_joinWith, hsep]
  refine List.splitOn_intercalate c (fun l hl => ?_) (by simpa using hne)
  obtain ⟨w, hw, rfl⟩ := List.mem_map.mp hl
  exact hwords w hw

/-- Words without the separator can be read back from the text that joins them. -/
theorem joinWith_inj {c : Char} {sep : String} (hsep : sep.toList = [c]) {xs ys : List String}
    (hxs : ∀ x ∈ xs, c ∉ x.toList) (hys : ∀ y ∈ ys, c ∉ y.toList) (hxne : xs ≠ []) (hyne : ys ≠ [])
    (h : joinWith sep xs = joinWith sep ys) : xs = ys := by
  refine List.map_injective_iff.mpr (fun _ _ => String.toList_inj.mp) ?_
  rw [← splitOn_joinWith hsep hxs hxne, ← splitOn_joinWith hsep hys hyne, h]

end ActorIdl
