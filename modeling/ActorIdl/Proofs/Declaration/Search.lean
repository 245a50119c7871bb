import ActorIdl.Declaration.Search
import Mathlib.Data.List.TakeWhile
/-! # What a breadth-first search finds

    The search lists every number at most once, and it lists exactly those that are linked to a
    pending one by a chain of neighbours that all remain.  Erasing what was found from the set of
    what remains cuts no chain: where a chain passes through an erased number, the neighbours of
    that number are pending from then on. -/

namespace ActorIdl

/-- Linked to a pending number by neighbours, with everything on the way among what remains. -/
inductive Linked (next : Nat → List Nat) (remaining pending : List Nat) : Nat → Prop where
  | start {x : Nat} : x ∈ pending → x ∈ remaining → Linked next remaining pending x
  | step {x y : Nat} : Linked next remaining pending x → y ∈ next x → y ∈ remaining →
      Linked next remaining pending y

variable {next : Nat → List Nat} {remaining pending : List Nat}

theorem Linked.remains {x : Nat} (h : Linked next remaining pending x) : x ∈ remaining := by
  cases h with
  | start _ hr => exact hr
  | step _ _ hr => exact hr

/-- What the search skips in front of the first number that remains is of no use to any chain. -/
theorem mem_of_dropWhile_eq_cons {found : Nat} {rest : List Nat}
    (h : pending.dropWhile (!remaining.contains ·) = found :: rest) :
    found ∈ pending ∧ found ∈ remaining ∧
      ∀ x ∈ pending, x ∈ remaining → x = found ∨ x ∈ rest := by
  induction pending with
  | nil => simp at h
  | cons p ps ih =>
    by_cases hp : p ∈ remaining
    · rw [List.dropWhile_cons_of_neg (by simpa using hp)] at h
      obtain ⟨rfl, rfl⟩ := List.cons.inj h
      exact ⟨List.mem_cons_self, hp, fun x hx _ => List.mem_cons.mp hx⟩
    · rw [List.dropWhile_cons_of_pos (by simpa using hp)] at h
      obtain ⟨hmem, hrem, hrest⟩ := ih h
      refine ⟨List.mem_cons_of_mem _ hmem, hrem, fun x hx hxr => ?_⟩
      rcases List.mem_cons.mp hx with rfl | hx
      · exact absurd hxr hp
      · exact hrest x hx hxr

theorem not_mem_of_dropWhile_eq_nil (h : pending.dropWhile (!remaining.contains ·) = [])
    {x : Nat} (hx : x ∈ pending) : x ∉ remaining := by
  have := List.dropWhile_eq_nil_iff.mp h x hx
  simpa using this

/-- A chain of the search that goes on is a chain of the search before. -/
theorem Linked.of_erase {found : Nat} {rest : List Nat} {x : Nat}
    (hfound : Linked next remaining pending found) (hrest : ∀ y ∈ rest, y ∈ pending)
    (h : Linked next (remaining.erase found) (rest ++ next found) x) :
    Linked next remaining pending x := by
  induction h with
  | start hp hr =>
    have hr := List.mem_of_mem_erase hr
    rcases List.mem_append.mp hp with hp | hp
    · exact .start (hrest _ hp) hr
    · exact .step hfound hp hr
  | step _ hn hr ih => exact .step ih hn (List.mem_of_mem_erase hr)

/-- A chain of the search before is one of the search that goes on, unless it ends at once. -/
theorem Linked.erase {found : Nat} {rest : List Nat} {x : Nat}
    (hpending : ∀ y ∈ pending, y ∈ remaining → y = found ∨ y ∈ rest)
    (h : Linked next remaining pending x) :
    x = found ∨ Linked next (remaining.erase found) (rest ++ next found) x := by
  induction h with
  | @start x hp hr =>
    by_cases hx : x = found
    · exact .inl hx
    · rcases hpending x hp hr with heq | hmem
      · exact .inl heq
      · exact .inr (.start (List.mem_append_left _ hmem) ((List.mem_erase_of_ne hx).mpr hr))
  | @step x y _ hn hr ih =>
    by_cases hy : y = found
    · exact .inl hy
    · -- behind the erased number the chain begins anew, at one of its neighbours
      have hr' := (List.mem_erase_of_ne hy).mpr hr
      rcases ih with rfl | ih
      · exact .inr (.start (List.mem_append_right _ hn) hr')
      · exact .inr (.step ih hn hr')

/-- The search is exact. -/
theorem mem_breadthFirst {x : Nat} :
    x ∈ breadthFirst next remaining pending ↔ Linked next remaining pending x := by
  fun_induction breadthFirst next remaining pending with
  | case1 remaining pending h =>
    constructor
    · intro hx
      cases hx
    · -- a chain would have to begin at a pending number that remains
      intro hx
      exfalso
      induction hx with
      | start hp hr => exact not_mem_of_dropWhile_eq_nil h hp hr
      | step _ _ _ ih => exact ih
  | case2 remaining pending found rest h ih =>
    obtain ⟨hmem, hrem, hrest⟩ := mem_of_dropWhile_eq_cons h
    have hsub : ∀ y ∈ rest, y ∈ pending := fun y hy =>
      (List.dropWhile_sublist _).subset (h ▸ List.mem_cons_of_mem _ hy)
    rw [List.mem_cons, ih]
    constructor
    · rintro (rfl | hx)
      · exact .start hmem hrem
      · exact Linked.of_erase (.start hmem hrem) hsub hx
    · exact Linked.erase hrest

/-- The search lists nothing twice. -/
theorem nodup_breadthFirst (hr : remaining.Nodup) :
    (breadthFirst next remaining pending).Nodup := by
  fun_induction breadthFirst next remaining pending with
  | case1 => exact List.nodup_nil
  | case2 remaining pending found rest h ih =>
    refine List.nodup_cons.mpr ⟨fun hx => ?_, ih (hr.erase _)⟩
    have := (mem_breadthFirst.mp hx).remains
    exact (hr.mem_erase_iff.mp this).1 rfl

/-- A number that is pending and remains is found before the others. -/
theorem breadthFirst_cons_of_mem {x : Nat} (hx : x ∈ remaining) :
    breadthFirst next remaining (x :: pending) =
      x :: breadthFirst next (remaining.erase x) (pending ++ next x) := by
  have hdrop : (x :: pending).dropWhile (!remaining.contains ·) = x :: pending :=
    List.dropWhile_cons_of_neg (by simpa using hx)
  rw [breadthFirst]
  split
  · rename_i hnil
    rw [hdrop] at hnil
    cases hnil
  · rename_i hcons
    rw [hdrop] at hcons
    obtain ⟨rfl, rfl⟩ := List.cons.inj hcons
    rfl

/-! ## Other numbers -/

section
variable {next' : Nat → List Nat} {f : Nat → Nat} {S : Nat → Prop}

theorem dropWhile_map_of_mem_iff {remaining' : List Nat}
    (hremaining : ∀ x, S x → (f x ∈ remaining' ↔ x ∈ remaining)) (hpending : ∀ x ∈ pending, S x) :
    (pending.map f).dropWhile (!remaining'.contains ·) =
      (pending.dropWhile (!remaining.contains ·)).map f := by
  induction pending with
  | nil => rfl
  | cons p ps ih =>
    obtain ⟨hp, hps⟩ := List.forall_mem_cons.mp hpending
    rw [List.map_cons]
    by_cases hmem : p ∈ remaining
    · rw [List.dropWhile_cons_of_neg (by simpa [hremaining p hp] using hmem),
        List.dropWhile_cons_of_neg (by simpa using hmem), List.map_cons]
    · rw [List.dropWhile_cons_of_pos (by simpa [hremaining p hp] using hmem),
        List.dropWhile_cons_of_pos (by simpa using hmem)]
      exact ih hps

/-- The search finds the same in a graph with other numbers, and in the same order.  Only the
    numbers in `S` matter, which holds what is pending and the neighbours of what it holds. -/
theorem breadthFirst_map (hclosed : ∀ x, S x → ∀ y ∈ next x, S y)
    (hnext : ∀ x, S x → next' (f x) = (next x).map f)
    (hinj : ∀ x y, S x → S y → f x = f y → x = y) {remaining' : List Nat}
    (hr : remaining.Nodup) (hr' : remaining'.Nodup)
    (hremaining : ∀ x, S x → (f x ∈ remaining' ↔ x ∈ remaining))
    (hpending : ∀ x ∈ pending, S x) :
    breadthFirst next' remaining' (pending.map f) = (breadthFirst next remaining pending).map f := by
  fun_induction breadthFirst next remaining pending generalizing remaining' with
  | case1 remaining pending h =>
    have hdrop := dropWhile_map_of_mem_iff hremaining hpending
    rw [h] at hdrop
    rw [breadthFirst]
    split
    · rfl
    · rename_i hcons
      rw [hdrop] at hcons
      cases hcons
  | case2 remaining pending found rest h ih =>
    have hdrop := dropWhile_map_of_mem_iff hremaining hpending
    rw [h] at hdrop
    have hsub : ∀ y ∈ found :: rest, S y := fun y hy =>
      hpending y ((List.dropWhile_sublist _).subset (h ▸ hy))
    obtain ⟨hfound, hrest⟩ := List.forall_mem_cons.mp hsub
    have hgoes : ∀ x ∈ rest ++ next found, S x :=
      List.forall_mem_append.mpr ⟨hrest, hclosed found hfound⟩
    -- what is erased here is erased there
    have herase : ∀ x, S x → (f x ∈ remaining'.erase (f found) ↔ x ∈ remaining.erase found) := by
      intro x hx
      rw [hr'.mem_erase_iff, hr.mem_erase_iff, hremaining x hx]
      refine and_congr_left fun _ => not_congr ⟨fun heq => hinj x found hx hfound heq, ?_⟩
      rintro rfl
      rfl
    rw [breadthFirst]
    split
    · rename_i hnil
      rw [hdrop] at hnil
      cases hnil
    · rename_i hcons
      rw [hdrop] at hcons
      obtain ⟨rfl, rfl⟩ := List.cons.inj hcons
      rw [List.map_cons, hnext found hfound, ← List.map_append,
        ih (hr.erase _) (hr'.erase _) herase hgoes]

end

end ActorIdl
