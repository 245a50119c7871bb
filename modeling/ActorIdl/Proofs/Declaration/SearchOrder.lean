import ActorIdl.Proofs.Declaration.Search
import ActorIdl.Proofs.Lists
import Mathlib.Data.List.Infix
import Mathlib.Data.List.Perm.Subperm
/-! # The order of a breadth-first search

    `discovered` is what a search finds in fewer than some number of steps, in the order of first
    discovery.  It keeps no queue and marks nothing: every round lists the start again, then the
    neighbours of everything that the round before has listed, and leaves each number at its first
    place.  So a round begins with the round before it, and numbers that are nearer come first.

    The search lists what some round lists, in the same order. -/

namespace ActorIdl

section
variable (next : Nat → List Nat) (start : List Nat)

/-- What is found in fewer than `n` steps: the start, then the neighbours of each number that is
    found in one step less, every number where it comes first. -/
def discovered : Nat → List Nat
  | 0 => []
  | n + 1 => (start ++ (discovered n).flatMap next).eraseDups

/-- Found after exactly so many steps, on one of the ways to the number. -/
inductive FoundAfter : Nat → Nat → Prop where
  | start {x : Nat} : x ∈ start → FoundAfter 0 x
  | step {n x y : Nat} : FoundAfter n x → y ∈ next x → FoundAfter (n + 1) y

end

/-! ## Numbers at their first place -/

theorem eraseDups_prefix {xs ys : List Nat} (h : xs <+: ys) : xs.eraseDups <+: ys.eraseDups := by
  obtain ⟨zs, rfl⟩ := h
  rw [List.eraseDups_append]
  exact List.prefix_append _ _

section
variable {next : Nat → List Nat} {start : List Nat}

/-! ## The rounds -/

theorem nodup_discovered (n : Nat) : (discovered next start n).Nodup := by
  cases n with
  | zero => exact List.nodup_nil
  | succ n => exact nodup_eraseDups _

/-- Another round of a list that a longer one begins with begins the next round of that one. -/
theorem round_prefix {xs ys : List Nat} (h : xs <+: ys) :
    (start ++ xs.flatMap next).eraseDups <+: (start ++ ys.flatMap next).eraseDups :=
  eraseDups_prefix ((List.prefix_append_right_inj start).mpr (h.flatMap next))

theorem discovered_prefix_succ (n : Nat) :
    discovered next start n <+: discovered next start (n + 1) := by
  induction n with
  | zero => exact List.nil_prefix
  | succ n ih => exact round_prefix ih

/-- A round lists what is found in so few steps. -/
theorem mem_discovered {n x : Nat} :
    x ∈ discovered next start n ↔ ∃ m < n, FoundAfter next start m x := by
  induction n generalizing x with
  | zero => simp [discovered]
  | succ n ih =>
    rw [discovered, List.mem_eraseDups, List.mem_append, List.mem_flatMap]
    constructor
    · rintro (hx | ⟨y, hy, hx⟩)
      · exact ⟨0, Nat.succ_pos n, .start hx⟩
      · obtain ⟨m, hm, hfound⟩ := ih.mp hy
        exact ⟨m + 1, Nat.succ_lt_succ hm, .step hfound hx⟩
    · rintro ⟨m, hm, hfound⟩
      cases hfound with
      | start hx => exact .inl hx
      | step hfound hx => exact .inr ⟨_, ih.mpr ⟨_, Nat.lt_of_succ_lt_succ hm, hfound⟩, hx⟩

/-- Of two numbers that a round lists the one that comes first is not farther away. -/
theorem pairwise_discovered (n : Nat) :
    (discovered next start n).Pairwise fun x y =>
      ∀ k, FoundAfter next start k y → ∃ m ≤ k, FoundAfter next start m x := by
  induction n with
  | zero => exact List.Pairwise.nil
  | succ n ih =>
    obtain ⟨rest, hrest⟩ := @discovered_prefix_succ next start n
    have hnodup := @nodup_discovered next start (n + 1)
    -- what the round adds was not found in fewer steps, and what it lists takes no more
    have hadded : ∀ x ∈ discovered next start (n + 1), ∀ y ∈ rest, ∀ k,
        FoundAfter next start k y → ∃ m ≤ k, FoundAfter next start m x := by
      intro x hx y hy k hk
      have hfar : n ≤ k := by
        by_contra hlt
        have hmem : y ∈ discovered next start n := mem_discovered.mpr ⟨k, Nat.lt_of_not_le hlt, hk⟩
        rw [← hrest] at hnodup
        exact List.disjoint_of_nodup_append hnodup hmem hy
      obtain ⟨m, hm, hfound⟩ := mem_discovered.mp hx
      exact ⟨m, by omega, hfound⟩
    rw [← hrest] at hadded ⊢
    refine List.pairwise_append.mpr ⟨ih, ?_, fun x hx => hadded x (List.mem_append_left _ hx)⟩
    exact List.pairwise_of_forall_mem_list fun x hx => hadded x (List.mem_append_right _ hx)

/-! ## The search -/

/-- The search lists what is pending and then the neighbours of what it lists, as far as they
    remain, every number where it comes first. -/
theorem breadthFirst_eq_eraseDups {remaining pending : List Nat} (hr : remaining.Nodup) :
    breadthFirst next remaining pending =
      ((pending ++ (breadthFirst next remaining pending).flatMap next).filter
        (remaining.contains ·)).eraseDups := by
  fun_induction breadthFirst next remaining pending with
  | case1 remaining pending h =>
    have hnone : pending.filter (remaining.contains ·) = [] := by
      refine List.filter_eq_nil_iff.mpr fun x hx => ?_
      simpa using not_mem_of_dropWhile_eq_nil h hx
    rw [List.flatMap_nil, List.append_nil, hnone, List.eraseDups_nil]
  | case2 remaining pending found rest h ih =>
    obtain ⟨_, hfound, _⟩ := mem_of_dropWhile_eq_cons h
    -- nothing before the number that is found remains
    have hskipped : pending.filter (remaining.contains ·) =
        (found :: rest).filter (remaining.contains ·) := by
      have hnone : (pending.takeWhile (!remaining.contains ·)).filter (remaining.contains ·) =
          [] := by
        refine List.filter_eq_nil_iff.mpr fun x hx => ?_
        simpa using List.mem_takeWhile_imp hx
      have hpending : pending.takeWhile (!remaining.contains ·) ++ found :: rest = pending :=
        h ▸ List.takeWhile_append_dropWhile
      rw [← hpending, List.filter_append, hnone, List.nil_append]
    have herase : ∀ x, (remaining.erase found).contains x =
        ((!x == found) && remaining.contains x) := by
      intro x
      rw [Bool.eq_iff_iff]
      simp [hr.mem_erase_iff]
    conv_lhs => rw [ih (hr.erase found)]
    conv_rhs => rw [List.filter_append, hskipped, ← List.filter_append, List.cons_append,
      List.filter_cons_of_pos (by simpa using hfound), List.eraseDups_cons, List.filter_filter,
      List.flatMap_cons, ← List.append_assoc]
    simp only [herase]

variable {remaining : List Nat} (hr : remaining.Nodup)
  (hstart : ∀ x ∈ start, x ∈ remaining) (hnext : ∀ x, ∀ y ∈ next x, y ∈ remaining)
include hr hstart hnext

/-- Where nothing leads out of what remains, a round of the search is the search. -/
theorem round_breadthFirst :
    (start ++ (breadthFirst next remaining start).flatMap next).eraseDups =
      breadthFirst next remaining start := by
  have hall : ∀ x ∈ start ++ (breadthFirst next remaining start).flatMap next,
      remaining.contains x = true := by
    intro x hx
    rw [List.contains_iff_mem]
    rcases List.mem_append.mp hx with hx | hx
    · exact hstart x hx
    · obtain ⟨y, _, hx⟩ := List.mem_flatMap.mp hx
      exact hnext y x hx
  conv_rhs => rw [breadthFirst_eq_eraseDups hr]
  rw [List.filter_eq_self.mpr hall]

/-- Every round begins the list of the search. -/
theorem discovered_prefix_breadthFirst (n : Nat) :
    discovered next start n <+: breadthFirst next remaining start := by
  induction n with
  | zero => exact List.nil_prefix
  | succ n ih =>
    rw [← round_breadthFirst hr hstart hnext]
    exact round_prefix ih

omit hr hstart hnext in
theorem exists_foundAfter_of_mem_breadthFirst {x : Nat}
    (hx : x ∈ breadthFirst next remaining start) : ∃ n, FoundAfter next start n x := by
  have hlinked := mem_breadthFirst.mp hx
  clear hx
  induction hlinked with
  | start hx _ => exact ⟨0, .start hx⟩
  | step _ hn _ ih =>
    obtain ⟨n, hfound⟩ := ih
    exact ⟨n + 1, .step hfound hn⟩

/-- A round that is not yet all of the search has at least as many numbers as there were rounds. -/
theorem discovered_eq_or_le_length (n : Nat) :
    discovered next start n = breadthFirst next remaining start ∨
      n ≤ (discovered next start n).length := by
  induction n with
  | zero => exact .inr (Nat.zero_le _)
  | succ n ih =>
    have hround := discovered_prefix_breadthFirst hr hstart hnext
    rcases ih with heq | hlen
    · left
      rw [discovered, heq]
      exact round_breadthFirst hr hstart hnext
    · have hsucc := @discovered_prefix_succ next start n
      rcases Nat.lt_or_ge (discovered next start n).length
          (discovered next start (n + 1)).length with hlt | hge
      · exact .inr (by omega)
      · -- a round that adds nothing is followed by rounds that add nothing
        left
        have hstop : discovered next start (n + 1) = discovered next start n :=
          (hsucc.eq_of_length_le hge).symm
        have hlater : ∀ m, discovered next start (n + m) = discovered next start n := by
          intro m
          induction m with
          | zero => rfl
          | succ m ih =>
            rw [← Nat.add_assoc, discovered, ih]
            exact hstop
        have hall : ∀ x ∈ breadthFirst next remaining start, x ∈ discovered next start n := by
          intro x hx
          obtain ⟨m, hfound⟩ := exists_foundAfter_of_mem_breadthFirst hx
          rw [← hlater (m + 1)]
          exact mem_discovered.mpr ⟨m, by omega, hfound⟩
        have hnodup : (breadthFirst next remaining start).Nodup := nodup_breadthFirst hr
        have hle := (List.subperm_of_subset hnodup hall).length_le
        rw [hstop]
        exact (hround n).eq_of_length_le hle

/-- The search lists what is found in fewer steps than numbers remain, in the order of first
    discovery. -/
theorem breadthFirst_eq_discovered :
    breadthFirst next remaining start = discovered next start remaining.length := by
  rcases discovered_eq_or_le_length hr hstart hnext remaining.length with heq | hlen
  · exact heq.symm
  · have hsub : ∀ x ∈ breadthFirst next remaining start, x ∈ remaining :=
      fun x hx => (mem_breadthFirst.mp hx).remains
    have hle := (List.subperm_of_subset (nodup_breadthFirst hr) hsub).length_le
    exact ((discovered_prefix_breadthFirst hr hstart hnext _).eq_of_length_le (by omega)).symm

/-- Whatever is found after some steps is listed by the search. -/
theorem mem_breadthFirst_iff_foundAfter {x : Nat} :
    x ∈ breadthFirst next remaining start ↔ ∃ n, FoundAfter next start n x := by
  constructor
  · exact exists_foundAfter_of_mem_breadthFirst
  · rintro ⟨n, hfound⟩
    have hmem : x ∈ discovered next start (n + 1) :=
      mem_discovered.mpr ⟨n, Nat.lt_succ_self n, hfound⟩
    exact (discovered_prefix_breadthFirst hr hstart hnext _).subset hmem

end

end ActorIdl
