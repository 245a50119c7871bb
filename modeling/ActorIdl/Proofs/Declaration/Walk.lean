import ActorIdl.Build
import ActorIdl.Proofs.Declaration.Forest
import Mathlib.Data.List.Perm.Subperm
import Mathlib.Data.List.Shortlex
import Mathlib.Logic.Function.Iterate
/-! # The walk over the declarations of a round

    The walk keeps a queue and nothing else.  It takes the first declaration that waits, puts it
    down under its kind unless the compiler wrote it, and lets the declarations nested in it wait
    behind the others.  Nothing is marked as visited.  That the walk ends, and that it comes to
    nothing twice, is due to the table alone: its declarations are trees.

    Where a declaration stands is said by its position, the number of a root and then, level by
    level, the numbers among nested declarations that lead down from it.  The walk goes through the
    declarations from short positions to long ones, and through those of one length as in a
    dictionary. -/

namespace ActorIdl

/-! ## Steps -/

/-- A walk on its way: what it has put down, and what waits. -/
structure Walk where
  found : Candidates
  waiting : List DeclId

/-- Puts a declaration down under its kind. -/
def Candidates.put (t : Table) (c : Candidates) (id : DeclId) : Candidates :=
  match t.get? id with
  | none => c
  | some d =>
    match d.kind with
    | .classType => { c with classes := c.classes ++ [id] }
    | .interfaceType => { c with interfaces := c.interfaces ++ [id] }
    | .annotationType => { c with annotationTypes := c.annotationTypes ++ [id] }

/-- The candidates of a kind. -/
def Candidates.ofKind (c : Candidates) : DeclKind → List DeclId
  | .classType => c.classes
  | .interfaceType => c.interfaces
  | .annotationType => c.annotationTypes

namespace Walk

/-- The walk before its first step. -/
def start (t : Table) : Walk := ⟨⟨[], [], []⟩, t.roots⟩

/-- Goes on with the first declaration that waits; where nothing waits the walk has ended. -/
def step (t : Table) (w : Walk) : Walk :=
  match w.waiting with
  | [] => w
  | id :: rest =>
    if t.isGenerated id then ⟨w.found, rest⟩ else ⟨w.found.put t id, rest ++ t.nestedOf id⟩

end Walk

namespace Table

variable {t : Table} {id : DeclId}

theorem put_eq (c : Candidates) (id : DeclId) : c.put t id =
    ⟨c.classes ++ [id].filter (t.isKind · .classType),
      c.interfaces ++ [id].filter (t.isKind · .interfaceType),
      c.annotationTypes ++ [id].filter (t.isKind · .annotationType)⟩ := by
  unfold Candidates.put isKind
  cases hd : t.get? id with
  | none => simp [hd]
  | some d => cases hk : d.kind <;> simp [hd, hk]

theorem foldl_put (c : Candidates) (ids : List DeclId) : ids.foldl (Candidates.put t) c =
    ⟨c.classes ++ ids.filter (t.isKind · .classType),
      c.interfaces ++ ids.filter (t.isKind · .interfaceType),
      c.annotationTypes ++ ids.filter (t.isKind · .annotationType)⟩ := by
  induction ids generalizing c with
  | nil => simp
  | cons id ids ih =>
    rw [List.foldl_cons, ih, put_eq]
    simp only [List.append_assoc, ← List.filter_append, List.singleton_append]

/-! ## Trees -/

/-- The declarations are trees on the roots: each has its place among the roots or in one other
    declaration. -/
structure HasTrees (t : Table) : Prop where
  nodup_roots : t.roots.Nodup
  root_lt : ∀ id ∈ t.roots, id < t.size
  nodup_nested : ∀ outer, (t.nestedOf outer).Nodup
  nested_lt : ∀ outer, ∀ id ∈ t.nestedOf outer, id < t.size
  not_root : ∀ outer, ∀ id ∈ t.nestedOf outer, id ∉ t.roots
  outer_eq : ∀ id outer outer', id ∈ t.nestedOf outer → id ∈ t.nestedOf outer' → outer = outer'

theorem mem_nestedOf {outer : DeclId} :
    id ∈ t.nestedOf outer ↔ ∃ o, t.get? outer = some o ∧ id ∈ o.nested := by
  unfold nestedOf
  cases t.get? outer <;> simp

theorem mem_roots_build {units : List SourceUnit} : id ∈ (build units).1.roots ↔
    ∃ p, (enteredPlaces units)[id]? = some p ∧ p.isRoot = true := by
  rw [roots_build, List.mem_findIdxs_iff_exists_getElem_pos]
  constructor
  · intro h
    obtain ⟨hlt, hroot⟩ := h
    exact ⟨_, List.getElem?_eq_getElem hlt, hroot⟩
  · intro h
    obtain ⟨p, hp, hroot⟩ := h
    obtain ⟨hlt, rfl⟩ := List.getElem?_eq_some_iff.mp hp
    exact ⟨hlt, hroot⟩

theorem hasTrees_build (units : List SourceUnit) : (build units).1.HasTrees := by
  have hforest := isForest_build units
  have hnested : ∀ outer, ∀ id ∈ (build units).1.nestedOf outer,
      ∃ d, (build units).1.get? id = some d ∧ d.enclosing = some outer := by
    intro outer id hid
    obtain ⟨o, ho, hid⟩ := mem_nestedOf.mp hid
    exact hforest.enclosed outer o ho id hid
  constructor
  · rw [roots_build]
    exact List.nodup_findIdxs
  · intro id hid
    obtain ⟨p, hp, _⟩ := mem_roots_build.mp hid
    rw [size_build]
    exact (List.getElem?_eq_some_iff.mp hp).1
  · intro outer
    unfold nestedOf
    cases ho : (build units).1.get? outer with
    | none => exact List.nodup_nil
    | some o =>
      obtain ⟨p, _, hgives⟩ := exists_place_of_get? ho
      exact hgives.nodup_nested
  · intro outer id hid
    obtain ⟨d, hd, _⟩ := hnested outer id hid
    exact lt_size_of_get? hd
  · -- a root stands in nothing
    intro outer id hid hroot
    obtain ⟨d, hd, houter⟩ := hnested outer id hid
    obtain ⟨p, hp, hisroot⟩ := mem_roots_build.mp hroot
    obtain ⟨d', hd', hgives⟩ := exists_gives_of_getElem? hp
    obtain rfl := Option.some.inj (hd.symm.trans hd')
    rw [DeclPlace.isRoot, Bool.and_eq_true, List.isEmpty_iff] at hisroot
    rw [hgives.enclosing, hisroot.1] at houter
    cases houter
  · intro id outer outer' hid hid'
    obtain ⟨d, hd, houter⟩ := hnested outer id hid
    obtain ⟨d', hd', houter'⟩ := hnested outer' id hid'
    obtain rfl := Option.some.inj (hd.symm.trans hd')
    -- what a declaration stands in is kept with it
    exact Option.some.inj (houter.symm.trans houter')

/-! ## The queue -/

/-- Declarations that wait, each once and none of them taken yet.  Of what is not taken, nothing
    that is nested in it has been taken or waits. -/
structure Queues (t : Table) (remaining waiting : List DeclId) : Prop where
  nodup : waiting.Nodup
  remains : ∀ x ∈ waiting, x ∈ remaining
  below : ∀ x ∈ remaining, ∀ y ∈ t.openNested x, y ∈ remaining ∧ y ∉ waiting

/-- At the start the roots wait, and nothing is nested in a declaration that is a root. -/
theorem HasTrees.queues_roots (h : t.HasTrees) : t.Queues (List.range t.size) t.roots where
  nodup := h.nodup_roots
  remains := fun x hx => List.mem_range.mpr (h.root_lt x hx)
  below := by
    intro x _ y hy
    have hy := (mem_openNested.mp hy).2
    exact ⟨List.mem_range.mpr (h.nested_lt x y hy), h.not_root x y hy⟩

/-- One step keeps the queue in order: what is nested in the declaration that is taken waits for the
    first time. -/
theorem Queues.step (ht : t.HasTrees) {remaining rest : List DeclId} (hr : remaining.Nodup)
    (h : t.Queues remaining (id :: rest)) :
    t.Queues (remaining.erase id) (rest ++ t.openNested id) := by
  obtain ⟨hid, hrest⟩ := List.nodup_cons.mp h.nodup
  have hmem : id ∈ remaining := h.remains id List.mem_cons_self
  -- nothing that is nested in the declaration has been taken or waits
  have hnested : ∀ y ∈ t.openNested id, y ∈ remaining ∧ y ≠ id ∧ y ∉ rest := by
    intro y hy
    obtain ⟨hyr, hyw⟩ := h.below id hmem y hy
    rw [List.mem_cons, not_or] at hyw
    exact ⟨hyr, hyw⟩
  constructor
  · apply hrest.append
    · unfold openNested
      cases t.isGenerated id
      · exact ht.nodup_nested id
      · exact List.nodup_nil
    · intro y hy hy'
      exact (hnested y hy').2.2 hy
  · intro y hy
    rw [hr.mem_erase_iff]
    rcases List.mem_append.mp hy with hy | hy
    · exact ⟨fun heq => hid (heq ▸ hy), h.remains y (List.mem_cons_of_mem _ hy)⟩
    · exact ⟨(hnested y hy).2.1, (hnested y hy).1⟩
  · intro x hx y hy
    obtain ⟨hne, hx⟩ := hr.mem_erase_iff.mp hx
    obtain ⟨hyr, hyw⟩ := h.below x hx y hy
    rw [List.mem_cons, not_or] at hyw
    refine ⟨hr.mem_erase_iff.mpr ⟨hyw.1, hyr⟩, fun hmem => ?_⟩
    rcases List.mem_append.mp hmem with hmem | hmem
    · exact hyw.2 hmem
    · -- it would be nested in two declarations
      exact hne (ht.outer_eq y x id (mem_openNested.mp hy).2 (mem_openNested.mp hmem).2)

/-- A queue in order runs empty: what holds of the empty queue, and of a queue if it holds of the
    next one, holds of every queue in order. -/
theorem Queues.run (ht : t.HasTrees) {P : List DeclId → List DeclId → Prop}
    (hnil : ∀ remaining, P remaining [])
    (hcons : ∀ remaining id rest, t.Queues remaining (id :: rest) →
      P (remaining.erase id) (rest ++ t.openNested id) → P remaining (id :: rest))
    {remaining waiting : List DeclId} (hr : remaining.Nodup) (h : t.Queues remaining waiting) :
    P remaining waiting := by
  -- on how many declarations are not taken yet
  induction hn : remaining.length generalizing remaining waiting with
  | zero =>
    cases waiting with
    | nil => exact hnil remaining
    | cons id rest =>
      rw [List.length_eq_zero_iff.mp hn] at h
      exact absurd (h.remains id List.mem_cons_self) List.not_mem_nil
  | succ n ih =>
    cases waiting with
    | nil => exact hnil remaining
    | cons id rest =>
      have hmem : id ∈ remaining := h.remains id List.mem_cons_self
      apply hcons remaining id rest h
      apply ih (hr.erase id) (h.step ht hr)
      rw [List.length_erase_of_mem hmem]
      omega

theorem breadthFirst_nil (next : Nat → List Nat) (remaining : List Nat) :
    breadthFirst next remaining [] = [] := by
  rw [breadthFirst]
  rfl

/-- The search takes what waits first. -/
theorem Queues.breadthFirst_cons {remaining rest : List DeclId}
    (h : t.Queues remaining (id :: rest)) :
    breadthFirst t.openNested remaining (id :: rest) =
      id :: breadthFirst t.openNested (remaining.erase id) (rest ++ t.openNested id) :=
  breadthFirst_cons_of_mem (h.remains id List.mem_cons_self)

/-- A step takes the first declaration and puts it down unless the compiler wrote it. -/
theorem walk_step (t : Table) (found : Candidates) (id : DeclId) (rest : List DeclId) :
    Walk.step t ⟨found, id :: rest⟩ =
      ⟨([id].filter (!t.isGenerated ·)).foldl (Candidates.put t) found,
        rest ++ t.openNested id⟩ := by
  unfold Walk.step openNested
  cases hg : t.isGenerated id
  · simp [hg]
  · simp [hg]

/-- The walk puts down what the search finds, and then nothing waits any more. -/
theorem Queues.iterate_step (ht : t.HasTrees) {remaining waiting : List DeclId}
    (hr : remaining.Nodup) (h : t.Queues remaining waiting) (found : Candidates) :
    (Walk.step t)^[(breadthFirst t.openNested remaining waiting).length] ⟨found, waiting⟩ =
      ⟨((breadthFirst t.openNested remaining waiting).filter (!t.isGenerated ·)).foldl
        (Candidates.put t) found, []⟩ := by
  refine h.run ht (P := fun remaining waiting => ∀ found : Candidates,
    (Walk.step t)^[(breadthFirst t.openNested remaining waiting).length] ⟨found, waiting⟩ =
      ⟨((breadthFirst t.openNested remaining waiting).filter (!t.isGenerated ·)).foldl
        (Candidates.put t) found, []⟩) ?_ ?_ hr found
  · intro remaining found
    rw [breadthFirst_nil]
    rfl
  · intro remaining id rest h ih found
    have hsplit : ∀ ids : List DeclId, id :: ids = [id] ++ ids := fun _ => rfl
    rw [h.breadthFirst_cons, List.length_cons, Function.iterate_succ_apply, walk_step, ih,
      hsplit (breadthFirst _ _ _), List.filter_append, List.foldl_append]

/-! ## Positions -/

/-- Where a declaration stands: its number among the roots, or the position of the declaration that
    it is nested in and its number there. -/
inductive StandsAt (t : Table) : DeclId → List Nat → Prop where
  | root {id : DeclId} {i : Nat} : t.roots[i]? = some id → StandsAt t id [i]
  | nested {outer id : DeclId} {pos : List Nat} {i : Nat} : StandsAt t outer pos →
      (t.nestedOf outer)[i]? = some id → StandsAt t id (pos ++ [i])

/-- Positions are compared by their length first, that is by how deep the declarations are nested.
    At one depth the order is that of the declarations around, and in one declaration that of its
    members. -/
def Precedes (t : Table) (id id' : DeclId) : Prop :=
  ∀ pos pos', t.StandsAt id pos → t.StandsAt id' pos' → List.Shortlex (· < ·) pos pos'

theorem IsSubject.exists_standsAt (h : t.IsSubject id) : ∃ pos, t.StandsAt id pos := by
  induction h with
  | root hr _ =>
    obtain ⟨i, hi⟩ := List.mem_iff_getElem?.mp hr
    exact ⟨[i], .root hi⟩
  | nested _ hn _ ih =>
    obtain ⟨pos, hpos⟩ := ih
    obtain ⟨i, hi⟩ := List.mem_iff_getElem?.mp hn
    exact ⟨pos ++ [i], .nested hpos hi⟩

theorem eq_of_getElem?_eq {ids : List DeclId} (h : ids.Nodup) {i j : Nat}
    (hi : ids[i]? = some id) (hj : ids[j]? = some id) : i = j := by
  obtain ⟨hlt, _⟩ := List.getElem?_eq_some_iff.mp hi
  exact (List.getElem?_inj hlt h).mp (hi.trans hj.symm)

/-- A nested declaration stands below the one that it is nested in. -/
theorem StandsAt.of_mem_nestedOf (ht : t.HasTrees) {outer : DeclId} {pos : List Nat}
    (h : t.StandsAt id pos) (hid : id ∈ t.nestedOf outer) :
    ∃ above i, pos = above ++ [i] ∧ t.StandsAt outer above ∧
      (t.nestedOf outer)[i]? = some id := by
  cases h with
  | root hi => exact absurd (List.mem_of_getElem? hi) (ht.not_root outer id hid)
  | @nested outer' _ above i habove hi =>
    obtain rfl := ht.outer_eq id outer outer' hid (List.mem_of_getElem? hi)
    exact ⟨above, i, rfl, habove, hi⟩

/-- A declaration has one position. -/
theorem StandsAt.unique (ht : t.HasTrees) {pos pos' : List Nat} (h : t.StandsAt id pos)
    (h' : t.StandsAt id pos') : pos = pos' := by
  -- on the first position; the second one ends as it does, since the declarations are trees
  induction h generalizing pos' with
  | @root id i hi =>
    cases h' with
    | root hj => rw [eq_of_getElem?_eq ht.nodup_roots hi hj]
    | @nested outer _ _ _ _ hj =>
      exact absurd (List.mem_of_getElem? hi) (ht.not_root outer id (List.mem_of_getElem? hj))
  | @nested outer id above i _ hi ih =>
    obtain ⟨above', j, rfl, habove', hj⟩ := h'.of_mem_nestedOf ht (List.mem_of_getElem? hi)
    rw [ih habove', eq_of_getElem?_eq (ht.nodup_nested outer) hi hj]

/-! ## The order of the walk -/

/-- What stands below an earlier position stands before what stands below a later one. -/
theorem shortlex_concat {pos pos' : List Nat} (h : List.Shortlex (· < ·) pos pos') (i j : Nat) :
    List.Shortlex (· < ·) (pos ++ [i]) (pos' ++ [j]) := by
  rcases List.shortlex_def.mp h with hlt | ⟨heq, hlex⟩
  · apply List.Shortlex.of_length_lt
    simpa using hlt
  · apply List.Shortlex.of_lex (by simpa using heq)
    -- the first difference is not behind the end of either
    clear h
    induction hlex with
    | nil => cases heq
    | cons _ ih => exact .cons (ih (by simpa using heq))
    | rel hrel => exact .rel hrel

/-- The members of one declaration, and the roots, are in their order. -/
theorem pairwise_getElem {ids : List DeclId} (h : ids.Nodup) :
    ids.Pairwise fun id id' => ∀ i j : Nat, ids[i]? = some id → ids[j]? = some id' → i < j := by
  rw [List.pairwise_iff_getElem]
  intro i j hi hj hlt i' j' hi' hj'
  rw [eq_of_getElem?_eq h hi' (List.getElem?_eq_getElem hi),
    eq_of_getElem?_eq h hj' (List.getElem?_eq_getElem hj)]
  exact hlt

/-- What was taken and what waits is in order, and nothing of it comes behind what is nested in a
    declaration that waits. -/
structure InOrder (t : Table) (taken waiting : List DeclId) : Prop where
  pairwise : (taken ++ waiting).Pairwise t.Precedes
  below : ∀ x ∈ taken ++ waiting, ∀ y ∈ waiting, ∀ z ∈ t.openNested y, t.Precedes x z

theorem HasTrees.inOrder_roots (ht : t.HasTrees) : t.InOrder [] t.roots where
  pairwise := by
    rw [List.nil_append]
    apply (pairwise_getElem ht.nodup_roots).imp_of_mem
    intro x y hx hy hlt pos pos' hpos hpos'
    obtain ⟨i, hi⟩ := List.mem_iff_getElem?.mp hx
    obtain ⟨j, hj⟩ := List.mem_iff_getElem?.mp hy
    rw [hpos.unique ht (.root hi), hpos'.unique ht (.root hj), List.shortlex_singleton_iff]
    exact hlt i j hi hj
  below := by
    intro x hx y hy z hz pos pos' hpos hpos'
    rw [List.nil_append] at hx
    obtain ⟨i, hi⟩ := List.mem_iff_getElem?.mp hx
    obtain ⟨j, hj⟩ := List.mem_iff_getElem?.mp hy
    -- what is nested in a root stands deeper than any root
    obtain ⟨above, k, rfl, habove, _⟩ := hpos'.of_mem_nestedOf ht (mem_openNested.mp hz).2
    apply List.Shortlex.of_length_lt
    rw [hpos.unique ht (.root hi), habove.unique ht (.root hj)]
    simp

/-- One step keeps the order: what is nested in the declaration that is taken comes behind all that
    waits, and in front of all that is nested in what waits. -/
theorem InOrder.step (ht : t.HasTrees) {taken rest : List DeclId}
    (h : t.InOrder taken (id :: rest)) :
    t.InOrder (taken ++ [id]) (rest ++ t.openNested id) := by
  have hsame : (taken ++ [id]) ++ (rest ++ t.openNested id) =
      (taken ++ id :: rest) ++ t.openNested id := by simp
  constructor
  · rw [hsame, List.pairwise_append]
    refine ⟨h.pairwise, ?_, fun x hx z hz => h.below x hx id List.mem_cons_self z hz⟩
    unfold openNested
    cases t.isGenerated id
    · apply (pairwise_getElem (ht.nodup_nested id)).imp_of_mem
      intro x y hx hy hlt pos pos' hpos hpos'
      obtain ⟨above, i, rfl, habove, hi⟩ := hpos.of_mem_nestedOf ht hx
      obtain ⟨above', j, rfl, habove', hj⟩ := hpos'.of_mem_nestedOf ht hy
      -- both positions are that of the declaration that is taken, but for the last number
      rw [habove.unique ht habove']
      apply List.Shortlex.append_left
      rw [List.shortlex_singleton_iff]
      exact hlt i j hi hj
    · exact List.Pairwise.nil
  · rw [hsame]
    intro x hx y hy z hz pos pos' hpos hpos'
    obtain ⟨above, k, rfl, habove, _⟩ := hpos'.of_mem_nestedOf ht (mem_openNested.mp hz).2
    rcases List.mem_append.mp hx with hx | hx
    · rcases List.mem_append.mp hy with hy | hy
      · exact h.below x hx y (List.mem_cons_of_mem _ hy) z hz pos _ hpos hpos'
      · -- two levels below the declaration that is taken
        have hprecedes := h.below x hx id List.mem_cons_self y hy pos above hpos habove
        exact hprecedes.append_right [k]
    · obtain ⟨up, i, rfl, hup, _⟩ := hpos.of_mem_nestedOf ht (mem_openNested.mp hx).2
      rcases List.mem_append.mp hy with hy | hy
      · -- the declaration that is taken comes before the one that waits
        have hhead := (List.pairwise_append.mp h.pairwise).2.1
        exact shortlex_concat (List.rel_of_pairwise_cons hhead hy up above hup habove) i k
      · -- one level below those that are nested in the declaration that is taken
        obtain ⟨up', j, rfl, hup', _⟩ := habove.of_mem_nestedOf ht (mem_openNested.mp hy).2
        apply List.Shortlex.of_length_lt
        rw [hup.unique ht hup']
        simp

/-- The search finds the declarations in order. -/
theorem Queues.pairwise_breadthFirst (ht : t.HasTrees) {remaining taken waiting : List DeclId}
    (hr : remaining.Nodup) (h : t.Queues remaining waiting) (ho : t.InOrder taken waiting) :
    (taken ++ breadthFirst t.openNested remaining waiting).Pairwise t.Precedes := by
  refine h.run ht (P := fun remaining waiting => ∀ taken, t.InOrder taken waiting →
    (taken ++ breadthFirst t.openNested remaining waiting).Pairwise t.Precedes) ?_ ?_ hr taken ho
  · intro remaining taken ho
    rw [breadthFirst_nil]
    exact ho.pairwise
  · intro remaining id rest h ih taken ho
    rw [h.breadthFirst_cons, List.append_cons]
    exact ih _ (ho.step ht)

/-! ## The candidates -/

theorem ofKind_candidates (t : Table) (kind : DeclKind) :
    t.candidates.ofKind kind = t.visited.filter (t.isKind · kind) := by
  cases kind <;> rfl

theorem HasTrees.lt_size (ht : t.HasTrees) (h : t.IsSubject id) : id < t.size := by
  cases h with
  | root hr _ => exact ht.root_lt id hr
  | @nested outer _ _ hn _ => exact ht.nested_lt outer id hn

/-- The walk ends, whatever the declarations are, with the candidates. -/
theorem HasTrees.walk_ends (ht : t.HasTrees) :
    ∃ n ≤ t.size, (Walk.step t)^[n] (Walk.start t) = ⟨t.candidates, []⟩ := by
  have hrange : (List.range t.size).Nodup := List.nodup_range
  have hsub : ∀ id ∈ breadthFirst t.openNested (List.range t.size) t.roots,
      id ∈ List.range t.size := fun id hid => (mem_breadthFirst.mp hid).remains
  -- the search takes each declaration once, so it does not take more than the table has
  have hle := (List.subperm_of_subset (nodup_breadthFirst hrange) hsub).length_le
  rw [List.length_range] at hle
  refine ⟨_, hle, ?_⟩
  rw [Walk.start, ht.queues_roots.iterate_step ht hrange, foldl_put]
  rfl

theorem HasTrees.pairwise_visited (ht : t.HasTrees) : t.visited.Pairwise t.Precedes := by
  have horder := ht.queues_roots.pairwise_breadthFirst ht List.nodup_range ht.inOrder_roots
  exact List.Pairwise.filter _ horder

/-- What the walk over the declarations of a table comes to. -/
structure WalksTo (t : Table) (c : Candidates) : Prop where
  /-- It takes each declaration at most once, and then nothing waits any more. -/
  ends : ∃ n ≤ t.size, (Walk.step t)^[n] (Walk.start t) = ⟨c, []⟩
  /-- It finds the roots and what is nested in them, as far as the compiler wrote neither the
      declaration nor one around it. -/
  mem_iff : ∀ id, id ∈ c.all ↔ t.IsSubject id
  once : c.all.Nodup
  mem_ofKind : ∀ kind id, id ∈ c.ofKind kind ↔ t.IsSubject id ∧ t.isKind id kind = true
  position : ∀ id ∈ c.all, ∃! pos, t.StandsAt id pos
  inOrder : ∀ kind, (c.ofKind kind).Pairwise t.Precedes

theorem HasTrees.walksTo_candidates (ht : t.HasTrees) : t.WalksTo t.candidates where
  ends := ht.walk_ends
  mem_iff := by
    intro id
    rw [mem_all_candidates]
    exact and_iff_left_of_imp ht.lt_size
  once := nodup_all_candidates
  mem_ofKind := by
    intro kind id
    rw [ofKind_candidates]
    exact mem_filter_visited
  position := by
    intro id hid
    obtain ⟨pos, hpos⟩ := (mem_all_candidates.mp hid).1.exists_standsAt
    exact ⟨pos, hpos, fun pos' hpos' => hpos'.unique ht hpos⟩
  inOrder := by
    intro kind
    rw [ofKind_candidates]
    exact ht.pairwise_visited.filter _

/-- A subject stands in a root unit, as the root does that it is nested in. -/
theorem IsSubject.exists_place {units : List SourceUnit} (h : (build units).1.IsSubject id) :
    ∃ p, (enteredPlaces units)[id]? = some p ∧ p.unit.isRoot = true := by
  induction h with
  | root hr _ =>
    obtain ⟨p, hp, hroot⟩ := mem_roots_build.mp hr
    rw [DeclPlace.isRoot, Bool.and_eq_true] at hroot
    exact ⟨p, hp, hroot.2⟩
  | nested _ hn _ ih =>
    obtain ⟨p, hp, hroot⟩ := ih
    obtain ⟨o, ho, hid⟩ := mem_nestedOf.mp hn
    obtain ⟨o', ho', hgives⟩ := exists_gives_of_getElem? hp
    obtain rfl := Option.some.inj (ho.symm.trans ho')
    obtain ⟨q, hq, hinner⟩ := (mem_nested_iff hp hgives).mp hid
    exact ⟨q, hq, (of_nested_mem_placeMembers hinner).1 ▸ hroot⟩

/-- In a round all that is new is in the files from the first new one on. -/
theorem IsSubject.exists_file {files : List Build.ParsedFile} {firstNew : FileId}
    (h : (build (Build.unitsOf files firstNew)).1.IsSubject id) :
    ∃ d, (build (Build.unitsOf files firstNew)).1.get? id = some d ∧
      firstNew ≤ d.location.file := by
  obtain ⟨p, hp, _⟩ := h.exists_place
  obtain ⟨d, hd, _⟩ := exists_gives_of_getElem? hp
  obtain ⟨u, hu, hroot, _, _, _, _, _, _, hlocation⟩ := declares_of_isSubject hd h
  obtain ⟨f, _, rfl⟩ := List.mem_map.mp hu
  -- the roots among the units are those of the new files
  refine ⟨d, hd, ?_⟩
  rw [hlocation]
  simpa using hroot

end Table

/-- The walk over the table of a build ends without having kept account of what it visited.  It
    finds the declarations that the round is about, each once and under its kind, in the order of
    their positions.  All of them stand in root units, so in a round of a build none stands in a
    file of the library or of an earlier round. -/
theorem walk_of_build (units : List SourceUnit) :
    let t := (Table.build units).1
    t.WalksTo t.candidates ∧
      (∀ id ∈ t.candidates.all, ∃ p, (enteredPlaces units)[id]? = some p ∧
        p.unit.isRoot = true) ∧
      ∀ files firstNew, let t := (Table.build (Build.unitsOf files firstNew)).1
        ∀ id ∈ t.candidates.all, ∃ d, t.get? id = some d ∧ firstNew ≤ d.location.file := by
  refine ⟨(Table.hasTrees_build units).walksTo_candidates, ?_, ?_⟩
  · intro id hid
    exact (Table.mem_all_candidates.mp hid).1.exists_place
  · intro files firstNew t id hid
    exact (Table.mem_all_candidates.mp hid).1.exists_file

end ActorIdl
