import ActorIdl.Proofs.Declaration.Subject
/-! # What is above a declaration

    A step leads from a declaration to the name of a type directly above it.  It goes on from there
    if the name is declared; a name that is declared nowhere is the end of the way.  Whether a type
    is above a declaration is asked of names, but the search is over the declarations on the way, so
    it comes to an end whatever the hierarchy looks like.

    The role of a declaration is which of the two markers can be climbed to. -/

namespace ActorIdl.Table

variable {t : Table} {id : DeclId} {name : String}

/-! ## Steps and ways -/

/-- One step up, to the name of an interface or, from a class, to that of its superclass. -/
inductive StepsUp (t : Table) (id : DeclId) : String → Prop where
  | interface {d : Declaration} {type : TypeRef} : t.get? id = some d → type ∈ d.interfaces →
      StepsUp t id type.name
  | superclass {d : Declaration} {type : TypeRef} : t.get? id = some d → d.kind = .classType →
      d.superclass = some type → StepsUp t id type.name

/-- One step up or several.  A name is only passed through if it is declared. -/
inductive Climbs (t : Table) : DeclId → String → Prop where
  | step {id : DeclId} {name : String} : StepsUp t id name → Climbs t id name
  | through {id next : DeclId} {between name : String} : StepsUp t id between →
      t.lookup between = some next → Climbs t next name → Climbs t id name

theorem mem_supertypeNames : name ∈ t.supertypeNames id ↔ t.StepsUp id name := by
  unfold supertypeNames
  constructor
  · intro h
    cases hd : t.get? id with
    | none => simp [hd] at h
    | some d =>
      rw [hd, Option.map_some, Option.getD_some] at h
      -- an interface, or the superclass of a class
      rcases List.mem_append.mp h with h | h
      · obtain ⟨type, htype, rfl⟩ := List.mem_map.mp h
        exact .interface hd htype
      · split at h
        · rename_i hclass
          obtain ⟨type, htype, rfl⟩ := List.mem_map.mp h
          exact .superclass hd hclass (Option.mem_toList.mp htype)
        · cases h
  · rintro (⟨hd, htype⟩ | ⟨hd, hclass, htype⟩)
    · rw [hd, Option.map_some, Option.getD_some]
      exact List.mem_append_left _ (List.mem_map_of_mem htype)
    · rw [hd, Option.map_some, Option.getD_some]
      refine List.mem_append_right _ ?_
      rw [if_pos hclass, htype]
      exact List.mem_singleton_self _

theorem Climbs.lt_size (h : t.Climbs id name) : id < t.size := by
  have hstep : ∀ {between}, t.StepsUp id between → id < t.size := by
    rintro _ (⟨hd, _⟩ | ⟨hd, _, _⟩)
    · exact lt_size_of_get? hd
    · exact lt_size_of_get? hd
  cases h with
  | step h => exact hstep h
  | through h _ _ => exact hstep h

/-! ## The search over the declarations above -/

/-- What is above a declaration of the ancestry is above the declaration that it is taken of. -/
theorem climbs_of_linked {above : DeclId}
    (h : Linked t.supertypes (List.range t.size) [id] above) (hname : t.Climbs above name) :
    t.Climbs id name := by
  -- on the way to the declaration above: its last step is put in front of the way that goes on
  induction h with
  | start hid _ =>
    rw [List.mem_singleton] at hid
    exact hid ▸ hname
  | step _ hnext _ ih =>
    obtain ⟨between, hbetween, hlookup⟩ := List.mem_filterMap.mp hnext
    exact ih (.through (mem_supertypeNames.mp hbetween) hlookup hname)

/-- The last step of a way up is made from a declaration of the ancestry. -/
theorem exists_linked_of_climbs (h : t.Climbs id name) {start : DeclId}
    (hid : Linked t.supertypes (List.range t.size) [start] id) :
    ∃ above, Linked t.supertypes (List.range t.size) [start] above ∧ t.StepsUp above name := by
  induction h with
  | step h => exact ⟨_, hid, h⟩
  | through hbetween hlookup _ ih =>
    refine ih (.step hid ?_ (List.mem_range.mpr (lt_size_of_lookup hlookup)))
    exact List.mem_filterMap.mpr ⟨_, mem_supertypeNames.mpr hbetween, hlookup⟩

theorem reaches_iff : t.reaches id name = true ↔ t.Climbs id name := by
  unfold reaches ancestry
  rw [List.any_eq_true]
  constructor
  · rintro ⟨above, habove, hname⟩
    rw [List.contains_iff_mem] at hname
    exact climbs_of_linked (mem_breadthFirst.mp habove) (.step (mem_supertypeNames.mp hname))
  · intro h
    have hid : Linked t.supertypes (List.range t.size) [id] id :=
      .start (List.mem_singleton_self _) (List.mem_range.mpr h.lt_size)
    obtain ⟨above, habove, hname⟩ := exists_linked_of_climbs h hid
    refine ⟨above, mem_breadthFirst.mpr habove, ?_⟩
    rw [List.contains_iff_mem]
    exact mem_supertypeNames.mpr hname

/-- Whatever the hierarchy looks like, the search says whether one can climb from a declaration to
    a name, and the role of the declaration says which of the two markers one can climb to.  The
    actor marker counts first. -/
theorem role_iff_climbs (t : Table) (id : DeclId) :
    (∀ name, t.reaches id name = true ↔ t.Climbs id name) ∧
      (t.role id = .actor ↔ t.Climbs id Library.actor) ∧
      (t.role id = .observer ↔
        t.Climbs id Library.actorObserver ∧ ¬ t.Climbs id Library.actor) ∧
      (t.role id = .neither ↔
        ¬ t.Climbs id Library.actor ∧ ¬ t.Climbs id Library.actorObserver) := by
  refine ⟨fun name => reaches_iff, ?_⟩
  rw [← reaches_iff, ← reaches_iff]
  unfold role
  cases t.reaches id Library.actor
  · cases t.reaches id Library.actorObserver
    · simp
    · simp
  · simp

end ActorIdl.Table
