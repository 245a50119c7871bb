import ActorIdl.Proofs.Declaration.Resolution
import ActorIdl.Proofs.Text.Joining
/-! # Names with dots

    A declaration of a parsed source has a simple name that is an identifier, and a qualified name
    that is a dotted name: words with dots between them, the first of which is not reserved.  Of a
    package hint, which is taken as it is, this has to be required.  Whatever hints there are, the
    part of a qualified name after its last dot is an identifier. -/

namespace ActorIdl

open Text

/-! ## Dotted names -/

/-- An identifier, and words after it with dots in front of them. -/
def IsDotted (s : String) : Prop :=
  ∃ head tail, IsIdent head ∧ (∀ w ∈ tail, IsWord w) ∧ s = joinWith "." (head :: tail)

theorem IsIdent.isDotted {s : String} (h : IsIdent s) : IsDotted s :=
  ⟨s, [], h, fun _ hw => absurd hw List.not_mem_nil, rfl⟩

theorem IsDotted.dot {p s : String} (hp : IsDotted p) (hs : IsWord s) :
    IsDotted (p ++ "." ++ s) := by
  obtain ⟨head, tail, hhead, htail, rfl⟩ := hp
  refine ⟨head, tail ++ [s], hhead, ?_, (joinWith_cons_append "." head tail s).symm⟩
  exact List.forall_mem_append.mpr ⟨htail, fun w hw => List.mem_singleton.mp hw ▸ hs⟩

theorem Syntax.QualifiedName.WellNamed.isDotted {q : Syntax.QualifiedName} (h : q.WellNamed) :
    IsDotted q.dotted := by
  refine ⟨q.head.text, q.tail.map (·.text), h.head, fun w hw => ?_, rfl⟩
  obtain ⟨n, hn, rfl⟩ := List.mem_map.mp hw
  exact h.tail n hn

/-- There is no other character in a dotted name. -/
theorem IsDotted.forall_mem {s : String} (h : IsDotted s) :
    ∀ c ∈ s.toList, c = '.' ∨ Lexer.isIdentRest c = true := by
  obtain ⟨head, tail, hhead, htail, rfl⟩ := h
  -- later words can be reserved, so only this much of the head goes on in the induction
  have hword : IsWord head := hhead.1
  clear hhead
  induction tail generalizing head with
  | nil => exact fun c hc => .inr (hword.isIdentRest c hc)
  | cons t tail ih =>
    obtain ⟨ht, htail⟩ := List.forall_mem_cons.mp htail
    intro c hc
    rw [joinWith, String.toList_append, String.toList_append, List.mem_append,
      List.mem_append] at hc
    rcases hc with (hc | hc) | hc
    · exact .inr (hword.isIdentRest c hc)
    · exact .inl (List.mem_singleton.mp hc)
    · exact ih t htail ht c hc

/-! ## Names of declarations -/

/-- The hint of a unit that names no package itself is a dotted name. -/
def SourceUnit.HasDottedHint (u : SourceUnit) : Prop :=
  u.unit.package = none → ∀ hint ∈ u.packageHint, IsDotted hint

theorem SourceUnit.isDotted_package {u : SourceUnit} (hu : u.unit.WellNamed)
    (hint : u.HasDottedHint) : u.package = "" ∨ IsDotted u.package := by
  unfold SourceUnit.package
  cases hp : u.unit.package with
  | some q => exact .inr (hu.package q hp).isDotted
  | none =>
    cases hh : u.packageHint with
    | some h => exact .inr (hint hp h hh)
    | none => exact .inl rfl

theorem isDotted_qualify {package simple : String} (hp : package = "" ∨ IsDotted package)
    (hs : IsIdent simple) : IsDotted (qualify package simple) := by
  unfold qualify
  split
  · exact hs.isDotted
  · rename_i hne
    exact (hp.resolve_left hne).dot hs.1

theorem isDotted_qualifiedNameIn {package simple : String} {outers : List Outer}
    (hp : package = "" ∨ IsDotted package) (hs : IsIdent simple)
    (ho : ∀ o ∈ outers, IsDotted o.qualifiedName) :
    IsDotted (qualifiedNameIn package outers simple) := by
  cases outers with
  | nil => exact isDotted_qualify hp hs
  | cons o os => exact (ho o List.mem_cons_self).dot hs.1

theorem Entry.Fits.isDotted {u : SourceUnit} {e : Entry} (h : e.Fits u)
    (hp : u.package = "" ∨ IsDotted u.package) (he : e.WellNamed) : IsDotted e.qualifiedName :=
  h.of_qualifiedNameIn (fun _ _ ho hs => isDotted_qualifiedNameIn hp hs ho) he

/-! ## Reserved words -/

/-- What stands after the last dot of a text is determined by the text. -/
theorem eq_of_append_dot_eq {p s q t : String} (hs : '.' ∉ s.toList) (ht : '.' ∉ t.toList)
    (h : p ++ "." ++ s = q ++ "." ++ t) : s = t := by
  have hchars := congrArg (fun r : String => r.toList.reverse) h
  have hsplit : s.toList.reverse ++ '.' :: p.toList.reverse =
      t.toList.reverse ++ '.' :: q.toList.reverse := by
    simpa using hchars
  obtain ⟨hrev, _⟩ := append_cons_inj (by simpa using hs) (by simpa using ht) hsplit
  exact String.toList_inj.mp (List.reverse_injective hrev)

/-- No declaration has a reserved word after the last dot of its name. -/
theorem Entry.Fits.ne_reserved {u : SourceUnit} {e : Entry} (h : e.Fits u) (he : e.WellNamed)
    (p : String) (k : Keyword) : e.qualifiedName ≠ p ++ "." ++ k.text := by
  have hsimple : IsIdent e.simpleName := he.head.name
  have hdot : '.' ∉ e.simpleName.toList := hsimple.1.not_mem (by decide)
  have hlast : ∀ q, q ++ "." ++ e.simpleName ≠ p ++ "." ++ k.text := by
    intro q heq
    have hk := hsimple.2
    rw [eq_of_append_dot_eq hdot (k.isWord.not_mem (by decide)) heq, k.ofText?_text] at hk
    cases hk
  rw [h.qualifiedName]
  unfold qualifiedNameIn
  split
  · unfold qualify
    split
    · -- in the unnamed package the name has no dot at all
      intro heq
      rw [heq] at hdot
      simp at hdot
    · exact hlast _
  · exact hlast _

namespace Scope

variable {s : Scope} {n : Syntax.Name}

theorem below?_eq_none (hn : ∀ p, s.declares (p ++ "." ++ n.text) = false) {name : String}
    {tail : List Syntax.Name} (hmem : n ∈ tail) : s.below? name tail = none := by
  induction tail generalizing name with
  | nil => cases hmem
  | cons m ms ih =>
    rw [below?]
    rcases List.mem_cons.mp hmem with rfl | hmem
    · rw [if_neg (Bool.not_eq_true _ ▸ hn name)]
    · rw [ih hmem, ite_self]

/-- A reference with a segment that no declared name ends in is kept as written. -/
theorem resolve_eq_dotted {q : Syntax.QualifiedName} (hn : ∀ p, s.declares (p ++ "." ++ n.text) = false)
    (hmem : n ∈ q.tail) : s.resolve q = q.dotted := by
  have htail : q.tail.isEmpty = false := by
    rw [List.isEmpty_eq_false_iff]
    exact List.ne_nil_of_mem hmem
  have hnone : (s.head? q.head.text).bind (fun found => s.below? found q.tail) = none :=
    Option.bind_eq_none_iff.mpr fun found _ => below?_eq_none hn hmem
  unfold resolve
  rw [htail, Bool.false_and, if_neg (by decide), hnone, Option.getD_none]

end Scope

end ActorIdl
