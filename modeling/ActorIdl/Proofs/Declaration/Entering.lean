import ActorIdl.Proofs.Declaration.Places
/-! # The pass that enters declarations

    The table is made by one pass down the trees of the units that numbers what it enters, reports
    what it refuses and hands the names around a declaration on to its members.  What comes of the
    pass can be said place by place.  The entries are those of the entered places, in their order.
    An entered place has a report if there is a surplus type above it, a place that is refused for
    its name has one about the name, and a place in one that is left out has none. -/

namespace ActorIdl

/-! ## The entry of a place -/

/-- The declarations around a place, by their numbers among the entered ones. -/
def outersIn (entered : List DeclPlace) (package : String) : List (Nat × String) → List Outer
  | [] => []
  | o :: os =>
    ⟨(numbers entered).idxOf o.1, o.2, nameWithin "." package (os.map (·.2)) o.2,
      nameWithin "$" package (os.map (·.2)) o.2⟩ :: outersIn entered package os

/-- What a member is in the table: a method as it is, a declaration by its number if it is
    entered. -/
def PlacedMember.enteredIn (entered : List DeclPlace) : PlacedMember → Option EnteredMember
  | .method m => some (.method m)
  | .nested p =>
    if p.number ∈ numbers entered then some (.type ((numbers entered).idxOf p.number)) else none

/-- The register in which places are entered. -/
def registerOf (entered : List DeclPlace) : Register := .of (entered.map (·.qualifiedName))

theorem mem_registerOf {entered : List DeclPlace} {name : String} :
    name ∈ registerOf entered ↔ name ∈ entered.map (·.qualifiedName) := Register.mem_of

theorem registerOf_concat (entered : List DeclPlace) (p : DeclPlace) :
    registerOf (entered ++ [p]) = (registerOf entered).enter p.qualifiedName := by
  rw [registerOf, List.map_append, List.map_singleton, ← Register.enter_of]
  rfl

theorem next_registerOf (entered : List DeclPlace) : (registerOf entered).next = entered.length :=
  (Register.next_of _).trans (List.length_map _)

namespace DeclPlace

/-- The entry of a place that is one of those entered. -/
def entryIn (entered : List DeclPlace) (p : DeclPlace) : Entry where
  id := (numbers entered).idxOf p.number
  head := p.head
  qualifiedName := p.qualifiedName
  binaryName := p.binaryName
  package := p.unit.package
  outers := outersIn entered p.unit.package p.outers
  members := p.inner.filterMap (·.enteredIn entered)
  file := p.unit.file
  imports := p.unit.unit.imports

/-- The types above a declaration that its kind has no room for: a class extends one type, and
    nothing else implements types. -/
def surplusTypes (p : DeclPlace) : List Syntax.TypeExpr :=
  if p.head.kind = .classType then p.head.extended.drop 1 else p.head.implemented

/-- What is wrong with a declaration that has surplus types. -/
def surplusCause (p : DeclPlace) : Cause :=
  if p.head.kind = .classType then .secondSuperclass p.qualifiedName
  else .implementsClause p.qualifiedName

/-- What is reported of a place: its first surplus type if it is entered, and its name if it is
    open and yet not entered. -/
def reportsIn (entered : List DeclPlace) (p : DeclPlace) : List Diagnostic :=
  if p.number ∈ numbers entered then
    (p.surplusTypes.take 1).map fun type =>
      ⟨p.surplusCause, some ⟨p.unit.file, type.span⟩, some p.qualifiedName⟩
  else if p.IsOpenIn entered then
    [⟨.duplicateDeclaration p.qualifiedName, some ⟨p.unit.file, p.head.name.span⟩,
      some p.qualifiedName⟩]
  else []

end DeclPlace

theorem qualifiedNameIn_outersIn (entered : List DeclPlace) (package : String)
    (os : List (Nat × String)) (simple : String) :
    qualifiedNameIn package (outersIn entered package os) simple =
        nameWithin "." package (os.map (·.2)) simple ∧
      binaryNameIn package (outersIn entered package os) simple =
        nameWithin "$" package (os.map (·.2)) simple := by
  cases os with
  | nil => exact ⟨rfl, rfl⟩
  | cons o os => exact ⟨rfl, rfl⟩

/-- Places that are entered later do not change the numbers of those around a place. -/
theorem outersIn_append {entered : List DeclPlace} (later : List DeclPlace) (package : String)
    {os : List (Nat × String)} (h : ∀ o ∈ os, o.1 ∈ numbers entered) :
    outersIn (entered ++ later) package os = outersIn entered package os := by
  induction os with
  | nil => rfl
  | cons o os ih =>
    obtain ⟨ho, hos⟩ := List.forall_mem_cons.mp h
    rw [outersIn, outersIn, numbers_append, List.idxOf_append_of_mem ho, ih hos]

theorem not_mem_numbers_of_lt {entered : List DeclPlace} {n : Nat}
    (hlt : ∀ q ∈ entered, q.number < n) : n ∉ numbers entered := by
  intro hmem
  obtain ⟨q, hq, rfl⟩ := mem_numbers.mp hmem
  exact Nat.lt_irrefl _ (hlt q hq)

theorem idxOf_append_cons {entered : List DeclPlace} {p : DeclPlace}
    (h : p.number ∉ numbers entered) (later : List DeclPlace) :
    (numbers (entered ++ p :: later)).idxOf p.number = entered.length := by
  have hcons : numbers (p :: later) = p.number :: numbers later := rfl
  rw [numbers_append, List.idxOf_append_of_notMem h, hcons, List.idxOf_cons_self, Nat.add_zero,
    numbers, List.length_map]

/-! ## The pass at a place -/

theorem surplusSupertype?_eq (p : DeclPlace) :
    (surplusSupertype? p.qualifiedName p.head).toList.map (fun surplus =>
      (⟨surplus.1, some ⟨p.unit.file, surplus.2.span⟩, some p.qualifiedName⟩ : Diagnostic)) =
      (p.surplusTypes.take 1).map fun type =>
        ⟨p.surplusCause, some ⟨p.unit.file, type.span⟩, some p.qualifiedName⟩ := by
  unfold surplusSupertype? DeclPlace.surplusTypes DeclPlace.surplusCause
  cases p.head.kind
  · cases p.head.implemented <;> simp
  · match p.head.extended with
    | [] => simp
    | [_] => simp
    | _ :: _ :: _ => simp
  · cases p.head.implemented <;> simp

section
variable {entered : List DeclPlace} {p : DeclPlace}

theorem enterMember_of_mem (h : p.qualifiedName ∈ entered.map (·.qualifiedName)) :
    enterMember p.unit (outersIn entered p.unit.package p.outers) (registerOf entered)
        (.nested p.head p.members) =
      ⟨none, [], [⟨.duplicateDeclaration p.qualifiedName, some ⟨p.unit.file, p.head.name.span⟩,
        some p.qualifiedName⟩], registerOf entered⟩ := by
  have hname := (qualifiedNameIn_outersIn entered p.unit.package p.outers p.simpleName).1
  unfold enterMember
  dsimp only
  rw [if_pos]
  · rw [← DeclPlace.simpleName, hname]
    rfl
  · rw [← Register.mem_iff, ← DeclPlace.simpleName, hname]
    exact mem_registerOf.mpr h

theorem enterMember_of_not_mem (hlt : ∀ q ∈ entered, q.number < p.number)
    (houters : ∀ o ∈ p.outers, o.1 ∈ numbers entered)
    (h : p.qualifiedName ∉ entered.map (·.qualifiedName)) :
    let x := enterMembers p.unit
      (outersIn (entered ++ [p]) p.unit.package (p.asOuter :: p.outers))
      (registerOf (entered ++ [p])) p.members
    enterMember p.unit (outersIn entered p.unit.package p.outers) (registerOf entered)
        (.nested p.head p.members) =
      ⟨some (.type entered.length),
        ⟨entered.length, p.head, p.qualifiedName, p.binaryName, p.unit.package,
          outersIn entered p.unit.package p.outers, x.members, p.unit.file, p.unit.unit.imports⟩ ::
          x.entries,
        (p.surplusTypes.take 1).map (fun type =>
          ⟨p.surplusCause, some ⟨p.unit.file, type.span⟩, some p.qualifiedName⟩) ++
          x.reports, x.register⟩ := by
  intro x
  obtain ⟨hname, hbinary⟩ :=
    qualifiedNameIn_outersIn entered p.unit.package p.outers p.simpleName
  -- the declaration is the innermost of those around its members
  have houtersIn : outersIn (entered ++ [p]) p.unit.package (p.asOuter :: p.outers) =
      ⟨entered.length, p.simpleName, p.qualifiedName, p.binaryName⟩ ::
        outersIn entered p.unit.package p.outers := by
    rw [outersIn, outersIn_append _ _ houters, DeclPlace.asOuter,
      idxOf_append_cons (not_mem_numbers_of_lt hlt)]
    rfl
  have hx : x = enterMembers p.unit
      (⟨entered.length, p.simpleName, p.qualifiedName, p.binaryName⟩ ::
        outersIn entered p.unit.package p.outers)
      ((registerOf entered).enter p.qualifiedName) p.members := by
    rw [← houtersIn, ← registerOf_concat]
  -- its name is free, so it is entered
  rw [← surplusSupertype?_eq, hx]
  unfold enterMember
  dsimp only
  rw [← DeclPlace.simpleName, hname, hbinary, next_registerOf, if_neg]
  · rfl
  · exact mt mem_registerOf.mp h

end

/-! ## The pass over members -/

/-- From the entered places on, the pass over members enters what is added, makes its entries and
    reports what is wrong with the places in the members.  All this stays right whatever is entered
    later, from the number `stop` on. -/
structure Enters (entered added : List DeclPlace) (stop : Nat) (ps : List DeclPlace)
    (placed : List PlacedMember) (x : Entered (List EnteredMember)) : Prop where
  fold : ps.foldl enterPlace entered = entered ++ added
  subset : ∀ q ∈ added, q ∈ ps
  entries : ∀ later : List DeclPlace, (∀ q ∈ later, stop ≤ q.number) →
    x.entries = added.map (·.entryIn (entered ++ added ++ later))
  reports : ∀ later : List DeclPlace, (∀ q ∈ later, stop ≤ q.number) →
    x.reports = ps.flatMap (·.reportsIn (entered ++ added ++ later))
  members : ∀ later : List DeclPlace, (∀ q ∈ later, stop ≤ q.number) →
    x.members = placed.filterMap (·.enteredIn (entered ++ added ++ later))
  register : x.register = registerOf (entered ++ added)

namespace Enters

theorem nil (entered : List DeclPlace) (stop : Nat) :
    Enters entered [] stop [] [] ⟨[], [], [], registerOf entered⟩ where
  fold := (List.append_nil _).symm
  subset := fun _ hq => hq
  entries := fun _ _ => rfl
  reports := fun _ _ => rfl
  members := fun _ _ => rfl
  register := (List.append_nil entered).symm ▸ rfl

theorem method (entered : List DeclPlace) (stop : Nat) (m : Syntax.Method) :
    Enters entered [] stop [] [.method m] ⟨[.method m], [], [], registerOf entered⟩ where
  fold := (List.append_nil _).symm
  subset := fun _ hq => hq
  entries := fun _ _ => rfl
  reports := fun _ _ => rfl
  members := fun _ _ => rfl
  register := (List.append_nil entered).symm ▸ rfl

/-- One pass behind the other. -/
theorem append {entered first rest : List DeclPlace} {middle stop : Nat} {ps qs : List DeclPlace}
    {placed placed' : List PlacedMember} {x y : Entered (List EnteredMember)}
    (hx : Enters entered first middle ps placed x)
    (hy : Enters (entered ++ first) rest stop qs placed' y)
    (hqs : ∀ q ∈ qs, middle ≤ q.number) (hstop : middle ≤ stop) :
    Enters entered (first ++ rest) stop (ps ++ qs) (placed ++ placed')
      ⟨x.members ++ y.members, x.entries ++ y.entries, x.reports ++ y.reports, y.register⟩ := by
  -- what comes later than both comes later than the first
  have hlater : ∀ later : List DeclPlace, (∀ q ∈ later, stop ≤ q.number) →
      ∀ q ∈ rest ++ later, middle ≤ q.number := fun later hlater =>
    List.forall_mem_append.mpr ⟨fun q hq => hqs q (hy.subset q hq),
      fun q hq => Nat.le_trans hstop (hlater q hq)⟩
  constructor
  · -- the places are entered one list behind the other
    rw [List.foldl_append, hx.fold, hy.fold, List.append_assoc]
  · exact List.forall_mem_append.mpr ⟨fun q hq => List.mem_append_left _ (hx.subset q hq),
      fun q hq => List.mem_append_right _ (hy.subset q hq)⟩
  · -- for the first list the second one is among what comes later
    intro later h
    show x.entries ++ y.entries = _
    rw [List.map_append, hx.entries _ (hlater later h), hy.entries later h]
    simp only [List.append_assoc]
  · intro later h
    show x.reports ++ y.reports = _
    rw [List.flatMap_append, hx.reports _ (hlater later h), hy.reports later h]
    simp only [List.append_assoc]
  · intro later h
    show x.members ++ y.members = _
    rw [List.filterMap_append, hx.members _ (hlater later h), hy.members later h]
    simp only [List.append_assoc]
  · exact hy.register.trans (congrArg registerOf (List.append_assoc _ _ _))

end Enters

section
variable {u : SourceUnit} {entered : List DeclPlace} {p : DeclPlace}

/-- The pass at a declaration whose name is taken. -/
theorem Enters.refused {stop : Nat} {ps : List DeclPlace} (hopen : p.IsOpenIn entered)
    (hlt : ∀ q ∈ entered, q.number < p.number)
    (htaken : p.qualifiedName ∈ entered.map (·.qualifiedName)) (hstop : p.number < stop)
    (hps : ∀ q ∈ ps, p.number < q.number ∧ q.number < stop ∧
      ∃ o, q.outers.head? = some o ∧ p.number ≤ o.1 ∧ o.1 < stop) :
    Enters entered [] stop (p :: ps) [.nested p]
      ⟨[], [], [⟨.duplicateDeclaration p.qualifiedName, some ⟨p.unit.file, p.head.name.span⟩,
        some p.qualifiedName⟩], registerOf entered⟩ := by
  have hnone : ∀ later : List DeclPlace, (∀ q ∈ later, stop ≤ q.number) →
      ∀ n, p.number ≤ n → n < stop → n ∉ numbers (entered ++ [] ++ later) := by
    intro later hlater n hn hnstop hmem
    obtain ⟨q, hq, rfl⟩ := mem_numbers.mp hmem
    rw [List.append_nil] at hq
    rcases List.mem_append.mp hq with hq | hq
    · exact Nat.not_le_of_lt (hlt q hq) hn
    · exact Nat.not_le_of_lt hnstop (hlater q hq)
  -- what stands in the declaration has it or something in it around it
  have hclosed : ∀ later : List DeclPlace, (∀ q ∈ later, stop ≤ q.number) →
      ∀ q ∈ ps, ¬ q.IsOpenIn (entered ++ [] ++ later) := by
    intro later hlater q hq hqopen
    obtain ⟨_, _, o, ho, hle, hltstop⟩ := hps q hq
    exact hnone later hlater o.1 hle hltstop (hqopen o ho)
  have hself : enterPlace entered p = entered := by
    rw [enterPlace, if_neg]
    rintro ⟨_, hfree⟩
    obtain ⟨q, hq, heq⟩ := List.mem_map.mp htaken
    exact hfree q hq heq
  constructor
  · rw [List.foldl_cons, hself, List.append_nil]
    refine foldl_enterPlace_of_closed fun q hq => ?_
    simpa using hclosed [] (fun _ h => absurd h List.not_mem_nil) q hq
  · exact fun _ hq => absurd hq List.not_mem_nil
  · exact fun _ _ => rfl
  · intro later hlater
    have hrest : ps.flatMap (·.reportsIn (entered ++ [] ++ later)) = [] := by
      refine List.flatMap_eq_nil_iff.mpr fun q hq => ?_
      obtain ⟨hpq, hqstop, _⟩ := hps q hq
      rw [DeclPlace.reportsIn, if_neg (hnone later hlater _ (Nat.le_of_lt hpq) hqstop),
        if_neg (hclosed later hlater q hq)]
    have hstill : p.IsOpenIn (entered ++ [] ++ later) := by
      intro o ho
      rw [List.append_nil, numbers_append]
      exact List.mem_append_left _ (hopen o ho)
    rw [List.flatMap_cons, hrest, DeclPlace.reportsIn,
      if_neg (hnone later hlater _ (Nat.le_refl _) hstop), if_pos hstill, List.append_nil]
  · intro later hlater
    rw [List.filterMap_cons, PlacedMember.enteredIn,
      if_neg (hnone later hlater _ (Nat.le_refl _) hstop)]
    rfl
  · rw [List.append_nil]

/-- The pass at a declaration whose name is free, from the pass over its members. -/
theorem Enters.made {added : List DeclPlace} {stop : Nat} {ps : List DeclPlace}
    {x : Entered (List EnteredMember)} (hopen : p.IsOpenIn entered)
    (hlt : ∀ q ∈ entered, q.number < p.number) (houters : ∀ o ∈ p.outers, o.1 ∈ numbers entered)
    (hfree : p.qualifiedName ∉ entered.map (·.qualifiedName))
    (hx : Enters (entered ++ [p]) added stop ps p.inner x) :
    Enters entered (p :: added) stop (p :: ps) [.nested p]
      ⟨[.type entered.length],
        ⟨entered.length, p.head, p.qualifiedName, p.binaryName, p.unit.package,
          outersIn entered p.unit.package p.outers, x.members, p.unit.file, p.unit.unit.imports⟩ ::
          x.entries,
        (p.surplusTypes.take 1).map (fun type =>
          ⟨p.surplusCause, some ⟨p.unit.file, type.span⟩, some p.qualifiedName⟩) ++
          x.reports, x.register⟩ := by
  have hassoc : ∀ later : List DeclPlace,
      entered ++ p :: added ++ later = entered ++ [p] ++ added ++ later := by
    intro later
    simp only [List.append_assoc, List.cons_append, List.nil_append]
  have hmem : ∀ later : List DeclPlace, p.number ∈ numbers (entered ++ p :: added ++ later) := by
    intro later
    exact mem_numbers.mpr ⟨p, by simp, rfl⟩
  -- the declaration stands behind all that are entered, whatever comes later
  have hidx : ∀ later : List DeclPlace,
      (numbers (entered ++ p :: added ++ later)).idxOf p.number = entered.length := by
    intro later
    rw [List.append_assoc, List.cons_append]
    exact idxOf_append_cons (not_mem_numbers_of_lt hlt) _
  -- it is open and its name is free
  have hself : enterPlace entered p = entered ++ [p] := by
    rw [enterPlace, if_pos ⟨hopen, fun q hq heq => hfree (heq ▸ List.mem_map_of_mem hq)⟩]
  constructor
  · rw [List.foldl_cons, hself, hx.fold, List.append_assoc, List.singleton_append]
  · exact List.forall_mem_cons.mpr ⟨List.mem_cons_self,
      fun q hq => List.mem_cons_of_mem _ (hx.subset q hq)⟩
  · intro later hlater
    show (⟨_, _, _, _, _, _, x.members, _, _⟩ : Entry) :: x.entries = _
    rw [List.map_cons, hx.entries later hlater, hx.members later hlater, ← hassoc later]
    congr 1
    rw [DeclPlace.entryIn, hidx later, List.append_assoc, outersIn_append _ _ houters]
  · intro later hlater
    show _ ++ x.reports = _
    rw [List.flatMap_cons, hx.reports later hlater, ← hassoc later, DeclPlace.reportsIn,
      if_pos (hmem later)]
  · intro later hlater
    rw [List.filterMap_cons, PlacedMember.enteredIn, if_pos (hmem later), hidx later]
    rfl
  · exact hx.register.trans (congrArg registerOf (List.append_assoc _ _ _))

end

section
variable (u : SourceUnit)

mutual

theorem exists_enters_member (outers : List (Nat × String)) (next : Nat) (m : Syntax.Member)
    {entered : List DeclPlace} (hlt : ∀ q ∈ entered, q.number < next)
    (houters : ∀ o ∈ outers, o.1 ∈ numbers entered) :
    let x := enterMember u (outersIn entered u.package outers) (registerOf entered) m
    ∃ added, Enters entered added (next + m.declCount) (placesIn u outers next m)
      (placeMembers u outers next [m]) ⟨x.members.toList, x.entries, x.reports, x.register⟩ :=
  match m with
  | .method m => ⟨[], Enters.method _ _ m⟩
  | .nested head members => by
    let p : DeclPlace := ⟨next, u, outers, head, members⟩
    have hopen : p.IsOpenIn entered := fun o ho => houters o (List.mem_of_mem_head? ho)
    have hcount : next + (Syntax.Member.nested head members).declCount =
        next + 1 + declCounts members := by
      rw [Syntax.Member.declCount]
      omega
    rw [hcount]
    by_cases hname : p.qualifiedName ∈ entered.map (·.qualifiedName)
    · -- the name is taken, and what stands in the declaration is passed over with it
      rw [enterMember_of_mem (p := p) hname]
      refine ⟨[], Enters.refused (p := p) hopen hlt hname (by show next < _; omega) ?_⟩
      intro q hq
      obtain ⟨hle, hltstop⟩ := number_of_mem_placesInAll hq
      refine ⟨hle, hltstop, ?_⟩
      obtain ⟨o, ho, rfl | ⟨hole, holt⟩⟩ := exists_head_of_mem_placesInAll hq
      · exact ⟨_, ho, Nat.le_refl _, by show next < _; omega⟩
      · exact ⟨o, ho, by show next ≤ _; omega, holt⟩
    · -- the declaration is the last one entered before the pass goes down to its members
      rw [enterMember_of_not_mem (p := p) hlt houters hname]
      have hlt' : ∀ q ∈ entered ++ [p], q.number < next + 1 := by
        refine List.forall_mem_append.mpr ⟨fun q hq => Nat.lt_succ_of_lt (hlt q hq), ?_⟩
        exact fun q hq => List.mem_singleton.mp hq ▸ Nat.lt_succ_self next
      have houters' : ∀ o ∈ p.asOuter :: outers, o.1 ∈ numbers (entered ++ [p]) := by
        rw [numbers_append]
        refine List.forall_mem_cons.mpr ⟨List.mem_append_right _ (List.mem_singleton_self _), ?_⟩
        exact fun o ho => List.mem_append_left _ (houters o ho)
      obtain ⟨added, hadded⟩ := exists_enters_members (p.asOuter :: outers) (next + 1) members
        hlt' houters'
      exact ⟨p :: added, Enters.made (p := p) hopen hlt houters hname hadded⟩

/-- The pass over members follows their places. -/
theorem exists_enters_members (outers : List (Nat × String)) (next : Nat)
    (ms : List Syntax.Member) {entered : List DeclPlace} (hlt : ∀ q ∈ entered, q.number < next)
    (houters : ∀ o ∈ outers, o.1 ∈ numbers entered) :
    ∃ added, Enters entered added (next + declCounts ms) (placesInAll u outers next ms)
      (placeMembers u outers next ms)
      (enterMembers u (outersIn entered u.package outers) (registerOf entered) ms) :=
  match ms with
  | [] => ⟨[], Enters.nil _ _⟩
  | m :: ms => by
    obtain ⟨first, hfirst⟩ := exists_enters_member outers next m hlt houters
    have hlt' : ∀ q ∈ entered ++ first, q.number < next + m.declCount := by
      refine List.forall_mem_append.mpr ⟨fun q hq => ?_, fun q hq => ?_⟩
      · exact Nat.lt_of_lt_of_le (hlt q hq) (Nat.le_add_right _ _)
      · exact (number_of_mem_placesIn (hfirst.subset q hq)).2
    have houters' : ∀ o ∈ outers, o.1 ∈ numbers (entered ++ first) := by
      rw [numbers_append]
      exact fun o ho => List.mem_append_left _ (houters o ho)
    obtain ⟨rest, hrest⟩ := exists_enters_members outers (next + m.declCount) ms hlt' houters'
    have happend := hfirst.append hrest (fun q hq => (number_of_mem_placesInAll hq).1)
      (Nat.le_add_right _ _)
    -- the register handed on is that of the places entered so far
    rw [outersIn_append _ _ houters, ← hfirst.register, Nat.add_assoc, ← placeMembers_cons] at happend
    exact ⟨first ++ rest, happend⟩

end

end

/-! ## The pass over units -/

/-- The place of a member that is a declaration. -/
def PlacedMember.place? : PlacedMember → Option DeclPlace
  | .method _ => none
  | .nested p => some p

/-- A declaration at the top level of a root unit. -/
def DeclPlace.isRoot (p : DeclPlace) : Bool := p.outers.isEmpty && p.unit.isRoot

/-- The members that root units have at their top level. -/
def rootMembers (next : Nat) : List SourceUnit → List PlacedMember
  | [] => []
  | u :: us =>
    (if u.isRoot then placeMembers u [] next u.topLevel else []) ++
      rootMembers (next + declCounts u.topLevel) us

/-- A pass whose members do not count. -/
theorem Enters.dropMembers {entered added : List DeclPlace} {stop : Nat} {ps : List DeclPlace}
    {placed : List PlacedMember} {x : Entered (List EnteredMember)}
    (h : Enters entered added stop ps placed x) :
    Enters entered added stop ps [] ⟨[], x.entries, x.reports, x.register⟩ where
  fold := h.fold
  subset := h.subset
  entries := h.entries
  reports := h.reports
  members := fun _ _ => rfl
  register := h.register

theorem exists_enters_units (next : Nat) (us : List SourceUnit) {entered : List DeclPlace}
    (hlt : ∀ q ∈ entered, q.number < next) :
    ∃ added x, Enters entered added (next + declCountOf us) (placesFrom next us)
      (rootMembers next us) x ∧
      enterUnits (registerOf entered) us =
        ⟨enteredIds x.members, x.entries, x.reports, x.register⟩ := by
  induction us generalizing next entered with
  | nil => exact ⟨[], ⟨[], [], [], _⟩, Enters.nil _ _, rfl⟩
  | cons u us ih =>
    -- the members of the first unit, and the later units with its declarations entered
    obtain ⟨first, hfirst⟩ := exists_enters_members u [] next u.topLevel hlt
      fun _ ho => absurd ho List.not_mem_nil
    have hlt' : ∀ q ∈ entered ++ first, q.number < next + declCounts u.topLevel := by
      refine List.forall_mem_append.mpr ⟨fun q hq => ?_, fun q hq => ?_⟩
      · exact Nat.lt_of_lt_of_le (hlt q hq) (Nat.le_add_right _ _)
      · exact (number_of_mem_placesInAll (hfirst.subset q hq)).2
    obtain ⟨rest, y, hrest, hy⟩ := ih (next + declCounts u.topLevel) hlt'
    -- a unit that is not a root adds its declarations and none of the members
    have hroot : Enters entered first (next + declCounts u.topLevel)
        (placesInAll u [] next u.topLevel)
        (if u.isRoot then placeMembers u [] next u.topLevel else [])
        ⟨if u.isRoot then (enterUnit (registerOf entered) u).members else [],
          (enterUnit (registerOf entered) u).entries,
          (enterUnit (registerOf entered) u).reports, (enterUnit (registerOf entered) u).register⟩ := by
      cases u.isRoot
      · exact hfirst.dropMembers
      · exact hfirst
    have happend := hroot.append hrest (fun q hq => (number_of_mem_placesFrom hq).1)
      (Nat.le_add_right _ _)
    rw [Nat.add_assoc] at happend
    refine ⟨first ++ rest, _, happend, ?_⟩
    rw [← hfirst.register] at hy
    have hrestUnits : enterUnits (enterUnit (registerOf entered) u).register us = _ := hy
    have hids : ∀ ms ms' : List EnteredMember,
        enteredIds (ms ++ ms') = enteredIds ms ++ enteredIds ms' :=
      fun _ _ => List.filterMap_append
    rw [enterUnits]
    dsimp only
    rw [hrestUnits, hids]
    cases u.isRoot
    · rfl
    · rfl

section
variable (units : List SourceUnit)

theorem exists_enters_build : ∃ x, Enters [] (enteredPlaces units) (declCountOf units)
    (places units) (rootMembers 0 units) x ∧
      enterUnits .start units = ⟨enteredIds x.members, x.entries, x.reports, x.register⟩ := by
  obtain ⟨added, x, hx, hunits⟩ := @exists_enters_units 0 units []
    fun _ hq => absurd hq List.not_mem_nil
  rw [Nat.zero_add] at hx
  have hadded : enteredPlaces units = added := hx.fold
  exact ⟨x, hadded ▸ hx, hunits⟩

/-- The entries of units are those of the entered places. -/
theorem entriesOf_eq : entriesOf units =
    (enteredPlaces units).map (·.entryIn (enteredPlaces units)) := by
  obtain ⟨x, hx, hunits⟩ := exists_enters_build units
  have hentries := hx.entries [] fun _ hq => absurd hq List.not_mem_nil
  rw [List.nil_append, List.append_nil] at hentries
  rw [entriesOf, hunits, hentries]

/-- The reports about units are those of their places. -/
theorem reports_build_eq : (Table.build units).2 =
    (places units).flatMap (·.reportsIn (enteredPlaces units)) := by
  obtain ⟨x, hx, hunits⟩ := exists_enters_build units
  have hreports := hx.reports [] fun _ hq => absurd hq List.not_mem_nil
  rw [List.nil_append, List.append_nil] at hreports
  show (enterUnits .start units).reports = _
  rw [hunits, hreports]

theorem roots_build_eq : (Table.build units).1.roots =
    enteredIds ((rootMembers 0 units).filterMap (·.enteredIn (enteredPlaces units))) := by
  obtain ⟨x, hx, hunits⟩ := exists_enters_build units
  have hmembers := hx.members [] fun _ hq => absurd hq List.not_mem_nil
  rw [List.nil_append, List.append_nil] at hmembers
  show (enterUnits .start units).members = _
  rw [hunits, hmembers]

end

end ActorIdl
