import ActorIdl.Proofs.Plan.Compatibility
import ActorIdl.Proofs.Plan.TypeNames
import ActorIdl.Proofs.Renderer.Identifiers
import ActorIdl.Proofs.Renderer.MethodTexts
import ActorIdl.Proofs.Renderer.Stub
import ActorIdl.Proofs.Text.Joining
/-! # The names of types in generated code

    The generated types are named after the interface, and other types are written as paths from the
    crate root that have the segments of their qualified names.  Neither is checked against the
    language, so a module can be written that has no meaning there.  Its names are legal exactly if
    the names in the source are: no dollar sign, no word of the language, and no lone underscore. -/

namespace ActorIdl

namespace Generated

/-! ## Reading the text of a type -/

/-- The characters between the paths in the text of a type. -/
def pathMarks : List Char := ['<', '>', ',', ' ', '(', ')']

/-- Whether a character stands between paths. -/
def isPathMark (c : Char) : Bool := pathMarks.contains c

/-- The segments of a path between two colons each. -/
def pathSegments : List Char → List (List Char)
  | ':' :: ':' :: cs => [] :: pathSegments cs
  | c :: cs => (pathSegments cs).modifyHead (c :: ·)
  | [] => [[]]

/-- The segments of a path, but for the crate root at its start. -/
def namedSegments (path : List Char) : List (List Char) :=
  match pathSegments path with
  | root :: segment :: segments =>
    if root = "crate".toList then segment :: segments else root :: segment :: segments
  | segments => segments

/-- The paths in the text of a type. -/
def typePaths (text : String) : List (List Char) :=
  (text.toList.splitOnP isPathMark).filter (· ≠ [])

/-- All names in the text of a type are legal. -/
def NamesLegally (text : String) : Prop :=
  ∀ path ∈ typePaths text, ∀ segment ∈ namedSegments path, IsLegal (String.ofList segment)

instance (text : String) : Decidable (NamesLegally text) :=
  inferInstanceAs (Decidable (∀ path ∈ typePaths text, ∀ segment ∈ namedSegments path, _))

theorem namesLegally_empty : NamesLegally "" := by
  simp [NamesLegally, typePaths]

/-- The names in a text are those in front of a mark and those behind it. -/
theorem namesLegally_append {mark : String} {c : Char} (hmark : mark.toList = [c])
    (hc : isPathMark c = true) (s t : String) :
    NamesLegally (s ++ mark ++ t) ↔ NamesLegally s ∧ NamesLegally t := by
  have hchars : (s ++ mark ++ t).toList = s.toList ++ c :: t.toList := by
    simp [hmark]
  unfold NamesLegally typePaths
  rw [hchars, List.splitOnP_append_cons _ _ hc, List.filter_append, List.forall_mem_append]

theorem namesLegally_of_path {path : String} (hne : path ≠ "")
    (h : ∀ c ∈ path.toList, isPathMark c = false) : NamesLegally path ↔
      ∀ segment ∈ namedSegments path.toList, IsLegal (String.ofList segment) := by
  unfold NamesLegally typePaths
  rw [List.splitOnP_eq_singleton h]
  simp [hne]

/-- The names in a type with arguments are its own and those in the arguments. -/
theorem namesLegally_applied (head arguments : String) :
    NamesLegally (head ++ "<" ++ arguments ++ ">") ↔
      NamesLegally head ∧ NamesLegally arguments := by
  have hclosed : head ++ "<" ++ arguments ++ ">" = head ++ "<" ++ arguments ++ ">" ++ "" := by simp
  rw [hclosed, namesLegally_append (c := '>') rfl rfl, namesLegally_append (c := '<') rfl rfl]
  simp [namesLegally_empty]

theorem namesLegally_joinWith (texts : List String) :
    NamesLegally (Text.joinWith ", " texts) ↔ ∀ text ∈ texts, NamesLegally text := by
  induction texts with
  | nil => simp [Text.joinWith, namesLegally_empty]
  | cons text texts ih =>
    rw [List.forall_mem_cons, ← ih]
    by_cases hnil : texts = []
    · rw [hnil]
      simpa [Text.joinWith] using fun _ => namesLegally_empty
    · -- there are two marks between texts, and nothing between the marks
      have hcomma : Text.joinWith ", " (text :: texts) =
          text ++ "," ++ "" ++ " " ++ Text.joinWith ", " texts := by
        rw [joinWith_cons ", " text hnil]
        simp only [String.append_assoc]
        rfl
      rw [hcomma, namesLegally_append (c := ' ') rfl rfl, namesLegally_append (c := ',') rfl rfl]
      simp [namesLegally_empty]

/-! ## Paths -/

theorem pathSegments_cons {c : Char} (hc : c ≠ ':') (cs : List Char) :
    pathSegments (c :: cs) = (pathSegments cs).modifyHead (c :: ·) := by
  rw [pathSegments]
  intro _ h _
  exact hc h

theorem pathSegments_append {segment : List Char} (h : ':' ∉ segment) (cs : List Char) :
    pathSegments (segment ++ cs) = (pathSegments cs).modifyHead (segment ++ ·) := by
  induction segment with
  | nil =>
    show pathSegments cs = (pathSegments cs).modifyHead id
    rw [List.modifyHead_id, id]
  | cons c segment ih =>
    rw [List.mem_cons, not_or] at h
    rw [List.cons_append, pathSegments_cons (Ne.symm h.1), ih h.2, List.modifyHead_modifyHead]
    rfl

theorem pathSegments_joinWith {words : List String} (hwords : ∀ w ∈ words, ':' ∉ w.toList)
    (hne : words ≠ []) : pathSegments (Text.joinWith "::" words).toList = words.map (·.toList) := by
  induction words with
  | nil => exact absurd rfl hne
  | cons w words ih =>
    obtain ⟨hw, hwords⟩ := List.forall_mem_cons.mp hwords
    -- the last word has nothing behind it, the others have a separator
    by_cases hnil : words = []
    · have hsingle := pathSegments_append hw []
      rw [List.append_nil] at hsingle
      rw [hnil]
      show pathSegments w.toList = [w.toList]
      rw [hsingle]
      simp [pathSegments]
    · have hchars : (Text.joinWith "::" (w :: words)).toList =
          w.toList ++ ':' :: ':' :: (Text.joinWith "::" words).toList := by
        rw [joinWith_cons "::" w hnil]
        simp
      rw [hchars, pathSegments_append hw, pathSegments, ih hwords hnil]
      simp

/-- A word that is an identifier of the generated language as it is. -/
def IsOrdinary (w : String) : Prop := '$' ∉ w.toList ∧ w ∉ languageWords ∧ w ≠ "_"

instance (w : String) : Decidable (IsOrdinary w) := inferInstanceAs (Decidable (_ ∧ _ ∧ _))

/-- The words between the dots of a name are identifiers as they are. -/
def HasOrdinaryWords (name : String) : Prop :=
  ∀ w ∈ name.toList.splitOn '.', IsOrdinary (String.ofList w)

instance (name : String) : Decidable (HasOrdinaryWords name) :=
  inferInstanceAs (Decidable (∀ w ∈ name.toList.splitOn '.', IsOrdinary (String.ofList w)))

theorem isLegal_iff_of_isWord {w : String} (h : IsWord w) : IsLegal w ↔ IsOrdinary w := by
  constructor
  · intro hlegal
    obtain ⟨v, hv⟩ := hlegal
    cases hv with
    | plain hshape hblank hword =>
      refine ⟨?_, hword, hblank⟩
      intro hdollar
      obtain ⟨c, cs, hw, hc, hcs⟩ := hshape
      rw [hw, List.mem_cons] at hdollar
      obtain rfl | hmem := hdollar
      · exact absurd hc (by decide)
      · exact absurd (hcs _ hmem) (by decide)
    | raw _ _ =>
      -- there is no number sign in a word
      refine absurd ?_ (h.not_mem (c := '#') (by decide))
      rw [String.toList_append]
      exact List.mem_append_left _ (by decide)
  · intro hordinary
    obtain ⟨hdollar, hword, hblank⟩ := hordinary
    obtain ⟨c, cs, hw, hc, hcs⟩ := h
    rw [hw, List.mem_cons, not_or] at hdollar
    refine ⟨w, .plain ⟨c, cs, hw, ?_, ?_⟩ hblank hword⟩
    · simpa [Lexer.isIdentStart, beginsIdentifier, Ne.symm hdollar.1] using hc
    · intro d hd
      have hd' : d ≠ '$' := fun heq => hdollar.2 (heq ▸ hd)
      have hrest := hcs d hd
      simp only [Lexer.isIdentRest, Lexer.isIdentStart, hd', decide_false, Bool.or_false] at hrest
      simp only [continuesIdentifier, Bool.or_assoc] at hrest ⊢
      rw [Bool.or_comm d.isDigit]
      exact hrest

/-- A dotted name is written with its words as segments. -/
theorem namesLegally_cratePath {name : String} (h : IsDotted name) :
    NamesLegally (cratePath name) ↔ HasOrdinaryWords name := by
  obtain ⟨head, tail, hhead, htail, rfl⟩ := h
  have hwords : ∀ w ∈ head :: tail, IsWord w := List.forall_mem_cons.mpr ⟨hhead.1, htail⟩
  have hsplit : (Text.joinWith "." (head :: tail)).toList.splitOn '.' =
      (head :: tail).map String.toList := by
    rw [← splitOn_eq]
    exact splitOn_joinWith rfl (fun w hw => (hwords w hw).not_mem (by decide)) (by simp)
  have hpath : cratePath (Text.joinWith "." (head :: tail)) =
      Text.joinWith "::" ("crate" :: head :: tail) := by
    have hofList : (String.ofList ∘ String.toList) = id := funext fun _ => String.ofList_toList
    rw [cratePath, splitOn_eq, hsplit, joinWith_cons "::" "crate" (by simp), List.map_map, hofList,
      List.map_id]
    rfl
  have hchars : ∀ w ∈ "crate" :: head :: tail, IsWord w := by
    rw [List.forall_mem_cons]
    exact ⟨by decide, hwords⟩
  -- the crate root is a word of the language, and not among the segments that count
  have hnamed : namedSegments (Text.joinWith "::" ("crate" :: head :: tail)).toList =
      (head :: tail).map (·.toList) := by
    rw [namedSegments,
      pathSegments_joinWith (fun w hw => (hchars w hw).not_mem (by decide)) (by simp)]
    rfl
  have hne : Text.joinWith "::" ("crate" :: head :: tail) ≠ "" := by
    rw [joinWith_cons "::" "crate" (by simp)]
    simp
  have hmarks : ∀ c ∈ (Text.joinWith "::" ("crate" :: head :: tail)).toList,
      isPathMark c = false := by
    intro c hc
    rw [Bool.eq_false_iff]
    intro hmark
    -- a mark is neither in a word nor between two of them
    have hother : pathMarks.all (fun d => !Lexer.isIdentRest d && !"::".toList.contains d) = true :=
      by decide
    obtain ⟨hrest, hcolons⟩ := Bool.and_eq_true_iff.mp
      (List.all_eq_true.mp hother c (by simpa [isPathMark] using hmark))
    have hrest : Lexer.isIdentRest c = false := by simpa using hrest
    exact not_mem_joinWith (by simpa using hcolons) (fun w hw => (hchars w hw).not_mem hrest) hc
  rw [hpath, namesLegally_of_path hne hmarks, hnamed, HasOrdinaryWords, hsplit, List.forall_mem_map,
    List.forall_mem_map]
  apply forall₂_congr
  intro w hw
  rw [String.ofList_toList]
  exact isLegal_iff_of_isWord (hwords w hw)

/-! ## Texts of types -/

mutual

/-- The names in a type that are written as paths from the crate root. -/
def crateNames : TypeRef → List String
  | .mk name args _ =>
    if (basicType? name).isSome ∨ name = Library.object then []
    else if name = Library.task then crateNamesOfAll args
    else name :: crateNamesOfAll args

/-- Those in a list of types. -/
def crateNamesOfAll : List TypeRef → List String
  | [] => []
  | t :: ts => crateNames t ++ crateNamesOfAll ts

end

section
variable {name text : String} {args : List TypeRef} {dims : Nat}

theorem crateNames_of_basic {basic : String} (h : basicType? name = some basic) :
    crateNames (.mk name args dims) = [] := by
  simp [crateNames, h]

theorem crateNames_object : crateNames (.mk Library.object args dims) = [] := by
  simp [crateNames]

theorem crateNames_task : crateNames (.mk Library.task args dims) = crateNamesOfAll args := by
  have hbasic : basicType? Library.task = none := rfl
  have hobject : Library.task ≠ Library.object := by decide
  simp [crateNames, hbasic, hobject]

theorem crateNames_declared (hbasic : basicType? name = none) (hobject : name ≠ Library.object)
    (htask : name ≠ Library.task) :
    crateNames (.mk name args dims) = name :: crateNamesOfAll args := by
  simp [crateNames, hbasic, hobject, htask]

/-- Basic types are written without their arguments. -/
theorem typeText_of_basic {basic : String} (h : basicType? name = some basic) :
    typeText (.mk name args dims) = .ok (vecs basic dims) := by
  unfold typeText
  rw [h]
  rfl

theorem typeText_object :
    typeText (.mk Library.object args dims) = .ok (vecs (runtime ++ "::Value") dims) := by
  have hbasic : basicType? Library.object = none := rfl
  unfold typeText
  rw [hbasic]
  dsimp only
  rw [if_pos rfl]
  rfl

/-- A task is written with its result, if it has one. -/
theorem typeText_task_eq_ok (h : typeText (.mk Library.task args dims) = .ok text) :
    (args = [] ∧ text = vecs (runtime ++ "::Task<()>") dims) ∨
      ∃ result inner, args = [result] ∧ typeText result = .ok inner ∧
        text = vecs (runtime ++ "::Task<" ++ inner ++ ">") dims := by
  have hbasic : basicType? Library.task = none := rfl
  unfold typeText at h
  rw [hbasic] at h
  dsimp only at h
  rw [if_neg (by decide), if_pos rfl] at h
  cases args with
  | nil => exact .inl ⟨rfl, (Except.ok.inj h).symm⟩
  | cons result more =>
    cases more with
    | nil =>
      obtain ⟨inner, hinner, h⟩ := bind_eq_ok_iff.mp h
      exact .inr ⟨result, inner, rfl, hinner, (Except.ok.inj h).symm⟩
    | cons _ _ => cases h

/-- All other types are written with all their arguments. -/
theorem typeText_declared_eq_ok (hbasic : basicType? name = none) (hobject : name ≠ Library.object)
    (htask : name ≠ Library.task) (h : typeText (.mk name args dims) = .ok text) :
    (args = [] ∧ text = vecs (cratePath name) dims) ∨
      ∃ inner, typeTexts args = .ok inner ∧
        text = vecs (cratePath name ++ "<" ++ Text.joinWith ", " inner ++ ">") dims := by
  unfold typeText at h
  rw [hbasic] at h
  dsimp only at h
  rw [if_neg hobject, if_neg htask] at h
  cases args with
  | nil => exact .inl ⟨rfl, (Except.ok.inj h).symm⟩
  | cons arg args =>
    obtain ⟨inner, hinner, h⟩ := bind_eq_ok_iff.mp h
    exact .inr ⟨inner, hinner, (Except.ok.inj h).symm⟩

end

theorem namesLegally_vecs (base : String) (n : Nat) :
    NamesLegally (vecs base n) ↔ NamesLegally base := by
  induction n with
  | zero => rfl
  | succ n ih =>
    have hvec : vecs base (n + 1) = "Vec" ++ "<" ++ vecs base n ++ ">" := rfl
    have hlegal : NamesLegally "Vec" := by decide
    rw [hvec, namesLegally_applied, ih]
    simp [hlegal]

theorem namesLegally_task (result : String) :
    NamesLegally (runtime ++ "::Task<" ++ result ++ ">") ↔ NamesLegally result := by
  have htask : runtime ++ "::Task<" ++ result ++ ">" =
      runtime ++ "::Task" ++ "<" ++ result ++ ">" := by
    simp only [String.append_assoc]
    rfl
  have hlegal : NamesLegally (runtime ++ "::Task") := by decide
  rw [htask, namesLegally_applied]
  simp [hlegal]

theorem namesLegally_of_basicType? {name basic : String} (h : basicType? name = some basic) :
    NamesLegally basic := by
  unfold basicType? at h
  split at h <;> cases h <;> decide

mutual

/-- The names in the text of a type are legal exactly if the names that are written as paths have
    ordinary words. -/
theorem namesLegally_typeText (t : TypeRef) (hnames : ∀ n ∈ t.names, IsDotted n) {text : String}
    (h : typeText t = .ok text) :
    NamesLegally text ↔ ∀ name ∈ crateNames t, HasOrdinaryWords name :=
  match t with
  | .mk name args dims => by
    obtain ⟨hname, hargs⟩ := List.forall_mem_cons.mp hnames
    -- the cases are those of `typeText`; arrays add names of the standard library alone
    cases hbasic : basicType? name with
    | some basic =>
      rw [typeText_of_basic hbasic] at h
      rw [← Except.ok.inj h, namesLegally_vecs, crateNames_of_basic hbasic]
      simp [namesLegally_of_basicType? hbasic]
    | none =>
      by_cases hobject : name = Library.object
      · have hlegal : NamesLegally (runtime ++ "::Value") := by decide
        rw [hobject, typeText_object] at h
        rw [← Except.ok.inj h, namesLegally_vecs, hobject, crateNames_object]
        simp [hlegal]
      · by_cases htask : name = Library.task
        · rw [htask] at h ⊢
          rw [crateNames_task]
          obtain ⟨hnone, rfl⟩ | ⟨result, inner, hone, hinner, rfl⟩ := typeText_task_eq_ok h
          · have hunit : NamesLegally (runtime ++ "::Task<()>") := by decide
            rw [namesLegally_vecs, hnone]
            simp [crateNamesOfAll, hunit]
          · have htexts : typeTexts args = .ok [inner] := by
              rw [hone, typeTexts, hinner]
              rfl
            rw [namesLegally_vecs, namesLegally_task, ← namesLegally_typeTexts args hargs htexts,
              List.forall_mem_singleton]
        · rw [crateNames_declared hbasic hobject htask, List.forall_mem_cons]
          obtain ⟨hnone, rfl⟩ | ⟨inner, hinner, rfl⟩ :=
            typeText_declared_eq_ok hbasic hobject htask h
          · rw [namesLegally_vecs, namesLegally_cratePath hname, hnone]
            simp [crateNamesOfAll]
          · rw [namesLegally_vecs, namesLegally_applied, namesLegally_cratePath hname,
              namesLegally_joinWith, namesLegally_typeTexts args hargs hinner]

/-- The same for a list of types. -/
theorem namesLegally_typeTexts (ts : List TypeRef)
    (hnames : ∀ n ∈ TypeRef.namesOfAll ts, IsDotted n) {texts : List String}
    (h : typeTexts ts = .ok texts) : (∀ text ∈ texts, NamesLegally text) ↔
      ∀ name ∈ crateNamesOfAll ts, HasOrdinaryWords name :=
  match ts with
  | [] => by
    obtain rfl := Except.ok.inj h
    simp [crateNamesOfAll]
  | t :: ts => by
    obtain ⟨ht, hts⟩ := List.forall_mem_append.mp hnames
    obtain ⟨first, hfirst, h⟩ := bind_eq_ok_iff.mp h
    obtain ⟨rest, hrest, h⟩ := bind_eq_ok_iff.mp h
    obtain rfl := Except.ok.inj h
    rw [List.forall_mem_cons, crateNamesOfAll, List.forall_mem_append,
      namesLegally_typeText t ht hfirst, namesLegally_typeTexts ts hts hrest]

end

theorem namesOfAll_eq (ts : List TypeRef) : TypeRef.namesOfAll ts = ts.flatMap (·.names) := by
  induction ts with
  | nil => rfl
  | cons t ts ih => rw [TypeRef.namesOfAll, ih, List.flatMap_cons]

theorem crateNamesOfAll_eq (ts : List TypeRef) : crateNamesOfAll ts = ts.flatMap crateNames := by
  induction ts with
  | nil => rfl
  | cons t ts ih => rw [crateNamesOfAll, ih, List.flatMap_cons]

/-! ## The names in a module -/

/-- The names of types in the module of a plan are legal: those of the trait and of the generated
    types, and those in the types of the methods. -/
structure NamesTypesLegally (p : Plan) (methods : List MethodText) : Prop where
  trait : IsLegal p.simpleName
  generated : ∀ name ∈ [p.referenceName, p.invokerName, p.factoryName], IsLegal name
  types : ∀ m ∈ methods, ∀ text ∈ m.result :: m.params.map (·.2), NamesLegally text

theorem baseName_subset (s : String) : ∀ c ∈ (baseName s).toList, c ∈ s.toList := by
  intro c hc
  unfold baseName at hc
  split at hc
  · rename_i d rest hs
    split at hc
    · rw [String.toList_ofList] at hc
      rw [hs]
      exact List.mem_cons_of_mem _ hc
    · exact hc
  · exact hc

/-- A name without a dollar sign is ordinary with an ending that is in no word of the language. -/
theorem isOrdinary_append {s suffix : String} (hs : '$' ∉ s.toList) (hsuffix : '$' ∉ suffix.toList)
    {c : Char} (hc : c ∈ suffix.toList) (hword : ∀ w ∈ "_" :: languageWords, c ∉ w.toList) :
    IsOrdinary (s ++ suffix) := by
  have hmem : c ∈ (s ++ suffix).toList := by
    rw [String.toList_append]
    exact List.mem_append_right _ hc
  have hother : s ++ suffix ∉ "_" :: languageWords := fun hin => hword _ hin hmem
  rw [List.mem_cons, not_or] at hother
  refine ⟨?_, hother.2, hother.1⟩
  rw [String.toList_append, List.mem_append]
  exact not_or.mpr ⟨hs, hsuffix⟩

section
variable {units : List SourceUnit} (hunits : ∀ u ∈ units, u.NamesDotted) {p : Plan}
  (hp : p ∈ (Table.build units).1.plans)
include hunits hp

/-- The generated types have legal names if there is no dollar sign in that of the interface. -/
theorem isLegal_of_mem_generated (hdollar : '$' ∉ p.simpleName.toList) :
    ∀ name ∈ [p.referenceName, p.invokerName, p.factoryName], IsLegal name := by
  have hwell : p.WellNamed :=
    wellNamed_of_mem_plans (fun u hu => (hunits u hu).unit) (fun u hu => (hunits u hu).hint) hp
  have hbase : '$' ∉ (baseName p.simpleName).toList :=
    fun hmem => hdollar (baseName_subset _ _ hmem)
  obtain ⟨hreference, hinvoker, hfactory⟩ : p.referenceName = baseName p.simpleName ++ "Reference" ∧
      p.invokerName = baseName p.simpleName ++ "Invoker" ∧
      p.factoryName = baseName p.simpleName ++ "Factory" := by
    obtain ⟨_, _, i, _, rfl⟩ := Table.mem_plans.mp hp
    exact ⟨rfl, rfl, rfl⟩
  intro name hname
  simp only [List.mem_cons, List.not_mem_nil, or_false] at hname
  obtain rfl | rfl | rfl := hname
  · rw [isLegal_iff_of_isWord hwell.referenceName.1, hreference]
    exact isOrdinary_append hbase (by decide) (c := 'R') (by decide) (by decide)
  · rw [isLegal_iff_of_isWord hwell.invokerName.1, hinvoker]
    exact isOrdinary_append hbase (by decide) (c := 'I') (by decide) (by decide)
  · rw [isLegal_iff_of_isWord hwell.factoryName.1, hfactory]
    exact isOrdinary_append hbase (by decide) (c := 'F') (by decide) (by decide)

/-- The names in the types of a method are legal exactly if they have ordinary words. -/
theorem namesLegally_of_writes {m : MethodDescriptor} (hm : m ∈ p.methods) {text : MethodText}
    {name : String} (h : text.Writes m name) :
    (∀ written ∈ text.result :: text.params.map (·.2), NamesLegally written) ↔
      ∀ t ∈ m.returnType :: m.params.map (·.type), ∀ name ∈ crateNames t,
        HasOrdinaryWords name := by
  have hdotted : ∀ n ∈ TypeRef.namesOfAll (m.returnType :: m.params.map (·.type)), IsDotted n := by
    rw [namesOfAll_eq, List.forall_mem_flatMap]
    exact isDotted_of_mem_plans hunits hp hm
  have htexts : typeTexts (m.returnType :: m.params.map (·.type)) =
      .ok (text.result :: text.params.map (·.2)) := by
    rw [typeTexts, h.result, typeTexts_of_written h.params]
    rfl
  rw [namesLegally_typeTexts _ hdotted htexts, crateNamesOfAll_eq, List.forall_mem_flatMap]

/-- The names of types in the module of a plan are legal exactly if the name of the interface is an
    ordinary word and the types that are written as paths have such words in their names. -/
theorem namesTypesLegally_iff {methods : List MethodText} (h : methodTexts p = .ok methods) :
    NamesTypesLegally p methods ↔ IsOrdinary p.simpleName ∧
      ∀ m ∈ p.methods, ∀ t ∈ m.returnType :: m.params.map (·.type), ∀ name ∈ crateNames t,
        HasOrdinaryWords name := by
  obtain ⟨hdescriptors, _, _, hwrites⟩ := of_methodTexts h
  have htrait : IsLegal p.simpleName ↔ IsOrdinary p.simpleName :=
    isLegal_iff_of_isWord (isIdent_simpleName_of_mem_plans hunits hp).1
  have htypes : (∀ m ∈ methods, ∀ text ∈ m.result :: m.params.map (·.2), NamesLegally text) ↔
      ∀ m ∈ p.methods, ∀ t ∈ m.returnType :: m.params.map (·.type), ∀ name ∈ crateNames t,
        HasOrdinaryWords name := by
    rw [← hdescriptors, List.forall_mem_map]
    apply forall₂_congr
    intro m hm
    apply namesLegally_of_writes hunits hp _ (hwrites m hm)
    rw [← hdescriptors]
    exact List.mem_map_of_mem hm
  rw [← htrait, ← htypes]
  constructor
  · intro hlegal
    exact ⟨hlegal.trait, hlegal.types⟩
  · intro hlegal
    obtain ⟨hname, htypes⟩ := hlegal
    -- the endings of the generated names leave the dollar sign as the only thing to be ruled out
    exact ⟨hname, isLegal_of_mem_generated hunits hp (htrait.mp hname).1, htypes⟩

end

variable {σ : Type} (filer : Filer σ) (renderer : Renderer) (last : Stage) (s : σ)

/-- Of a plan that a round makes of parsed units whose packages are dotted names, as those of
    package declarations are, the module names types legally exactly if the name of the interface
    is an ordinary word, and if all words are in the names of the types that are written as
    paths. -/
theorem typeNames_of_render {units : List SourceUnit}
    (hunits : ∀ u ∈ units, u.IsParsed ∧ u.HasDottedHint) {p : Plan}
    (hp : p ∈ (processRound filer renderer (Table.build units).1 last s).1.plans)
    {u : RenderedUnit} (hu : renderModule p = .ok u) :
    ∃ methods, u.contents = moduleText p methods ∧
      (NamesTypesLegally p methods ↔ IsOrdinary p.simpleName ∧
        ∀ m ∈ p.methods, ∀ t ∈ m.returnType :: m.params.map (·.type), ∀ name ∈ crateNames t,
          HasOrdinaryWords name) := by
  obtain ⟨methods, hmethods, rfl⟩ := renderModule_eq_ok_iff.mp hu
  have hdotted : ∀ u ∈ units, u.NamesDotted := fun u hu => ⟨(hunits u hu).1.wellNamed, (hunits u hu).2⟩
  have hplan : p ∈ (Table.build units).1.plans := mem_plans_of_processRound filer renderer _ s hp
  exact ⟨methods, rfl, namesTypesLegally_iff hdotted hplan hmethods⟩

/-- A source that declares its package and takes all its names from there. -/
def userSource : String :=
  "package a; class U; interface I extends orbit.actors.Actor { orbit.concurrent.Task f(U[] x); }"

theorem typeNames_of_render_user : ∃ p ∈ plansOfText none userSource, ∃ u methods,
    renderModule p = .ok u ∧ u.contents = moduleText p methods ∧ NamesTypesLegally p methods := by
  have hunits : ∀ u ∈ unitsOfText none userSource, u.IsParsed ∧ u.HasDottedHint := by
    intro u hu
    obtain ⟨hparsed, hhint⟩ := isParsed_of_mem_unitsOfText hu
    exact ⟨hparsed, fun _ => by simp [hhint]⟩
  have houtline : (plansOfText none userSource).map (fun p => (p.simpleName,
      p.methods.map fun m => crateNamesOfAll (m.returnType :: m.params.map (·.type)),
      (methodTexts p).isOk)) = [("I", [["a.U"]], true)] := by
    rw [plansOfText_eq none userSource rfl]
    decide +kernel
  obtain ⟨p, hplans, houtline⟩ := List.map_eq_singleton_iff.mp houtline
  have hp : p ∈ plansOfText none userSource := by simp [hplans]
  obtain ⟨hname, hnames, hok⟩ : _ ∧ _ ∧ _ := by simpa only [Prod.mk.injEq] using houtline
  have hwords : ∀ m ∈ p.methods, ∀ t ∈ m.returnType :: m.params.map (·.type),
      ∀ name ∈ crateNames t, HasOrdinaryWords name := by
    intro m hm t ht name hname
    have hmem : name ∈ crateNamesOfAll (m.returnType :: m.params.map (·.type)) := by
      rw [crateNamesOfAll_eq]
      exact List.mem_flatMap.mpr ⟨t, ht, hname⟩
    have hone := List.mem_map_of_mem
      (f := fun m : MethodDescriptor => crateNamesOfAll (m.returnType :: m.params.map (·.type))) hm
    rw [hnames, List.mem_singleton] at hone
    rw [hone, List.mem_singleton] at hmem
    rw [hmem]
    decide
  cases hmethods : methodTexts p with
  | error e =>
    rw [hmethods] at hok
    cases hok
  | ok methods =>
    have hu := renderModule_eq_ok_iff.mpr ⟨methods, hmethods, rfl⟩
    obtain ⟨methods', hcontents, hiff⟩ :=
      typeNames_of_render Outputs.filer .default .plan (.empty []) hunits hp hu
    refine ⟨p, hp, _, methods', hu, hcontents, hiff.mpr ⟨?_, hwords⟩⟩
    rw [hname]
    decide

/-- An interface whose name is a word of the language is written with this name. -/
theorem not_namesTypesLegally_trait :
    (∀ u ∈ unitsOfText none "package app; interface trait extends orbit.actors.Actor;",
      u.IsParsed ∧ u.packageHint = none) ∧
    ∃ p ∈ plansOfText none "package app; interface trait extends orbit.actors.Actor;",
      ∃ u methods, renderModule p = .ok u ∧ u.contents = moduleText p methods ∧
        "pub trait trait: orbit_runtime::Actor \x7b" ∈ traitLines p methods ∧
        ¬ NamesTypesLegally p methods := by
  refine ⟨fun u hu => isParsed_of_mem_unitsOfText hu, ?_⟩
  have houtline : (plansOfText none "package app; interface trait extends orbit.actors.Actor;").map
      (fun p => (p.simpleName, p.isActor, p.methods.length)) = [("trait", true, 0)] := by
    rw [plansOfText_eq none _ rfl]
    decide +kernel
  obtain ⟨p, hplans, houtline⟩ := List.map_eq_singleton_iff.mp houtline
  have hp : p ∈ plansOfText none "package app; interface trait extends orbit.actors.Actor;" := by
    simp [hplans]
  obtain ⟨hname, hactor, hlength⟩ : _ ∧ _ ∧ _ := by simpa only [Prod.mk.injEq] using houtline
  have hmethods : methodTexts p = .ok [] := by
    unfold methodTexts
    rw [List.eq_nil_of_length_eq_zero hlength]
    rfl
  refine ⟨p, hp, _, [], renderModule_eq_ok_iff.mpr ⟨[], hmethods, rfl⟩, rfl, ?_, ?_⟩
  · unfold traitLines markerPath
    rw [hname, hactor]
    simp [runtime]
  · intro hlegal
    have hword := hlegal.trait
    rw [hname] at hword
    exact absurd hword (by decide)

end Generated

end ActorIdl
