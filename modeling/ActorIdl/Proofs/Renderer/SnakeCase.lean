import ActorIdl.Generated.Identifier
import ActorIdl.Proofs.Syntax.Names
/-! # Names in snake case

    In snake case a name has small letters for its capitals and underscores for its dollar signs,
    and an underscore more in front of some of its capitals: never at its start and never next to
    another one.  So nothing but case, underscores and dollar signs is lost, and a name in snake
    case stays as it is. -/

namespace ActorIdl

namespace Generated

/-- The characters of names in snake case. -/
def isSnakeChar (c : Char) : Bool := c.isLower || c.isDigit || c == '_'

/-- A name in snake case that begins as an identifier does. -/
def IsSnake (s : String) : Prop :=
  ∃ c cs, s.toList = c :: cs ∧ (c.isLower || c == '_') = true ∧ ∀ d ∈ cs, isSnakeChar d = true

theorem IsSnake.append {s t : String} (hs : IsSnake s) (ht : t.toList.all isSnakeChar = true) :
    IsSnake (s ++ t) := by
  obtain ⟨c, cs, hchars, hc, hcs⟩ := hs
  refine ⟨c, cs ++ t.toList, ?_, hc,
    List.forall_mem_append.mpr ⟨hcs, List.all_eq_true.mp ht⟩⟩
  rw [String.toList_append, hchars, List.cons_append]

theorem IsSnake.chars {s : String} (h : IsSnake s) : ∀ c ∈ s.toList, isSnakeChar c = true := by
  obtain ⟨c, cs, hs, hc, hcs⟩ := h
  rw [hs, List.forall_mem_cons]
  refine ⟨?_, hcs⟩
  obtain hc | hc := Bool.or_eq_true_iff.mp hc
  · simp [isSnakeChar, hc]
  · simp [isSnakeChar, hc]

/-! ## Characters of words

    The characters of words are among the first 128, so what holds of them is decided for each. -/

open Lexer in
theorem toNat_lt_of_isIdentRest {c : Char} (h : isIdentRest c = true) : c.toNat < 128 := by
  have hrest : isIdentRest c = (c.isUpper || c.isLower || c = '_' || c = '$' || c.isDigit) := rfl
  have hupper : c.isUpper = decide (c.val ≥ 'A'.val ∧ c.val ≤ 'Z'.val) := rfl
  have hlower : c.isLower = (decide (c.val ≥ 'a'.val) && decide (c.val ≤ 'z'.val)) := rfl
  have hdigit : c.isDigit = (decide (c.val ≥ '0'.val) && decide (c.val ≤ '9'.val)) := rfl
  have hval : c.val.toNat = c.toNat := rfl
  rw [hrest, hupper, hlower, hdigit] at h
  simp only [Bool.or_eq_true, Bool.and_eq_true, decide_eq_true_eq, ge_iff_le,
    UInt32.le_iff_toNat_le, hval] at h
  obtain (((⟨_, h⟩ | ⟨_, h⟩) | rfl) | rfl) | ⟨_, h⟩ := h
  · exact Nat.lt_of_le_of_lt h (by decide)
  · exact Nat.lt_of_le_of_lt h (by decide)
  · decide
  · decide
  · exact Nat.lt_of_le_of_lt h (by decide)

theorem of_isIdentRest {P : Char → Prop}
    (h : ∀ n < 128, Lexer.isIdentRest (Char.ofNat n) = true → P (Char.ofNat n)) {c : Char}
    (hc : Lexer.isIdentRest c = true) : P c := by
  have hofNat : Char.ofNat c.toNat = c := Char.ofNat_toNat c
  rw [← hofNat]
  exact h c.toNat (toNat_lt_of_isIdentRest hc) (by rwa [hofNat])

/-- The characters that join the parts of a name. -/
def isJoint (c : Char) : Bool := c == '_' || c == '$'

/-- The character of a name in snake case for a character of a name. -/
def snakeChar (c : Char) : Char := if c = '$' then '_' else c.toLower

theorem lowerUpper_of_isUpper {c : Char} (hc : Lexer.isIdentRest c = true) :
    Text.isUpper c = true → Text.lowerUpper c = [snakeChar c] ∧ isJoint c = false := by
  apply of_isIdentRest (P := fun c =>
    Text.isUpper c = true → Text.lowerUpper c = [snakeChar c] ∧ isJoint c = false) _ hc
  decide +kernel

theorem snakeChar_eq_self {c : Char} (hc : Lexer.isIdentRest c = true) :
    Text.isUpper c = false → c ≠ '$' → snakeChar c = c := by
  apply of_isIdentRest (P := fun c => Text.isUpper c = false → c ≠ '$' → snakeChar c = c) _ hc
  decide +kernel

/-- What is written for a joint is an underscore, and for another character its small letter. -/
theorem snakeChar_cases {c : Char} (hc : Lexer.isIdentRest c = true) :
    (isJoint c = true ∧ snakeChar c = '_') ∨
      (isJoint c = false ∧ snakeChar c = c.toLower ∧ snakeChar c ≠ '_') := by
  apply of_isIdentRest (P := fun c => (isJoint c = true ∧ snakeChar c = '_') ∨
    (isJoint c = false ∧ snakeChar c = c.toLower ∧ snakeChar c ≠ '_')) _ hc
  decide +kernel

theorem isSnakeChar_snakeChar {c : Char} (hc : Lexer.isIdentRest c = true) :
    isSnakeChar (snakeChar c) = true := by
  apply of_isIdentRest (P := fun c => isSnakeChar (snakeChar c) = true) _ hc
  decide +kernel

theorem beginsSnake_snakeChar {c : Char} (hc : Lexer.isIdentStart c = true) :
    ((snakeChar c).isLower || snakeChar c == '_') = true := by
  have hrest : Lexer.isIdentRest c = true := by simp [Lexer.isIdentRest, hc]
  revert hc
  apply of_isIdentRest (P := fun c => Lexer.isIdentStart c = true →
    ((snakeChar c).isLower || snakeChar c == '_') = true) _ hrest
  decide +kernel

theorem isIdentRest_of_isSnakeChar {c : Char} (h : isSnakeChar c = true) :
    Lexer.isIdentRest c = true := by
  have hrest : Lexer.isIdentRest c =
    (c.isUpper || c.isLower || c = '_' || c = '$' || c.isDigit) := rfl
  simp only [isSnakeChar, Bool.or_eq_true, beq_iff_eq] at h
  obtain (h | h) | rfl := h
  · simp [hrest, h]
  · simp [hrest, h]
  · decide

theorem of_isSnakeChar {c : Char} (h : isSnakeChar c = true) :
    Text.isUpper c = false ∧ c ≠ '$' := by
  have hrest := isIdentRest_of_isSnakeChar h
  revert h
  apply of_isIdentRest (P := fun c => isSnakeChar c = true → Text.isUpper c = false ∧ c ≠ '$') _ hrest
  decide +kernel

/-! ## What is written for a name -/

/-- What is written for the rest of a name behind a character, if there is one: a character for each
    of its own, and an underscore in front of some.  No underscore is put at the start of a name or
    next to a joint of it, and never two in one place. -/
inductive Underscored : Option Char → List Char → List Char → Prop where
  | nil (prev : Option Char) : Underscored prev [] []
  | plain {prev : Option Char} {c : Char} {cs ds : List Char} (hrest : Underscored (some c) cs ds) :
      Underscored prev (c :: cs) (snakeChar c :: ds)
  | parted {p c : Char} {cs ds : List Char} (hp : isJoint p = false) (hc : isJoint c = false)
      (hrest : Underscored (some c) cs ds) :
      Underscored (some p) (c :: cs) ('_' :: snakeChar c :: ds)

/-- A word begins behind a character, and not behind a joint. -/
theorem exists_prev_of_beginsWord {prev next : Option Char} (h : beginsWord prev next = true) :
    ∃ p, prev = some p ∧ isJoint p = false := by
  cases prev with
  | none => cases h
  | some p =>
    refine ⟨p, rfl, ?_⟩
    have hunderscore : p ≠ '_' := by
      rintro rfl
      cases h
    have hdollar : p ≠ '$' := by
      rintro rfl
      have hnone : beginsWord (some '$') next = false := by
        cases next with
        | none => decide
        | some n => rfl
      rw [hnone] at h
      cases h
    simp [isJoint, hunderscore, hdollar]

/-- What is written for the next character of a word. -/
theorem snakeFrom_cons {c : Char} (hc : Lexer.isIdentRest c = true) (prev : Option Char)
    (cs : List Char) : snakeFrom prev (c :: cs) =
      (if (Text.isUpper c && beginsWord prev cs.head?) = true then ['_'] else []) ++
        snakeChar c :: snakeFrom (some c) cs := by
  rw [snakeFrom]
  by_cases hupper : Text.isUpper c = true
  · rw [if_pos hupper, (lowerUpper_of_isUpper hc hupper).1, hupper, Bool.true_and,
      List.append_assoc]
    rfl
  · rw [if_neg hupper, Bool.eq_false_iff.mpr hupper, Bool.false_and]
    by_cases hdollar : c = '$'
    · rw [if_pos hdollar, hdollar]
      rfl
    · rw [if_neg hdollar, snakeChar_eq_self hc (Bool.eq_false_iff.mpr hupper) hdollar]
      rfl

theorem underscored_snakeFrom {cs : List Char} (hcs : ∀ c ∈ cs, Lexer.isIdentRest c = true)
    (prev : Option Char) : Underscored prev cs (snakeFrom prev cs) := by
  induction cs generalizing prev with
  | nil => exact .nil prev
  | cons c cs ih =>
    obtain ⟨hc, hcs⟩ := List.forall_mem_cons.mp hcs
    rw [snakeFrom_cons hc]
    split
    · rename_i hbegins
      obtain ⟨hupper, hword⟩ := Bool.and_eq_true_iff.mp hbegins
      obtain ⟨p, rfl, hp⟩ := exists_prev_of_beginsWord hword
      exact .parted hp (lowerUpper_of_isUpper hc hupper).2 (ih hcs _)
    · exact .plain (ih hcs _)

namespace Underscored

variable {prev : Option Char} {cs ds : List Char}

theorem chars (h : Underscored prev cs ds) (hcs : ∀ c ∈ cs, Lexer.isIdentRest c = true) :
    ∀ d ∈ ds, isSnakeChar d = true := by
  induction h with
  | nil => exact fun d hd => by cases hd
  | plain _ ih =>
    obtain ⟨hc, hcs⟩ := List.forall_mem_cons.mp hcs
    exact List.forall_mem_cons.mpr ⟨isSnakeChar_snakeChar hc, ih hcs⟩
  | parted _ _ _ ih =>
    obtain ⟨hc, hcs⟩ := List.forall_mem_cons.mp hcs
    refine List.forall_mem_cons.mpr ⟨by decide, List.forall_mem_cons.mpr ⟨?_, ih hcs⟩⟩
    exact isSnakeChar_snakeChar hc

/-- Without its underscores what is written is the name in small letters, without its joints. -/
theorem filter_eq (h : Underscored prev cs ds) (hcs : ∀ c ∈ cs, Lexer.isIdentRest c = true) :
    ds.filter (· != '_') = (cs.filter (!isJoint ·)).map Char.toLower := by
  have hchar : ∀ {c : Char} {cs ds : List Char}, Lexer.isIdentRest c = true →
      ds.filter (· != '_') = (cs.filter (!isJoint ·)).map Char.toLower →
      (snakeChar c :: ds).filter (· != '_') = ((c :: cs).filter (!isJoint ·)).map Char.toLower := by
    intro c cs ds hc hrest
    obtain ⟨hjoint, hchar⟩ | ⟨hjoint, hchar, hne⟩ := snakeChar_cases hc
    · simp [hjoint, hchar, hrest]
    · rw [hchar] at hne
      simp [hjoint, hchar, hne, hrest]
  induction h with
  | nil => rfl
  | plain _ ih =>
    obtain ⟨hc, hcs⟩ := List.forall_mem_cons.mp hcs
    exact hchar hc (ih hcs)
  | parted _ _ _ ih =>
    obtain ⟨hc, hcs⟩ := List.forall_mem_cons.mp hcs
    rw [List.filter_cons_of_neg (by decide)]
    exact hchar hc (ih hcs)

end Underscored

/-- A name in snake case begins as an identifier does. -/
theorem isSnake_snakeCase {name : String} (h : IsWord name) : IsSnake (snakeCase name) := by
  obtain ⟨c, cs, hname, hc, hcs⟩ := h
  have hrest : Lexer.isIdentRest c = true := by simp [Lexer.isIdentRest, hc]
  have hsnake : (snakeCase name).toList = snakeChar c :: snakeFrom (some c) cs := by
    rw [snakeCase, String.toList_ofList, hname, snakeFrom_cons hrest]
    simp [beginsWord]
  exact ⟨snakeChar c, _, hsnake, beginsSnake_snakeChar hc,
    (underscored_snakeFrom hcs (some c)).chars hcs⟩

/-- Names in snake case stay as they are. -/
theorem snakeFrom_eq_self {cs : List Char} (h : ∀ c ∈ cs, isSnakeChar c = true)
    (prev : Option Char) : snakeFrom prev cs = cs := by
  induction cs generalizing prev with
  | nil => rfl
  | cons c cs ih =>
    obtain ⟨hc, hcs⟩ := List.forall_mem_cons.mp h
    obtain ⟨hupper, hdollar⟩ := of_isSnakeChar hc
    rw [snakeFrom_cons (isIdentRest_of_isSnakeChar hc), hupper, ih hcs,
      snakeChar_eq_self (isIdentRest_of_isSnakeChar hc) hupper hdollar]
    rfl

theorem chars_of_isWord {name : String} (h : IsWord name) :
    ∀ c ∈ name.toList, Lexer.isIdentRest c = true := by
  obtain ⟨c, cs, hname, hc, hcs⟩ := h
  have hrest : Lexer.isIdentRest c = true := by simp [Lexer.isIdentRest, hc]
  rw [hname]
  exact List.forall_mem_cons.mpr ⟨hrest, hcs⟩

theorem underscored_toList {name : String} (h : IsWord name) :
    Underscored none name.toList (snakeCase name).toList := by
  rw [snakeCase, String.toList_ofList]
  exact underscored_snakeFrom (chars_of_isWord h) none

/-- A name in small letters, without underscores and dollar signs. -/
def bareName (name : String) : List Char := (name.toList.filter (!isJoint ·)).map Char.toLower

theorem filter_snakeCase {name : String} (h : IsWord name) :
    (snakeCase name).toList.filter (· != '_') = bareName name :=
  (underscored_toList h).filter_eq (chars_of_isWord h)

/-- The snake case of a word has small letters, digits and underscores only, and it is its own snake
    case.  Without its underscores it is the word in small letters without underscores and dollar
    signs.  It is the word in small letters, with underscores for dollar signs, but for underscores
    that are put between two neighbours, one at most, and none of the two a joint of the word.  So
    two words with one snake case differ in case, underscores and dollar signs only. -/
theorem underscored_snakeCase {name : String} (h : IsWord name) :
    (∀ c ∈ (snakeCase name).toList, isSnakeChar c = true) ∧
    snakeCase (snakeCase name) = snakeCase name ∧
    (snakeCase name).toList.filter (· != '_') = bareName name ∧
    Underscored none name.toList (snakeCase name).toList ∧
    ∀ other, IsWord other → snakeCase other = snakeCase name → bareName other = bareName name := by
  have hchars := (isSnake_snakeCase h).chars
  refine ⟨hchars, ?_, filter_snakeCase h, underscored_toList h, fun other hother heq => ?_⟩
  · have hself := snakeFrom_eq_self hchars none
    rw [snakeCase, hself, String.ofList_toList]
  · rw [← filter_snakeCase h, ← filter_snakeCase hother, heq]

theorem underscored_snakeCase_acronym :
    IsWord "getHTTP$Code_2X" ∧ snakeCase "getHTTP$Code_2X" = "get_http_code_2_x" ∧
    (∀ c ∈ "get_http_code_2_x".toList, isSnakeChar c = true) ∧
    snakeCase "get_http_code_2_x" = "get_http_code_2_x" ∧
    "get_http_code_2_x".toList.filter (· != '_') = bareName "getHTTP$Code_2X" ∧
    Underscored none "getHTTP$Code_2X".toList "get_http_code_2_x".toList ∧
    IsWord "getHttp_Code$2X" ∧ snakeCase "getHttp_Code$2X" = "get_http_code_2_x" ∧
    bareName "getHttp_Code$2X" = bareName "getHTTP$Code_2X" := by
  have hword : IsWord "getHTTP$Code_2X" := by decide
  have hother : IsWord "getHttp_Code$2X" := by decide
  have hsnake : snakeCase "getHTTP$Code_2X" = "get_http_code_2_x" := by decide +kernel
  have hothersnake : snakeCase "getHttp_Code$2X" = "get_http_code_2_x" := by decide +kernel
  obtain ⟨hchars, hself, hfilter, hunderscored, hbare⟩ := underscored_snakeCase hword
  rw [hsnake] at hchars hself hfilter hunderscored hbare
  exact ⟨hword, hsnake, hchars, hself, hfilter, hunderscored, hother, hothersnake,
    hbare _ hother hothersnake⟩

end Generated

end ActorIdl
