/-! # Path patterns

    Patterns for paths: a question mark stands for a character, a star for any characters of a name,
    brackets for a set of characters, and a part of two stars for any directories.  This module
    reads patterns and matches names against the parts of them. -/

namespace ActorIdl

/-- Characters in brackets: single ones and ranges. -/
inductive CharSet where
  | single (c : Char)
  | range (first last : Char)
deriving Repr, DecidableEq

/-- Whether a set holds a character. -/
def CharSet.holds (s : CharSet) (c : Char) : Bool :=
  match s with
  | .single d => c = d
  | .range first last => first ≤ c && c ≤ last

/-- An element of a pattern. -/
inductive Wildcard where
  | char (c : Char)
  | anyChar
  | anySequence
  | anyDirs
  | within (sets : List CharSet)
  | without (sets : List CharSet)
deriving Repr, DecidableEq

/-- Why a text is no pattern. -/
inductive PatternFault where
  | wildcards
  | recursive
  | range
deriving Repr, DecidableEq

/-- A fault and the number of characters before it. -/
structure PatternError where
  position : Nat
  fault : PatternFault
deriving Repr, DecidableEq

/-- The wording of a pattern error. -/
def PatternError.message (e : PatternError) : String :=
  "Pattern syntax error near position " ++ toString e.position ++ ": " ++
    match e.fault with
    | .wildcards => "wildcards are either regular `*` or recursive `**`"
    | .recursive => "recursive wildcards must form a single path component"
    | .range => "invalid range pattern"

namespace Pattern

/-! ## Reading -/

/-- The characters of a set in brackets. -/
def charSets : List Char → List CharSet
  | a :: '-' :: b :: rest => .range a b :: charSets rest
  | a :: rest => .single a :: charSets rest
  | [] => []

/-- The set in brackets at the start of a text, and how many characters it takes after the opening
    bracket.  The first character of a set can be a closing bracket. -/
def bracketSet? (cs : List Char) : Option (Wildcard × Nat) :=
  match cs with
  | '!' :: first :: rest =>
    (rest.findIdx? (· == ']')).map fun n => (.without (charSets (first :: rest.take n)), n + 3)
  | first :: rest =>
    if first = '!' then none
    else
      (rest.findIdx? (· == ']')).map fun n => (.within (charSets (first :: rest.take n)), n + 2)
  | [] => none

/-- The elements of the rest of a pattern, `before` being the character before it and `position` the
    number of characters before it. -/
def readFrom (before : Option Char) (position : Nat) :
    List Char → Except PatternError (List Wildcard)
  | [] => .ok []
  | '?' :: cs => (readFrom (some '?') (position + 1) cs).map (.anyChar :: ·)
  | '*' :: '*' :: '*' :: _ => .error ⟨position + 2, .wildcards⟩
  | '*' :: '*' :: cs =>
    if before = none ∨ before = some '/' then
      match cs with
      | [] => .ok [.anyDirs]
      | '/' :: rest => (readFrom (some '/') (position + 3) rest).map (.anyDirs :: ·)
      | _ :: _ => .error ⟨position + 2, .recursive⟩
    else .error ⟨position - 1, .recursive⟩
  | '*' :: cs => (readFrom (some '*') (position + 1) cs).map (.anySequence :: ·)
  | '[' :: cs =>
    match bracketSet? cs with
    | some (set, n) => (readFrom (some ']') (position + n + 1) (cs.drop n)).map (set :: ·)
    | none => .error ⟨position, .range⟩
  | c :: cs => (readFrom (some c) (position + 1) cs).map (.char c :: ·)
termination_by cs => cs.length
decreasing_by all_goals simp only [List.length_cons, List.length_drop]; omega

/-- The elements of a pattern. -/
def read (pattern : String) : Except PatternError (List Wildcard) :=
  readFrom none 0 pattern.toList

/-! ## Matching -/

/-- Whether an element that stands for one character stands for this one. -/
def standsFor (w : Wildcard) (c : Char) : Bool :=
  match w with
  | .char d => c = d
  | .anyChar => true
  | .within sets => sets.any (·.holds c)
  | .without sets => !sets.any (·.holds c)
  | .anySequence | .anyDirs => false

/-- For every place of a list, whether the list has a `true` there or later. -/
def orLater : List Bool → List Bool
  | [] => []
  | b :: bs =>
    let later := orLater bs
    (b || later.headD false) :: later

/-- For a text and each of its ends, longest first, whether a pattern accepts it.  Working through
    the ends side by side keeps the number of comparisons at the product of the lengths. -/
def acceptedEnds : List Wildcard → List Char → List Bool
  | [], cs => cs.map (fun _ => false) ++ [true]
  | .anySequence :: ws, cs => orLater (acceptedEnds ws cs)
  | .anyDirs :: _, cs => cs.map (fun _ => true) ++ [true]
  | w :: ws, cs =>
    cs.zipWith (fun c rest => standsFor w c && rest) (acceptedEnds ws cs).tail ++ [false]

/-- Whether a name is of the form of a pattern. -/
def accepts (ws : List Wildcard) (cs : List Char) : Bool := (acceptedEnds ws cs).headD false

theorem length_orLater (bs : List Bool) : (orLater bs).length = bs.length := by
  induction bs with
  | nil => rfl
  | cons b bs ih => simp [orLater, ih]

theorem tail_orLater (bs : List Bool) : (orLater bs).tail = orLater bs.tail := by
  cases bs <;> simp [orLater]

theorem length_acceptedEnds (ws : List Wildcard) (cs : List Char) :
    (acceptedEnds ws cs).length = cs.length + 1 := by
  induction ws with
  | nil => simp [acceptedEnds]
  | cons w ws ih => cases w <;> simp [acceptedEnds, length_orLater, ih]

/-- Without its first character a text has the same ends but for the longest. -/
theorem tail_acceptedEnds (ws : List Wildcard) (c : Char) (cs : List Char) :
    (acceptedEnds ws (c :: cs)).tail = acceptedEnds ws cs := by
  induction ws with
  | nil => simp [acceptedEnds]
  | cons w ws ih =>
    cases w with
    | anySequence => simp only [acceptedEnds, tail_orLater, ih]
    | anyDirs => simp [acceptedEnds]
    | _ =>
      have long := length_acceptedEnds ws cs
      cases h : acceptedEnds ws cs with
      | nil => simp [h] at long
      | cons b bs => simp [acceptedEnds, ih, h]

/-! Read from left to right, a pattern accepts what its elements stand for one after another. -/

theorem accepts_nil (cs : List Char) : accepts [] cs = cs.isEmpty := by
  cases cs <;> simp [accepts, acceptedEnds]

theorem accepts_anySequence_nil (ws : List Wildcard) :
    accepts (.anySequence :: ws) [] = accepts ws [] := by
  have long := length_acceptedEnds ws []
  match h : acceptedEnds ws [] with
  | [b] => simp [accepts, acceptedEnds, orLater, h]
  | [] | _ :: _ :: _ => simp [h] at long

theorem accepts_anySequence_cons (ws : List Wildcard) (c : Char) (cs : List Char) :
    accepts (.anySequence :: ws) (c :: cs) =
      (accepts ws (c :: cs) || accepts (.anySequence :: ws) cs) := by
  have long := length_acceptedEnds ws (c :: cs)
  have tail := tail_acceptedEnds ws c cs
  cases h : acceptedEnds ws (c :: cs) with
  | nil => simp [h] at long
  | cons b bs =>
    rw [h, List.tail_cons] at tail
    simp [accepts, acceptedEnds, orLater, h, tail]

theorem accepts_cons_nil (w : Wildcard) (ws : List Wildcard)
    (one : w ≠ .anySequence ∧ w ≠ .anyDirs) : accepts (w :: ws) [] = false := by
  cases w <;> simp_all [accepts, acceptedEnds]

theorem accepts_cons (w : Wildcard) (ws : List Wildcard) (c : Char) (cs : List Char)
    (one : w ≠ .anySequence ∧ w ≠ .anyDirs) :
    accepts (w :: ws) (c :: cs) = (standsFor w c && accepts ws cs) := by
  have long := length_acceptedEnds ws cs
  have tail := tail_acceptedEnds ws c cs
  cases h : acceptedEnds ws cs with
  | nil => simp [h] at long
  | cons b bs => cases w <;> simp_all [accepts, acceptedEnds]

/-- The name that a pattern without wildcards stands for. -/
def literal? : List Wildcard → Option (List Char)
  | [] => some []
  | .char c :: ws => (literal? ws).map (c :: ·)
  | _ => none

end Pattern

end ActorIdl
