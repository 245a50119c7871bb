import ActorIdl.Proofs.Renderer.SnakeCase
/-! # Identifiers of the generated language

    What an identifier is in the generated code is a matter of its language: a letter or an
    underscore, then letters, digits and underscores, and no word of the language unless it is
    written raw.  A name of a source becomes such an identifier whatever it is, be it the first of
    its name or a further one. -/

namespace ActorIdl

/-! ## The language -/

namespace Generated

/-- The words that the language uses or has set aside. -/
def languageWords : List String :=
  ["abstract", "as", "async", "await", "become", "box", "break", "const", "continue", "crate",
   "do", "dyn", "else", "enum", "extern", "false", "final", "fn", "for", "gen", "if", "impl",
   "in", "let", "loop", "macro", "match", "mod", "move", "mut", "override", "priv", "pub", "ref",
   "return", "self", "Self", "static", "struct", "super", "trait", "true", "try", "type",
   "typeof", "unsafe", "unsized", "use", "virtual", "where", "while", "yield"]

/-- Those that name places in a path and so cannot be written raw. -/
def pathWords : List String := ["crate", "self", "Self", "super"]

/-- The characters that an identifier begins with. -/
def beginsIdentifier (c : Char) : Bool := c.isAlpha || c == '_'

/-- The characters of identifiers. -/
def continuesIdentifier (c : Char) : Bool := c.isAlpha || c.isDigit || c == '_'

/-- A text of identifier characters, with one at its start that an identifier begins with. -/
def IsShaped (s : String) : Prop :=
  ∃ c cs, s.toList = c :: cs ∧ beginsIdentifier c = true ∧ ∀ d ∈ cs, continuesIdentifier d = true

instance (s : String) : Decidable (IsShaped s) :=
  decidable_of_iff
    ((s.toList.head?.any beginsIdentifier && s.toList.tail.all continuesIdentifier) = true) <| by
      unfold IsShaped
      cases s.toList with
      | nil => simp
      | cons c cs => simp [and_assoc]

/-- A text is written for an identifier: as it is, or raw if it is a word of the language.  The
    underscore alone is no identifier. -/
inductive Denotes : String → String → Prop where
  | plain {w : String} (hshape : IsShaped w) (hblank : w ≠ "_") (hword : w ∉ languageWords) :
      Denotes w w
  | raw {w : String} (hword : w ∈ languageWords) (hpath : w ∉ pathWords) : Denotes ("r#" ++ w) w

/-- A text that can stand for an identifier. -/
def IsLegal (s : String) : Prop := ∃ w, Denotes s w

theorem isLegal_iff {s : String} : IsLegal s ↔ (IsShaped s ∧ s ≠ "_" ∧ s ∉ languageWords) ∨
    ∃ w ∈ languageWords, w ∉ pathWords ∧ s = "r#" ++ w := by
  constructor
  · intro h
    obtain ⟨w, hw⟩ := h
    cases hw with
    | plain hshape hblank hword => exact .inl ⟨hshape, hblank, hword⟩
    | raw hword hpath => exact .inr ⟨w, hword, hpath, rfl⟩
  · intro h
    obtain ⟨hshape, hblank, hword⟩ | ⟨w, hword, hpath, rfl⟩ := h
    · exact ⟨s, .plain hshape hblank hword⟩
    · exact ⟨w, .raw hword hpath⟩

instance (s : String) : Decidable (IsLegal s) := decidable_of_iff _ isLegal_iff.symm

theorem IsShaped.continues {s : String} (h : IsShaped s) :
    ∀ c ∈ s.toList, continuesIdentifier c = true := by
  obtain ⟨c, cs, hs, hc, hcs⟩ := h
  rw [hs, List.forall_mem_cons]
  refine ⟨?_, hcs⟩
  obtain hc | hc := Bool.or_eq_true_iff.mp hc
  · simp [continuesIdentifier, hc]
  · simp [continuesIdentifier, hc]

/-- What stands for an identifier has no characters but those of identifiers and of the raw mark. -/
theorem IsLegal.not_mem {s : String} (h : IsLegal s) {c : Char} (hc : continuesIdentifier c = false)
    (hmark : c ≠ '#') : c ∉ s.toList := by
  have hplain : ∀ {w : String}, IsShaped w → c ∉ w.toList := by
    intro w hw hmem
    rw [hw.continues c hmem] at hc
    cases hc
  obtain ⟨w, hw⟩ := h
  cases hw with
  | plain hshape _ _ => exact hplain hshape
  | raw hword _ =>
    have hwords : ∀ w ∈ languageWords, IsShaped w := by decide
    have hr : c ≠ 'r' := by
      intro hr
      rw [hr] at hc
      exact absurd hc (by decide)
    rw [String.toList_append, List.mem_append, not_or]
    exact ⟨by simpa using ⟨hr, hmark⟩, hplain (hwords w hword)⟩

/-- Two texts do not stand for the same identifier. -/
def Apart (s t : String) : Prop := ∀ w, Denotes s w → ¬ Denotes t w

/-- An identifier is written in one way. -/
theorem Denotes.unique {s t w : String} (hs : Denotes s w) (ht : Denotes t w) : s = t := by
  cases hs with
  | plain _ _ hword =>
    cases ht with
    | plain _ _ _ => rfl
    | raw hword' _ => exact absurd hword' hword
  | raw hword _ =>
    cases ht with
    | plain _ _ hword' => exact absurd hword hword'
    | raw _ _ => rfl

end Generated

end ActorIdl
