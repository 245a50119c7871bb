import ActorIdl.Text.Basic
import ActorIdl.Text.Blank
import Mathlib.Data.List.Chain
import Mathlib.Data.List.DropRight
/-! # Lines and the white space around them

    A text is cut at its line feeds in two ways: into the parts between them, and into its lines,
    where a carriage return in front of a line feed belongs to the end of the line.  White space at
    the ends of a text is trimmed, and a text whose lines do not end in white space is its lines
    with line feeds between them. -/

namespace ActorIdl

/-! ## Parts -/

open Text in
/-- The parts of a text between the occurrences of a character. -/
theorem splitOn_eq (sep : Char) (cs : List Char) : splitOn sep cs = cs.splitOn sep := by
  induction cs with
  | nil => rfl
  | cons c cs ih =>
    obtain ⟨part, parts, hparts⟩ := List.exists_cons_of_ne_nil (List.splitOn_ne_nil sep cs)
    rw [splitOn, ih, List.splitOn_cons_eq_if_modifyHead, hparts]
    by_cases hc : c = sep
    · simp [hc]
    · simp [hc]

namespace Text

variable {line cs l : List Char}

/-! ## Trimming -/

/-- The text begins with a character that is not blank, if it has one. -/
def StartsPlain (l : List Char) : Prop := ∀ c ∈ l.head?, isBlank c = false

/-- The text ends with a character that is not blank, if it has one. -/
def EndsPlain (l : List Char) : Prop := ∀ c ∈ l.getLast?, isBlank c = false

instance (l : List Char) : Decidable (StartsPlain l) :=
  decidable_of_iff (l.head?.all (!isBlank ·) = true) <| by
    unfold StartsPlain
    cases l.head? with
    | none => simp
    | some c => simp

instance (l : List Char) : Decidable (EndsPlain l) :=
  decidable_of_iff (l.getLast?.all (!isBlank ·) = true) <| by
    unfold EndsPlain
    cases l.getLast? with
    | none => simp
    | some c => simp

theorem EndsPlain.of_append {as : List Char} (h : EndsPlain (as ++ l)) : EndsPlain l := by
  intro c hc
  refine h c ?_
  rw [List.getLast?_append, Option.mem_def.mp hc]
  rfl

theorem EndsPlain.append (h : EndsPlain l) (hne : l ≠ []) (as : List Char) : EndsPlain (as ++ l) := by
  intro c hc
  rw [List.getLast?_append_of_ne_nil as hne] at hc
  exact h c hc

theorem startsPlain_trimStart (l : List Char) : StartsPlain (trimStart l) := by
  induction l with
  | nil => exact fun _ hc => by cases hc
  | cons d l ih =>
    rw [trimStart, List.dropWhile_cons]
    by_cases hd : isBlank d = true
    · rw [if_pos hd]
      exact ih
    · rw [if_neg hd]
      intro c hc
      cases hc
      exact Bool.eq_false_iff.mpr hd

theorem trimEnd_eq_self (h : EndsPlain l) : trimEnd l = l := by
  refine List.rdropWhile_eq_self_iff.mpr fun hl => ?_
  rw [h _ (List.getLast_mem_getLast? hl)]
  decide

theorem endsPlain_trimEnd (l : List Char) : EndsPlain (trimEnd l) := by
  intro c hc
  obtain ⟨hne, rfl⟩ := List.mem_getLast?_eq_getLast hc
  exact Bool.eq_false_iff.mpr (List.rdropWhile_last_not isBlank l hne)

theorem trimEnd_isPrefix (l : List Char) : trimEnd l <+: l := List.rdropWhile_prefix isBlank l

theorem trim_isInfix (l : List Char) : trim l <:+: l :=
  (trimEnd_isPrefix _).isInfix.trans (List.dropWhile_suffix isBlank).isInfix

theorem startsPlain_trim (l : List Char) : StartsPlain (trim l) := by
  intro c hc
  obtain ⟨rest, hrest⟩ := trimEnd_isPrefix (trimStart l)
  refine startsPlain_trimStart l c ?_
  have hhead : (trimEnd (trimStart l)).head? = some c := hc
  rw [← hrest, List.head?_append, hhead]
  rfl

theorem trimStart_append {as : List Char} (h : ∀ c ∈ as, isBlank c = true) (bs : List Char) :
    trimStart (as ++ bs) = trimStart bs := List.dropWhile_append_of_pos h

theorem trimStart_eq_self (h : StartsPlain l) : trimStart l = l := by
  cases l with
  | nil => rfl
  | cons c l => rw [trimStart, List.dropWhile_cons, h c rfl, if_neg (by decide)]

theorem trimEnd_append {bs : List Char} (h : ∀ c ∈ bs, isBlank c = true) (as : List Char) :
    trimEnd (as ++ bs) = trimEnd as := by
  have hreverse : ∀ c ∈ bs.reverse, isBlank c = true := fun c hc => h c (List.mem_reverse.mp hc)
  rw [trimEnd, List.reverse_append, List.dropWhile_append_of_pos hreverse, trimEnd]

/-- White space in front of a trimmed text and behind it goes. -/
theorem trim_between {as bs : List Char} (has : ∀ c ∈ as, isBlank c = true)
    (hbs : ∀ c ∈ bs, isBlank c = true) (hstart : StartsPlain l) (hend : EndsPlain l) :
    trim (as ++ (l ++ bs)) = l := by
  rw [trim, trimStart_append has]
  by_cases hl : l = []
  · -- nothing but white space
    have hblank : trimStart bs = [] := by
      have happend := trimStart_append hbs []
      rwa [List.append_nil] at happend
    rw [hl, List.nil_append, hblank]
    rfl
  · obtain ⟨c, cs, rfl⟩ := List.exists_cons_of_ne_nil hl
    have hplain : StartsPlain ((c :: cs) ++ bs) := hstart
    rw [trimStart_eq_self hplain, trimEnd_append hbs, trimEnd_eq_self hend]

/-! ## Lines -/

theorem isInfix_of_mem_linesFrom (h : l ∈ linesFrom line cs) : l <:+: line.reverse ++ cs := by
  have hbehind : ∀ (as : List Char) (d : Char) (cs : List Char), cs <:+: as ++ d :: cs :=
    fun as d cs => ((List.suffix_cons d cs).trans (List.suffix_append as _)).isInfix
  fun_induction linesFrom line cs with
  | case1 => cases h
  | case2 line _ =>
    rw [List.mem_singleton.mp h]
    exact (List.prefix_append _ _).isInfix
  | case3 cs before ih =>
    rcases List.mem_cons.mp h with rfl | h
    · rw [List.reverse_cons, List.append_assoc]
      exact (List.prefix_append _ _).isInfix
    · exact (ih h).trans (hbehind _ _ _)
  | case4 line cs _ ih =>
    rcases List.mem_cons.mp h with rfl | h
    · exact (List.prefix_append _ _).isInfix
    · exact (ih h).trans (hbehind _ _ _)
  | case5 line c cs _ ih =>
    have hpart := ih h
    rwa [List.reverse_cons, List.append_assoc] at hpart

theorem not_mem_of_mem_linesFrom (hline : '\n' ∉ line) (h : l ∈ linesFrom line cs) : '\n' ∉ l := by
  have hreverse : ∀ {line : List Char}, '\n' ∉ line → '\n' ∉ line.reverse :=
    fun hline hmem => hline (List.mem_reverse.mp hmem)
  fun_induction linesFrom line cs with
  | case1 => cases h
  | case2 line _ =>
    rw [List.mem_singleton.mp h]
    exact hreverse hline
  | case3 cs before ih =>
    rcases List.mem_cons.mp h with rfl | h
    · exact hreverse fun hmem => hline (List.mem_cons_of_mem _ hmem)
    · exact ih List.not_mem_nil h
  | case4 line cs _ ih =>
    rcases List.mem_cons.mp h with rfl | h
    · exact hreverse hline
    · exact ih List.not_mem_nil h
  | case5 line c cs hc ih => exact ih (List.not_mem_cons_of_ne_of_not_mem (Ne.symm hc) hline) h

theorem linesFrom_of_ne {c : Char} (hc : c ≠ '\n') (line cs : List Char) :
    linesFrom line (c :: cs) = linesFrom (c :: line) cs := by
  rw [linesFrom.eq_def]
  exact if_neg hc

/-- How a line ends. -/
inductive LineEnd where
  | feed
  | returnFeed
deriving Repr, DecidableEq

/-- The characters of a line end. -/
def LineEnd.chars : LineEnd → List Char
  | .feed => ['\n']
  | .returnFeed => ['\r', '\n']

/-- A line that does not end in a carriage return is a line of the text, however it ends. -/
theorem linesFrom_append (hl : '\n' ∉ l) (hreturn : (line.reverse ++ l).getLast? ≠ some '\r')
    (ending : LineEnd) (rest : List Char) :
    linesFrom line (l ++ (ending.chars ++ rest)) = (line.reverse ++ l) :: lines rest := by
  -- the characters of the line are gathered before its end is reached
  induction l generalizing line with
  | nil =>
    rw [List.append_nil] at hreturn ⊢
    cases ending with
    | feed =>
      show linesFrom line ('\n' :: rest) = _
      rw [linesFrom, lines]
      · rfl
      · -- a line feed alone must not take a carriage return of the line with it
        rintro before rfl
        simp at hreturn
    | returnFeed =>
      show linesFrom line ('\r' :: '\n' :: rest) = _
      rw [linesFrom_of_ne (by decide), linesFrom, lines]
      rfl
  | cons c l ih =>
    have hc : '\n' ≠ c := List.ne_of_not_mem_cons hl
    have happend : line.reverse ++ c :: l = (c :: line).reverse ++ l := by simp
    rw [happend] at hreturn ⊢
    rw [List.cons_append, linesFrom_of_ne (Ne.symm hc),
      ih (List.not_mem_of_not_mem_cons hl) hreturn]

theorem lines_append (hl : '\n' ∉ l) (hreturn : l.getLast? ≠ some '\r') (ending : LineEnd)
    (rest : List Char) : lines (l ++ (ending.chars ++ rest)) = l :: lines rest :=
  @linesFrom_append [] l hl hreturn ending rest

/-- A text without line feeds is its only line. -/
theorem linesFrom_of_not_mem (h : '\n' ∉ cs) (hne : line.reverse ++ cs ≠ []) :
    linesFrom line cs = [line.reverse ++ cs] := by
  induction cs generalizing line with
  | nil =>
    rw [List.append_nil] at hne ⊢
    rw [linesFrom, if_neg]
    simpa using hne
  | cons c cs ih =>
    have hc : '\n' ≠ c := List.ne_of_not_mem_cons h
    have happend : line.reverse ++ c :: cs = (c :: line).reverse ++ cs := by simp
    rw [linesFrom_of_ne (Ne.symm hc), happend, ih (List.not_mem_of_not_mem_cons h)]
    rwa [← happend]

/-! ## Texts whose lines do not end in white space -/

/-- Two neighbours of which the second one does not end a line in white space. -/
def Tidy (c d : Char) : Prop := d = '\n' → c = '\n' ∨ isBlank c = false

theorem linesFrom_ne_nil (h : line ≠ [] ∨ cs ≠ []) : linesFrom line cs ≠ [] := by
  fun_induction linesFrom line cs with
  | case1 line hline => simp [List.isEmpty_iff.mp hline] at h
  | case2 => exact List.cons_ne_nil _ _
  | case3 => exact List.cons_ne_nil _ _
  | case4 => exact List.cons_ne_nil _ _
  | case5 line c cs _ ih => exact ih (.inl (List.cons_ne_nil c line))

/-- Such a text is its lines with line feeds between them. -/
theorem intercalate_linesFrom (h : (line.reverse ++ cs).IsChain Tidy)
    (hend : EndsPlain (line.reverse ++ cs)) :
    List.intercalate ['\n'] (linesFrom line cs) = line.reverse ++ cs := by
  fun_induction linesFrom line cs with
  | case1 line hline =>
    rw [List.isEmpty_iff.mp hline]
    rfl
  | case2 line _ => rw [List.intercalate_singleton, List.append_nil]
  | case3 cs before ih =>
    -- a carriage return is white space
    rw [List.reverse_cons, List.append_assoc] at h
    have htidy := (List.isChain_append_cons_cons.mp h).2.1
    exact absurd (htidy rfl) (by decide)
  | case4 line cs _ ih =>
    have hcs : cs ≠ [] := by
      rintro rfl
      exact absurd (hend '\n' (by simp)) (by decide)
    have hrest : cs.IsChain Tidy := (List.isChain_append.mp h).2.1.tail
    have hend' : EndsPlain cs := EndsPlain.of_append (List.append_cons line.reverse _ cs ▸ hend)
    rw [List.intercalate_cons_of_ne_nil (linesFrom_ne_nil (.inr hcs)), ih hrest hend']
    simp
  | case5 line c cs _ ih =>
    rw [List.reverse_cons, List.append_assoc] at ih
    exact ih h hend

/-- The lines of such a text end with characters that are not blank. -/
theorem endsPlain_of_mem_linesFrom (h : (line.reverse ++ cs).IsChain Tidy)
    (hend : EndsPlain (line.reverse ++ cs)) (hline : '\n' ∉ line) (hl : l ∈ linesFrom line cs) :
    EndsPlain l := by
  -- along the lines; a carriage return in front of a line feed is not tidy
  fun_induction linesFrom line cs with
  | case1 => cases hl
  | case2 line _ =>
    rw [List.mem_singleton.mp hl]
    rwa [List.append_nil] at hend
  | case3 cs before ih =>
    rw [List.reverse_cons, List.append_assoc] at h
    have htidy := (List.isChain_append_cons_cons.mp h).2.1
    exact absurd (htidy rfl) (by decide)
  | case4 line cs _ ih =>
    obtain ⟨-, htail, hmeet⟩ := List.isChain_append.mp h
    rcases List.mem_cons.mp hl with rfl | hl
    · intro c hc
      -- the last character of the line meets the line feed behind it
      rcases hmeet c hc '\n' rfl rfl with rfl | hplain
      · exact absurd (List.mem_reverse.mp (List.mem_of_getLast? hc)) hline
      · exact hplain
    · exact ih htail.tail (EndsPlain.of_append (List.append_cons line.reverse _ cs ▸ hend))
        List.not_mem_nil hl
  | case5 line c cs hc ih =>
    rw [List.reverse_cons, List.append_assoc] at ih
    exact ih h hend (List.not_mem_cons_of_ne_of_not_mem (Ne.symm hc) hline) hl

/-- Lines that do not end in white space make a text of this kind. -/
theorem isChain_intercalate {R : Char → Char → Prop} {ls : List (List Char)}
    (hls : ∀ l ∈ ls, l.IsChain R) (hafter : ∀ l ∈ ls, ∀ c ∈ l.getLast?, R c '\n')
    (hbefore : ∀ d, R '\n' d) : (List.intercalate ['\n'] ls).IsChain R := by
  induction ls with
  | nil => exact .nil
  | cons l ls ih =>
    obtain ⟨hl, hls⟩ := List.forall_mem_cons.mp hls
    obtain ⟨hc, hafter⟩ := List.forall_mem_cons.mp hafter
    by_cases hnil : ls = []
    · rw [hnil, List.intercalate_singleton]
      exact hl
    · rw [List.intercalate_cons_of_ne_nil hnil, List.append_assoc]
      refine List.isChain_append.mpr ⟨hl, ?_, fun c hlast d hd => ?_⟩
      · exact List.isChain_cons.mpr ⟨fun d _ => hbefore d, ih hls hafter⟩
      · cases hd
        exact hc c hlast

theorem intercalate_concat {ls : List (List Char)} (h : ls ≠ []) (l : List Char) :
    List.intercalate ['\n'] (ls ++ [l]) = List.intercalate ['\n'] ls ++ '\n' :: l := by
  induction ls with
  | nil => exact absurd rfl h
  | cons k ls ih =>
    by_cases hnil : ls = []
    · subst hnil
      simp [List.intercalate_cons_cons]
    · rw [List.cons_append, List.intercalate_cons_of_ne_nil (by simp), ih hnil,
        List.intercalate_cons_of_ne_nil hnil, List.append_assoc, List.append_assoc, List.append_assoc]

end Text

end ActorIdl
