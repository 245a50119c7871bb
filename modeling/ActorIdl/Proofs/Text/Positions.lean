import ActorIdl.Proofs.Text.Lines
import ActorIdl.Proofs.Token.Tiling
import ActorIdl.Source
import Mathlib.Data.Prod.Basic
/-! # Positions in a source

    The line and the column of an offset are those behind the text in front of it.  A character
    moves the position forward, be it on its line or to the start of the next one, so positions are
    in the order of the offsets.  The lines of that text, but for the last one, are the first lines
    of the whole text, so the offset can be computed from the position: it is as far behind the
    start of its line as the characters in front of its column are long. -/

namespace ActorIdl

open Text (byteLength dropBytes takeBytes splitOn)
open Lexer (IsBoundary)

/-! ## Counting -/

theorem positionAfter_append (line column : Nat) (as bs : List Char) :
    positionAfter line column (as ++ bs) =
      positionAfter (positionAfter line column as).1 (positionAfter line column as).2 bs := by
  induction as generalizing line column with
  | nil => rfl
  | cons a as ih =>
    rw [List.cons_append, positionAfter, positionAfter]
    split
    · exact ih (line + 1) 1
    · exact ih line (column + 1)

/-- A character moves the position forward. -/
theorem lex_positionAfter_singleton (line column : Nat) (c : Char) :
    Prod.Lex (· < ·) (· < ·) (line, column) (positionAfter line column [c]) := by
  rw [positionAfter]
  split
  · exact .left _ _ (Nat.lt_succ_self line)
  · exact .right _ (Nat.lt_succ_self column)

/-- So does a text that is not empty. -/
theorem lex_positionAfter (line column : Nat) {cs : List Char} (h : cs ≠ []) :
    Prod.Lex (· < ·) (· < ·) (line, column) (positionAfter line column cs) := by
  induction cs generalizing line column with
  | nil => exact absurd rfl h
  | cons c cs ih =>
    have hfirst := lex_positionAfter_singleton line column c
    by_cases hcs : cs = []
    · rw [hcs]
      exact hfirst
    · rw [← List.singleton_append, positionAfter_append]
      exact Prod.Lex.trans hfirst (ih _ _ hcs)

/-- On one line a position moves by a column for each character. -/
theorem positionAfter_of_not_mem (line column : Nat) {cs : List Char} (h : '\n' ∉ cs) :
    positionAfter line column cs = (line, column + cs.length) := by
  induction cs generalizing column with
  | nil => rfl
  | cons c cs ih =>
    have hc : '\n' ≠ c := List.ne_of_not_mem_cons h
    rw [positionAfter, if_neg (Ne.symm hc), ih _ (List.not_mem_of_not_mem_cons h), List.length_cons,
      Nat.add_right_comm, Nat.add_assoc]

/-! ## Whole lines -/

/-- Lines, each with the line feed behind it. -/
def endedLines (ls : List (List Char)) : List Char := ls.flatMap (· ++ ['\n'])

theorem endedLines_cons (l : List Char) (ls : List (List Char)) (cs : List Char) :
    endedLines (l :: ls) ++ cs = l ++ '\n' :: (endedLines ls ++ cs) := by
  simp [endedLines]

/-- Every text is a number of whole lines and the beginning of one. -/
theorem exists_endedLines (cs : List Char) :
    ∃ ls last, cs = endedLines ls ++ last ∧ (∀ l ∈ ls, '\n' ∉ l) ∧ '\n' ∉ last := by
  induction cs with
  | nil => exact ⟨[], [], rfl, by simp, List.not_mem_nil⟩
  | cons c cs ih =>
    obtain ⟨ls, last, rfl, hls, hlast⟩ := ih
    by_cases hc : c = '\n'
    · refine ⟨[] :: ls, last, ?_, List.forall_mem_cons.mpr ⟨List.not_mem_nil, hls⟩, hlast⟩
      rw [endedLines_cons, hc]
      rfl
    · cases ls with
      | nil => exact ⟨[], c :: last, rfl, by simp, List.not_mem_cons_of_ne_of_not_mem (Ne.symm hc) hlast⟩
      | cons l ls =>
        -- the character goes in front of the first line
        obtain ⟨hl, hls⟩ := List.forall_mem_cons.mp hls
        refine ⟨(c :: l) :: ls, last, ?_, List.forall_mem_cons.mpr ⟨?_, hls⟩, hlast⟩
        · rw [endedLines_cons, endedLines_cons]
          rfl
        · exact List.not_mem_cons_of_ne_of_not_mem (Ne.symm hc) hl

/-- Whole lines are counted, and the column is counted on the line that they end before. -/
theorem positionAfter_endedLines (line : Nat) {ls : List (List Char)} {last : List Char}
    (hls : ∀ l ∈ ls, '\n' ∉ l) (hlast : '\n' ∉ last) :
    positionAfter line 1 (endedLines ls ++ last) = (line + ls.length, last.length + 1) := by
  induction ls generalizing line with
  | nil =>
    rw [Nat.add_comm last.length]
    exact positionAfter_of_not_mem line 1 hlast
  | cons l ls ih =>
    obtain ⟨hl, hls⟩ := List.forall_mem_cons.mp hls
    rw [endedLines_cons, positionAfter_append, positionAfter_of_not_mem line 1 hl, positionAfter,
      if_pos rfl, ih _ hls, List.length_cons, Nat.add_right_comm, Nat.add_assoc]

/-- Whole lines at the start of a text are its first parts between line feeds. -/
theorem splitOn_endedLines {ls : List (List Char)} (hls : ∀ l ∈ ls, '\n' ∉ l) (cs : List Char) :
    splitOn '\n' (endedLines ls ++ cs) = ls ++ splitOn '\n' cs := by
  induction ls with
  | nil => rfl
  | cons l ls ih =>
    obtain ⟨hl, hls⟩ := List.forall_mem_cons.mp hls
    rw [endedLines_cons, splitOn_eq, List.splitOn_append_cons_self, List.splitOn_eq_singleton hl,
      ← splitOn_eq, ih hls]
    rfl

/-- The line that begins a text goes on to the first line feed behind it. -/
theorem exists_splitOn_append {l : List Char} (hl : '\n' ∉ l) (cs : List Char) :
    ∃ l' ls, splitOn '\n' (l ++ cs) = (l ++ l') :: ls := by
  obtain ⟨ls, last, rfl, hls, hlast⟩ := exists_endedLines cs
  cases ls with
  | nil =>
    have hwhole : '\n' ∉ l ++ last := fun hmem => (List.mem_append.mp hmem).elim hl hlast
    exact ⟨last, [], by rw [splitOn_eq]; exact List.splitOn_eq_singleton hwhole⟩
  | cons l' ls =>
    obtain ⟨hl', -⟩ := List.forall_mem_cons.mp hls
    have hwhole : '\n' ∉ l ++ l' := fun hmem => (List.mem_append.mp hmem).elim hl hl'
    refine ⟨l', splitOn '\n' (endedLines ls ++ last), ?_⟩
    rw [endedLines_cons, ← List.append_assoc, splitOn_eq, List.splitOn_append_cons_self,
      List.splitOn_eq_singleton hwhole, splitOn_eq]
    rfl

/-! ## Offsets -/

/-- The offset at which a line begins, lines counted from one: behind the lines before it and their
    line feeds. -/
def lineStart (cs : List Char) (line : Nat) : Nat :=
  byteLength (endedLines ((splitOn '\n' cs).take (line - 1)))

/-- A line and a column, both counted from one, stand for an offset: the text has the line, the
    column is one of its characters or just behind them, and the characters in front of it lead from
    the start of the line to the offset. -/
structure StandsFor (cs : List Char) (line column offset : Nat) : Prop where
  line_pos : 1 ≤ line
  column_pos : 1 ≤ column
  in_line : ∃ l, (splitOn '\n' cs)[line - 1]? = some l ∧ column ≤ l.length + 1
  offset_eq : offset = lineStart cs line +
    byteLength ((dropBytes (lineStart cs line) cs).take (column - 1))

theorem lineColumn_byteLength {text : String} {pre : List Char} (h : pre <+: text.toList) :
    lineColumn text (byteLength pre) = positionAfter 1 1 pre := by
  obtain ⟨rest, hrest⟩ := h
  rw [lineColumn, ← hrest, Text.takeBytes_append]

/-- The position behind the beginning of a text stands for the end of that beginning. -/
theorem standsFor_positionAfter (pre rest : List Char) :
    StandsFor (pre ++ rest) (positionAfter 1 1 pre).1 (positionAfter 1 1 pre).2 (byteLength pre) := by
  -- in front of the place are whole lines and the beginning of one more
  obtain ⟨ls, last, rfl, hls, hlast⟩ := exists_endedLines pre
  obtain ⟨l', ls', hline⟩ := exists_splitOn_append hlast rest
  have hparts : splitOn '\n' (endedLines ls ++ last ++ rest) = ls ++ (last ++ l') :: ls' := by
    rw [List.append_assoc, splitOn_endedLines hls, hline]
  have hstart : lineStart (endedLines ls ++ last ++ rest) (1 + ls.length) =
      byteLength (endedLines ls) := by
    rw [lineStart, hparts, Nat.add_sub_cancel_left, List.take_left]
  rw [positionAfter_endedLines 1 hls hlast]
  refine ⟨Nat.le_add_right _ _, Nat.le_add_left _ _, ⟨last ++ l', ?_, ?_⟩, ?_⟩
  · rw [hparts, Nat.add_sub_cancel_left, List.getElem?_append_right (Nat.le_refl _), Nat.sub_self]
    rfl
  · rw [List.length_append]
    exact Nat.succ_le_succ (Nat.le_add_right _ _)
  · dsimp only
    rw [hstart, List.append_assoc, Text.dropBytes_append, Nat.add_sub_cancel, List.take_left,
      Text.byteLength_append]

theorem takeBytes_of_length_le {cs : List Char} {n : Nat} (h : byteLength cs ≤ n) :
    takeBytes n cs = cs := by
  induction cs generalizing n with
  | nil =>
    cases n with
    | zero => rfl
    | succ n => rfl
  | cons c cs ih =>
    rw [byteLength] at h
    obtain ⟨m, rfl⟩ :=
      Nat.exists_eq_add_one.mpr (Nat.lt_of_lt_of_le c.utf8Size_pos (by omega : c.utf8Size ≤ n))
    rw [takeBytes, ih (by omega)]

/-- Of two offsets between characters the smaller one has the position that comes first. -/
theorem lex_lineColumn {text : String} {o₁ o₂ : Nat} (h₁ : IsBoundary text.toList o₁)
    (h₂ : IsBoundary text.toList o₂) (hlt : o₁ < o₂) :
    Prod.Lex (· < ·) (· < ·) (lineColumn text o₁) (lineColumn text o₂) := by
  obtain ⟨pre₁, hpre₁, rfl⟩ := h₁
  obtain ⟨pre₂, hpre₂, rfl⟩ := h₂
  -- two beginnings of one text, and the shorter one is the beginning of the other
  have hpre : pre₁ <+: pre₂ := by
    obtain h | h := List.prefix_or_prefix_of_prefix hpre₁ hpre₂
    · exact h
    · obtain ⟨cs, rfl⟩ := h
      rw [Text.byteLength_append] at hlt
      omega
  obtain ⟨cs, rfl⟩ := hpre
  have hcs : cs ≠ [] := by
    rintro rfl
    rw [List.append_nil] at hlt
    exact absurd hlt (Nat.lt_irrefl _)
  rw [lineColumn_byteLength hpre₁, lineColumn_byteLength hpre₂, positionAfter_append]
  exact lex_positionAfter _ _ hcs

/-- The position of an offset between characters stands for that offset. -/
theorem standsFor_lineColumn {text : String} {o : Nat} (h : IsBoundary text.toList o) :
    StandsFor text.toList (lineColumn text o).1 (lineColumn text o).2 o := by
  obtain ⟨pre, hpre, rfl⟩ := h
  rw [lineColumn_byteLength hpre]
  obtain ⟨rest, hrest⟩ := hpre
  rw [← hrest]
  exact standsFor_positionAfter pre rest

/-- An offset behind the end has the position of the end. -/
theorem lineColumn_of_length_le {text : String} {o : Nat} (h : byteLength text.toList ≤ o) :
    lineColumn text o = lineColumn text (byteLength text.toList) := by
  rw [lineColumn, takeBytes_of_length_le h, lineColumn, takeBytes_of_length_le (Nat.le_refl _)]

/-- Every offset in a file of a build has a position.  Of two offsets between characters the smaller
    one has the position that comes first, by lines and then by columns.  The position of such an
    offset stands for that offset: the text has the line, and the characters in front of the column
    lead from its start to the offset.  An offset behind the end has the position of the end. -/
theorem positions_of_offsets {sources : SourceMap} {file : FileId} {f : SourceFile}
    (hf : sources[file]? = some f) :
    (∀ o, sources.lineColumn? file o = some (lineColumn f.text o)) ∧
    (∀ o₁ o₂, IsBoundary f.text.toList o₁ → IsBoundary f.text.toList o₂ → o₁ < o₂ →
      Prod.Lex (· < ·) (· < ·) (lineColumn f.text o₁) (lineColumn f.text o₂)) ∧
    (∀ o, IsBoundary f.text.toList o →
      StandsFor f.text.toList (lineColumn f.text o).1 (lineColumn f.text o).2 o) ∧
    ∀ o, byteLength f.text.toList ≤ o →
      lineColumn f.text o = lineColumn f.text (byteLength f.text.toList) := by
  refine ⟨fun o => ?_, fun o₁ o₂ h₁ h₂ hlt => lex_lineColumn h₁ h₂ hlt,
    fun o ho => standsFor_lineColumn ho, fun o ho => lineColumn_of_length_le ho⟩
  rw [SourceMap.lineColumn?, hf]
  rfl

/-- A file with a character of two bytes, a carriage return and an empty line. -/
def multibyteFile : SourceFile := ⟨"A.orbit", "é\r\n\nb", none⟩

theorem positions_of_offsets_multibyte :
    [multibyteFile][0]? = some multibyteFile ∧
    SourceMap.lineColumn? [multibyteFile] 0 3 = some (1, 3) ∧
    IsBoundary multibyteFile.text.toList 3 ∧ IsBoundary multibyteFile.text.toList 5 ∧
    Prod.Lex (· < ·) (· < ·) (lineColumn multibyteFile.text 3) (lineColumn multibyteFile.text 5) ∧
    StandsFor multibyteFile.text.toList 3 1 5 ∧
    byteLength multibyteFile.text.toList = 6 ∧ lineColumn multibyteFile.text 9 = (3, 2) := by
  have hreturn : IsBoundary multibyteFile.text.toList 3 := ⟨['é', '\r'], by decide, by decide⟩
  have hlast : IsBoundary multibyteFile.text.toList 5 :=
    ⟨['é', '\r', '\n', '\n'], by decide, by decide⟩
  have hlength : byteLength multibyteFile.text.toList = 6 := by decide
  have hfirst : lineColumn multibyteFile.text 3 = (1, 3) := by decide
  have hthird : lineColumn multibyteFile.text 5 = (3, 1) := by decide
  have hfile : [multibyteFile][0]? = some multibyteFile := rfl
  obtain ⟨hposition, hlex, hstands, hend⟩ := positions_of_offsets hfile
  refine ⟨hfile, ?_, hreturn, hlast, hlex 3 5 hreturn hlast (by decide), ?_, hlength, ?_⟩
  · rw [hposition 3, hfirst]
  · have hstand := hstands 5 hlast
    rwa [hthird] at hstand
  · rw [hend 9 (by rw [hlength]; decide), hlength]
    decide

end ActorIdl
