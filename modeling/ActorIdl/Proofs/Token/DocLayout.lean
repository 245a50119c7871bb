import ActorIdl.Proofs.Text.Lines
import ActorIdl.Proofs.Token.Pieces
/-! # Doc comments in any layout

    The lines of a text can be laid out in a doc comment in many ways: each has an indentation of
    its own, a star and a space in front of it, and ends in a line feed or in a carriage return and
    a line feed.  The lexer takes all this off again.  It takes off no more than that, so lines that
    begin with white space or with a star keep it. -/

namespace ActorIdl

namespace DocComment

open Lexer (Apart)
open Text (StartsPlain EndsPlain LineEnd isBlank byteLength)

/-! ## Comments and their layout -/

/-- A line of a doc comment: what stands in front of its star, the star with what belongs to it,
    what the line says, and how it ends. -/
structure CommentLine where
  indent : List Char
  gutter : List Char
  text : List Char
  ending : LineEnd

/-- What a line is apart from its end. -/
def CommentLine.front (l : CommentLine) : List Char := l.indent ++ (l.gutter ++ l.text)

/-- The whole line. -/
def CommentLine.written (l : CommentLine) : List Char := l.front ++ l.ending.chars

/-- White space within a line. -/
def IsIndent (cs : List Char) : Prop := ∀ c ∈ cs, isBlank c = true ∧ c ≠ '\n'

/-- A line of a text that does not end in white space, behind a star and a space.  If it is empty
    the star is enough. -/
structure CommentLine.IsLaid (l : CommentLine) : Prop where
  indent : IsIndent l.indent
  gutter : l.gutter = ['*', ' '] ∨ l.gutter = ['*'] ∧ l.text = []
  line : '\n' ∉ l.text
  ends : EndsPlain l.text
  apart : l.text.IsChain Apart

instance (cs : List Char) : Decidable (IsIndent cs) :=
  decidable_of_iff (cs.all (fun c => isBlank c && c != '\n') = true) (by simp [IsIndent])

instance (l : CommentLine) : Decidable l.IsLaid :=
  decidable_of_iff (IsIndent l.indent ∧ (l.gutter = ['*', ' '] ∨ l.gutter = ['*'] ∧ l.text = []) ∧
      '\n' ∉ l.text ∧ EndsPlain l.text ∧ l.text.IsChain Apart)
    ⟨fun h => ⟨h.1, h.2.1, h.2.2.1, h.2.2.2.1, h.2.2.2.2⟩,
      fun h => ⟨h.indent, h.gutter, h.line, h.ends, h.apart⟩⟩

/-- A doc comment: the end of its first line, which says nothing, its further lines, and what stands
    in front of its end. -/
structure Layout where
  opening : LineEnd
  lines : List CommentLine
  indent : List Char

namespace Layout

/-- What stands between the first two stars and the end. -/
def inside (x : Layout) : List Char :=
  x.opening.chars ++ (x.lines.flatMap CommentLine.written ++ x.indent)

/-- The whole comment. -/
def written (x : Layout) : List Char := '/' :: '*' :: '*' :: (x.inside ++ ['*', '/'])

/-- What the comment says: its lines with line feeds between them. -/
def text (x : Layout) : List Char := List.intercalate ['\n'] (x.lines.map (·.text))

/-- All lines are laid out, and so is the end. -/
structure IsLaid (x : Layout) : Prop where
  lines : ∀ l ∈ x.lines, l.IsLaid
  indent : IsIndent x.indent

instance (x : Layout) : Decidable x.IsLaid :=
  decidable_of_iff ((∀ l ∈ x.lines, l.IsLaid) ∧ IsIndent x.indent)
    ⟨fun h => ⟨h.1, h.2⟩, fun h => ⟨h.lines, h.indent⟩⟩

end Layout

/-! ## Taking off the layout -/

namespace CommentLine.IsLaid

variable {l : CommentLine}

theorem gutter_eq_cons (h : l.IsLaid) : ∃ cs, l.gutter ++ l.text = '*' :: cs := by
  obtain hgutter | ⟨hgutter, -⟩ := h.gutter
  · exact ⟨' ' :: l.text, by rw [hgutter]; rfl⟩
  · exact ⟨l.text, by rw [hgutter]; rfl⟩

/-- Indentation and gutter go, and nothing else. -/
theorem cleanLine_front (h : l.IsLaid) : cleanLine l.front = l.text := by
  have hindent := Text.trimStart_append (fun c hc => (h.indent c hc).1) (l.gutter ++ l.text)
  have hstar : StartsPlain (l.gutter ++ l.text) := by
    obtain ⟨cs, hcs⟩ := h.gutter_eq_cons
    rw [hcs]
    intro c hc
    cases hc
    decide
  rw [cleanLine, front, hindent, Text.trimStart_eq_self hstar]
  obtain hgutter | ⟨hgutter, htext⟩ := h.gutter
  · show Text.trimEnd (dropOne ' ' (dropOne '*' (l.gutter ++ l.text))) = _
    rw [hgutter]
    exact Text.trimEnd_eq_self h.ends
  · rw [hgutter, htext]
    rfl

theorem newline_not_mem_front (h : l.IsLaid) : '\n' ∉ l.front := by
  have hgutter : '\n' ∉ l.gutter := by
    obtain hgutter | ⟨hgutter, -⟩ := h.gutter
    · rw [hgutter]
      decide
    · rw [hgutter]
      decide
  rw [front, List.mem_append, List.mem_append, not_or, not_or]
  exact ⟨fun hmem => (h.indent _ hmem).2 rfl, hgutter, h.line⟩

/-- The last character in front of the end of a line is that of the gutter or of the text. -/
theorem getLast?_front (h : l.IsLaid) : l.front.getLast? ≠ some '\r' := by
  rw [front, List.getLast?_append]
  cases hlast : l.text.getLast? with
  | some c =>
    have hne : c ≠ '\r' := by
      rintro rfl
      exact absurd (h.ends _ hlast) (by decide)
    simpa [List.getLast?_append, hlast] using hne
  | none =>
    rw [List.getLast?_eq_none_iff.mp hlast, List.append_nil]
    obtain hgutter | ⟨hgutter, -⟩ := h.gutter
    · simp [hgutter]
    · simp [hgutter]

end CommentLine.IsLaid

namespace Layout

variable {x : Layout}

theorem lines_written {ls : List CommentLine} (h : ∀ l ∈ ls, l.IsLaid) (rest : List Char) :
    Text.lines (ls.flatMap CommentLine.written ++ rest) = ls.map (·.front) ++ Text.lines rest := by
  induction ls with
  | nil => rfl
  | cons l ls ih =>
    obtain ⟨hl, hls⟩ := List.forall_mem_cons.mp h
    rw [List.flatMap_cons, CommentLine.written, List.append_assoc, List.append_assoc,
      Text.lines_append hl.newline_not_mem_front hl.getLast?_front, ih hls]
    rfl

/-- White space in front of the end of a comment is at most one more line, and an empty one. -/
theorem cleanLines_indent {cs : List Char} (h : IsIndent cs) :
    (Text.lines cs).map cleanLine = [] ∨ (Text.lines cs).map cleanLine = [[]] := by
  by_cases hcs : cs = []
  · rw [hcs]
    exact .inl rfl
  · have hline : Text.lines cs = [cs] :=
      Text.linesFrom_of_not_mem (fun hmem => (h _ hmem).2 rfl) hcs
    have hblank : Text.trimStart cs = [] := by
      have happend := Text.trimStart_append (fun c hc => (h c hc).1) []
      rwa [List.append_nil] at happend
    rw [hline, List.map_singleton, cleanLine, hblank]
    exact .inr rfl

theorem IsLaid.cleanLines (h : x.IsLaid) : (Text.lines x.inside).map cleanLine =
    [] :: (x.lines.map (·.text) ++ (Text.lines x.indent).map cleanLine) := by
  have hlines : Text.lines x.inside = [] :: Text.lines (x.lines.flatMap CommentLine.written ++ x.indent) :=
    Text.lines_append List.not_mem_nil (by simp) x.opening _
  have hfronts : (x.lines.map (·.front)).map cleanLine = x.lines.map (·.text) := by
    rw [List.map_map]
    exact List.map_congr_left fun l hl => (h.lines l hl).cleanLine_front
  rw [hlines, lines_written h.lines, List.map_cons, List.map_append, hfronts]
  rfl

/-- The lexer makes of a comment what it says, provided that this begins and ends with a character
    that is not blank. -/
theorem IsLaid.clean_inside (h : x.IsLaid) (hstart : StartsPlain x.text) (hend : EndsPlain x.text) :
    clean x.inside = x.text := by
  rw [clean, h.cleanLines]
  by_cases hnil : x.lines = []
  · -- a comment without lines
    have htext : x.text = [] := by
      rw [text, hnil]
      rfl
    rw [htext, hnil]
    obtain hindent | hindent := cleanLines_indent h.indent
    · rw [hindent]
      rfl
    · rw [hindent]
      decide
  · have hne : x.lines.map (·.text) ≠ [] := fun hmap => hnil (List.map_eq_nil_iff.mp hmap)
    have hblank : ∀ c ∈ ['\n'], isBlank c = true := List.forall_mem_singleton.mpr (by decide)
    rw [List.intercalate_cons_of_ne_nil (by simp [hnil])]
    obtain hindent | hindent := cleanLines_indent h.indent
    · rw [hindent, List.append_nil]
      have hframed := Text.trim_between hblank (fun c hc => absurd hc List.not_mem_nil) hstart hend
      rwa [List.append_nil] at hframed
    · rw [hindent, Text.intercalate_concat hne]
      exact Text.trim_between hblank hblank hstart hend

end Layout

/-! ## Finding the end -/

/-- Two texts without an end of a comment have none between them if the first one does not end with
    a star or the second one does not begin with a slash. -/
theorem isChain_append {as bs : List Char} (has : as.IsChain Apart) (hbs : bs.IsChain Apart)
    (hmeet : (∀ c ∈ as.getLast?, c ≠ '*') ∨ ∀ d ∈ bs.head?, d ≠ '/') : (as ++ bs).IsChain Apart := by
  refine List.isChain_append.mpr ⟨has, hbs, fun c hc d hd hclose => ?_⟩
  obtain hstar | hslash := hmeet
  · exact hstar c hc hclose.1
  · exact hslash d hd hclose.2

theorem isChain_of_not_mem {cs : List Char} (h : '*' ∉ cs) : cs.IsChain Apart := by
  refine List.Pairwise.isChain (List.pairwise_of_forall_mem_list fun c hc d _ hclose => ?_)
  exact h (hclose.1 ▸ hc)

theorem IsIndent.star_not_mem {cs : List Char} (h : IsIndent cs) : '*' ∉ cs :=
  fun hmem => absurd (h _ hmem).1 (by decide)

/-- No comment ends where a line ends. -/
theorem isChain_chars_append {as bs : List Char} (has : as.IsChain Apart) (ending : LineEnd)
    (hbs : bs.IsChain Apart) : (as ++ (ending.chars ++ bs)).IsChain Apart := by
  have hchars : '*' ∉ ending.chars ∧ ∃ c cs, ending.chars = c :: cs ∧ c ≠ '/' := by
    cases ending with
    | feed => exact ⟨by decide, '\n', [], rfl, by decide⟩
    | returnFeed => exact ⟨by decide, '\r', ['\n'], rfl, by decide⟩
  obtain ⟨hstar, c, cs, hcons, hslash⟩ := hchars
  have hends : ∀ d ∈ ending.chars.getLast?, d ≠ '*' := by
    rintro d hd rfl
    exact hstar (List.mem_of_getLast? hd)
  refine isChain_append has (isChain_append (isChain_of_not_mem hstar) hbs (.inl hends)) (.inr ?_)
  intro d hd
  rw [hcons] at hd
  cases hd
  exact hslash

theorem CommentLine.IsLaid.isChain_front {l : CommentLine} (h : l.IsLaid) :
    l.front.IsChain Apart := by
  have hgutter : (l.gutter ++ l.text).IsChain Apart := by
    obtain hgutter | ⟨hgutter, htext⟩ := h.gutter
    · -- the space keeps the star and the text apart
      have hspace : ['*', ' '].IsChain Apart := by decide
      rw [hgutter]
      refine isChain_append hspace h.apart (.inl fun c hc => ?_)
      cases hc
      decide
    · rw [hgutter, htext]
      exact .singleton _
  refine isChain_append (isChain_of_not_mem h.indent.star_not_mem) hgutter (.inl ?_)
  rintro c hc rfl
  exact h.indent.star_not_mem (List.mem_of_getLast? hc)

namespace Layout

variable {x : Layout}

theorem isChain_written {ls : List CommentLine} (h : ∀ l ∈ ls, l.IsLaid) {rest : List Char}
    (hrest : rest.IsChain Apart) : (ls.flatMap CommentLine.written ++ rest).IsChain Apart := by
  induction ls with
  | nil => exact hrest
  | cons l ls ih =>
    obtain ⟨hl, hls⟩ := List.forall_mem_cons.mp h
    rw [List.flatMap_cons, CommentLine.written, List.append_assoc, List.append_assoc]
    exact isChain_chars_append hl.isChain_front l.ending (ih hls)

theorem IsLaid.isChain_inside (h : x.IsLaid) : ('*' :: x.inside).IsChain Apart :=
  isChain_chars_append (.singleton '*') x.opening
    (isChain_written h.lines (isChain_of_not_mem h.indent.star_not_mem))

end Layout

end DocComment

/-! ## Lexing -/

namespace Lexer

open Text (byteLength)

/-- A comment that begins with two stars goes up to its first end. -/
theorem lexFrom_docComment (pos : Nat) {body : List Char} (h : ('*' :: body).IsChain Apart)
    (rest : List Char) : lexFrom pos ('/' :: '*' :: '*' :: (body ++ ['*', '/']) ++ rest) =
      (Piece.token (.doc (String.ofList (DocComment.clean body)))).before
        ⟨pos, pos + byteLength ('/' :: '*' :: '*' :: (body ++ ['*', '/']))⟩
        (lexFrom (pos + byteLength ('/' :: '*' :: '*' :: (body ++ ['*', '/']))) rest) := by
  have hscan := (Finds.docComment rfl rfl (commentBody_closed h rest)).scan_eq
  have hlength : body.length + 4 = ('*' :: '*' :: (body ++ ['*', '/'])).length := by simp
  rw [hlength] at hscan
  exact lexFrom_piece hscan

end Lexer

namespace DocComment.Layout

open Lexer (lexFrom)
open Text (StartsPlain EndsPlain byteLength)

variable {x : Layout}

/-- A comment is lexed into what it says wherever it stands. -/
theorem IsLaid.lexFrom_written (h : x.IsLaid) (hstart : StartsPlain x.text) (hend : EndsPlain x.text)
    (pos : Nat) (rest : List Char) : lexFrom pos (x.written ++ rest) =
      (Lexer.Piece.token (.doc (String.ofList x.text))).before ⟨pos, pos + byteLength x.written⟩
        (lexFrom (pos + byteLength x.written) rest) := by
  have hlex := Lexer.lexFrom_docComment pos h.isChain_inside rest
  rwa [h.clean_inside hstart hend] at hlex

/-! ### From the lines of the text -/

theorem startsPlain_intercalate {ls : List (List Char)}
    (h : ∀ l ∈ ls.head?, l ≠ [] ∧ StartsPlain l) : StartsPlain (List.intercalate ['\n'] ls) := by
  cases ls with
  | nil => exact fun c hc => by cases hc
  | cons l ls =>
    obtain ⟨hne, hplain⟩ := h l rfl
    obtain ⟨c, cs, rfl⟩ := List.exists_cons_of_ne_nil hne
    by_cases hnil : ls = []
    · rw [hnil, List.intercalate_singleton]
      exact hplain
    · rw [List.intercalate_cons_of_ne_nil hnil]
      exact hplain

theorem endsPlain_intercalate {ls : List (List Char)} (hne : ∀ l ∈ ls.getLast?, l ≠ [])
    (hends : ∀ l ∈ ls, EndsPlain l) : EndsPlain (List.intercalate ['\n'] ls) := by
  induction ls using List.reverseRecOn with
  | nil => exact fun c hc => by cases hc
  | append_singleton ls l _ =>
    have hl : l ≠ [] := hne l (by simp)
    have hlast := hends l (by simp)
    by_cases hnil : ls = []
    · rw [hnil, List.nil_append, List.intercalate_singleton]
      exact hlast
    · rw [Text.intercalate_concat hnil, List.append_cons]
      exact hlast.append hl _

/-- Lines without an end of a comment and without white space at their ends, of which the first one
    begins with a character that is not blank and the last one is not empty, are laid out in a doc
    comment.  Whatever white space stands in front of their stars, whether an empty line has a space
    behind its star, and however they end, the comment is lexed as one token, its text is the lines
    with line feeds between them, and no error is found; and so it is wherever the comment
    stands. -/
theorem lex_written (h : x.IsLaid)
    (hfirst : ∀ l ∈ x.lines.head?, l.text ≠ [] ∧ StartsPlain l.text)
    (hlast : ∀ l ∈ x.lines.getLast?, l.text ≠ []) :
    lex (String.ofList x.written) =
      ⟨[⟨.doc (String.ofList x.text), ⟨0, byteLength x.written⟩⟩], []⟩ ∧
    ∀ (pos : Nat) (rest : List Char), lexFrom pos (x.written ++ rest) =
      (Lexer.Piece.token (.doc (String.ofList x.text))).before ⟨pos, pos + byteLength x.written⟩
        (lexFrom (pos + byteLength x.written) rest) := by
  have hstart : StartsPlain x.text := by
    refine startsPlain_intercalate fun text htext => ?_
    rw [List.head?_map] at htext
    obtain ⟨l, hl, rfl⟩ := Option.map_eq_some_iff.mp htext
    exact hfirst l hl
  have hend : EndsPlain x.text := by
    refine endsPlain_intercalate (fun text htext => ?_) fun text htext => ?_
    · rw [List.getLast?_map] at htext
      obtain ⟨l, hl, rfl⟩ := Option.map_eq_some_iff.mp htext
      exact hlast l hl
    · obtain ⟨l, hl, rfl⟩ := List.mem_map.mp htext
      exact (h.lines l hl).ends
  have hlex := h.lexFrom_written hstart hend
  refine ⟨?_, hlex⟩
  have hwhole := hlex 0 []
  rw [List.append_nil, Nat.zero_add, lexFrom] at hwhole
  rw [lex, String.toList_ofList, hwhole]
  rfl

/-- Two paragraphs and an item of a list, with all kinds of indentation and line ends. -/
def paragraphs : Layout :=
  ⟨.returnFeed,
    [⟨[' '], ['*', ' '], "Says \"é\".".toList, .feed⟩, ⟨['\t', ' '], ['*'], [], .returnFeed⟩,
      ⟨[], ['*', ' '], "  * twice /".toList, .feed⟩],
    ['\x0c']⟩

theorem lex_written_paragraphs :
    paragraphs.IsLaid ∧
    (∀ l ∈ paragraphs.lines.head?, l.text ≠ [] ∧ StartsPlain l.text) ∧
    (∀ l ∈ paragraphs.lines.getLast?, l.text ≠ []) ∧
    lex "/**\r\n * Says \"é\".\n\t *\r\n*   * twice /\n\x0c*/" =
      ⟨[⟨.doc "Says \"é\".\n\n  * twice /", ⟨0, 41⟩⟩], []⟩ := by
  have hlaid : paragraphs.IsLaid := by decide
  have hfirst : ∀ l ∈ paragraphs.lines.head?, l.text ≠ [] ∧ StartsPlain l.text := by decide
  have hlast : ∀ l ∈ paragraphs.lines.getLast?, l.text ≠ [] := by decide
  have hwritten : String.ofList paragraphs.written =
      "/**\r\n * Says \"é\".\n\t *\r\n*   * twice /\n\x0c*/" := by decide
  have htext : String.ofList paragraphs.text = "Says \"é\".\n\n  * twice /" := by decide
  have hlength : byteLength paragraphs.written = 41 := by decide
  refine ⟨hlaid, hfirst, hlast, ?_⟩
  rw [← hwritten, ← htext, ← hlength]
  exact (lex_written hlaid hfirst hlast).1

end DocComment.Layout

end ActorIdl
