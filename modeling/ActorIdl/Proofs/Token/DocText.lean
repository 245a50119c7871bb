import ActorIdl.Proofs.Token.DocLayout
import ActorIdl.Proofs.Token.Relexing
/-! # The text of a doc comment and its canonical comment

    The text that the lexer makes of a doc comment begins and ends with a character that is not
    blank, its lines do not end in white space, and it has no end of a comment in it.  Every text of
    this kind can be written as a comment of its own, with a line of the comment for each line of
    the text, and is the text that the lexer makes of that comment. -/

namespace ActorIdl

namespace DocComment

open Lexer (Apart)
open Text (StartsPlain EndsPlain Tidy)

variable {text body : List Char}

/-! ## What the lexer makes of a comment -/

/-- A text that can be the text of a doc comment. -/
structure IsDocText (text : List Char) : Prop where
  starts : StartsPlain text
  ends : EndsPlain text
  tidy : text.IsChain Tidy
  apart : text.IsChain Apart

theorem isChain_of_isInfix {R : Char → Char → Prop} {cs : List Char} (h : cs.IsChain R)
    (hpart : text <:+: cs) : text.IsChain R := by
  obtain ⟨before, behind, rfl⟩ := hpart
  exact (List.isChain_append.mp (List.isChain_append.mp h).1).2.1

theorem dropOne_isSuffix (c : Char) (cs : List Char) : dropOne c cs <:+ cs := by
  cases cs with
  | nil => exact List.suffix_refl _
  | cons d cs =>
    rw [dropOne]
    split
    · exact List.suffix_cons d cs
    · exact List.suffix_refl _

theorem cleanLine_isInfix (line : List Char) : cleanLine line <:+: line := by
  refine (Text.trimEnd_isPrefix _).isInfix.trans ?_
  exact ((dropOne_isSuffix ' ' _).trans ((dropOne_isSuffix '*' _).trans
    (List.dropWhile_suffix Text.isBlank))).isInfix

theorem apart_newline (c : Char) : Apart c '\n' := fun h => by cases h.2

/-- The text of a comment without an end in it. -/
theorem isDocText_clean (h : body.IsChain Apart) : IsDocText (clean body) := by
  have hline : ∀ l ∈ (Text.lines body).map cleanLine,
      '\n' ∉ l ∧ EndsPlain l ∧ l.IsChain Apart := by
    intro l hl
    obtain ⟨line, hline, rfl⟩ := List.mem_map.mp hl
    have hnewline := Text.not_mem_of_mem_linesFrom List.not_mem_nil hline
    have hbody := (cleanLine_isInfix line).trans (Text.isInfix_of_mem_linesFrom hline)
    exact ⟨fun hmem => hnewline ((cleanLine_isInfix line).subset hmem), Text.endsPlain_trimEnd _,
      isChain_of_isInfix h hbody⟩
  have hapart : (List.intercalate ['\n'] ((Text.lines body).map cleanLine)).IsChain Apart := by
    refine Text.isChain_intercalate (fun l hl => (hline l hl).2.2) (fun _ _ c _ => apart_newline c) ?_
    exact fun d hstar => by cases hstar.1
  have htidy : (List.intercalate ['\n'] ((Text.lines body).map cleanLine)).IsChain Tidy := by
    refine Text.isChain_intercalate (fun l hl => ?_) (fun l hl c hc _ => ?_) fun d _ => .inl rfl
    · -- within a line there is no line feed
      refine List.Pairwise.isChain (List.pairwise_of_forall_mem_list fun c _ d hd hnewline => ?_)
      exact absurd (hnewline ▸ hd) (hline l hl).1
    · exact .inr ((hline l hl).2.1 c hc)
  exact ⟨Text.startsPlain_trim _, Text.endsPlain_trimEnd _,
    isChain_of_isInfix htidy (Text.trim_isInfix _), isChain_of_isInfix hapart (Text.trim_isInfix _)⟩

/-! ## The canonical comment -/

/-- A line of a doc comment. -/
def marginLine (line : List Char) : List Char := ' ' :: '*' :: ' ' :: line

/-- What stands between the first two stars of a doc comment and its end. -/
def lined (text : List Char) : List Char :=
  '\n' :: ((Text.lines text).flatMap (fun line => marginLine line ++ ['\n']) ++ [' '])

/-- A doc comment with a line for each line of its text. -/
def written (text : List Char) : List Char :=
  '/' :: '*' :: '*' :: (lined text ++ ['*', '/'])

/-- The canonical comment as a layout. -/
def canonical (text : List Char) : Layout :=
  ⟨.feed, (Text.lines text).map fun line => ⟨[' '], ['*', ' '], line, .feed⟩, [' ']⟩

theorem written_canonical (text : List Char) : (canonical text).written = written text := by
  have hinside : (canonical text).inside = lined text := by
    rw [Layout.inside, canonical, List.flatMap_map]
    rfl
  rw [Layout.written, hinside, written]

theorem text_canonical (h : IsDocText text) : (canonical text).text = text := by
  have hlines : (canonical text).lines.map (·.text) = Text.lines text := by
    rw [canonical, List.map_map]
    exact List.map_id _
  rw [Layout.text, hlines]
  exact Text.intercalate_linesFrom h.tidy h.ends

theorem isLaid_canonical (h : IsDocText text) : (canonical text).IsLaid := by
  have hindent : IsIndent [' '] := by decide
  refine ⟨fun l hl => ?_, hindent⟩
  obtain ⟨line, hline, rfl⟩ := List.mem_map.mp hl
  have hinfix := Text.isInfix_of_mem_linesFrom hline
  exact ⟨hindent, .inl rfl, Text.not_mem_of_mem_linesFrom List.not_mem_nil hline,
    @Text.endsPlain_of_mem_linesFrom [] text _ h.tidy h.ends List.not_mem_nil hline,
    isChain_of_isInfix h.apart hinfix⟩

/-- The canonical comment of a text is lexed into the text in every place. -/
theorem cutsInto_written (h : IsDocText text) :
    Lexer.CutsInto (written text) [.doc (String.ofList text)] := by
  intro pos rest _
  have htext := text_canonical h
  have hstart : StartsPlain (canonical text).text := by
    rw [htext]
    exact h.starts
  have hend : EndsPlain (canonical text).text := by
    rw [htext]
    exact h.ends
  have hlex := (isLaid_canonical h).lexFrom_written hstart hend pos rest
  rw [htext, written_canonical] at hlex
  exact ⟨[⟨.doc (String.ofList text), ⟨pos, _⟩⟩], rfl, rfl, hlex⟩

end DocComment

end ActorIdl
