/-! # Text as characters and UTF-8 bytes

    Sources are read as lists of characters, but every position in them is a byte offset of the
    UTF-8 form.  This module holds the two operations that connect the views, `byteLength` and
    `slice`, and the division of a text into lines. -/

namespace ActorIdl.Text

/-- The number of bytes of the UTF-8 form. -/
def byteLength : List Char → Nat
  | [] => 0
  | c :: cs => c.utf8Size + byteLength cs

/-- The text after its first `n` bytes.  A character that begins before that offset is dropped. -/
def dropBytes : Nat → List Char → List Char
  | 0, cs => cs
  | _ + 1, [] => []
  | n + 1, c :: cs => dropBytes (n + 1 - c.utf8Size) cs

/-- The characters that begin in the first `n` bytes. -/
def takeBytes : Nat → List Char → List Char
  | 0, _ => []
  | _ + 1, [] => []
  | n + 1, c :: cs => c :: takeBytes (n + 1 - c.utf8Size) cs

/-- The characters between two byte offsets. -/
def slice (cs : List Char) (start stop : Nat) : List Char :=
  takeBytes (stop - start) (dropBytes start cs)

/-! ## Lines -/

/-- A line feed ends a line; a carriage return just before it belongs to the line end.  `line` holds
    the characters of the current line, last one first. -/
def linesFrom (line : List Char) : List Char → List (List Char)
  | [] => if line.isEmpty then [] else [line.reverse]
  | c :: cs =>
    if c = '\n' then
      match line with
      | '\r' :: before => before.reverse :: linesFrom [] cs
      | _ => line.reverse :: linesFrom [] cs
    else linesFrom (c :: line) cs

/-- The lines of a text, without their ends.  A text that ends in a line feed has no further empty
    line after it. -/
def lines (cs : List Char) : List (List Char) := linesFrom [] cs

/-- The parts of a text between the occurrences of a separator; one part more than separators. -/
def splitOn (sep : Char) : List Char → List (List Char)
  | [] => [[]]
  | c :: cs =>
    match splitOn sep cs with
    | [] => [[c]]
    | part :: parts => if c = sep then [] :: part :: parts else (c :: part) :: parts

/-- The texts of a list with a separator between neighbours. -/
def joinWith (sep : String) : List String → String
  | [] => ""
  | [s] => s
  | s :: t :: rest => s ++ sep ++ joinWith sep (t :: rest)

end ActorIdl.Text
