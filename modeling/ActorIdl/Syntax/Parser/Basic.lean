import ActorIdl.Syntax.Fault
/-! # Backtracking parsers with one pending fault

    A parser reads tokens from the front of an input and may fail, whereupon another one is tried at
    the same place.  Beside its result it passes on at most one pending fault: the one that lies
    furthest in the input, since that is the one worth reporting if everything fails.  Faults at one
    place are merged.  Neither success nor backtracking clears the pending fault. -/

namespace ActorIdl.Syntax

/-- The tokens still to be read. -/
structure Input where
  /-- The characters of the whole source. -/
  source : List Char
  /-- Where the last token that was read ends; the end of the source before any token was read. -/
  stop : Nat
  rest : List Lexeme
  /-- How many tokens are to be read. -/
  left : Nat
  left_eq : left = rest.length := by rfl

namespace Input

/-- The input before the first token. -/
def start (source : List Char) (lexemes : List Lexeme) : Input :=
  { source, stop := Text.byteLength source, rest := lexemes, left := lexemes.length }

/-- The span of the next token, or the empty span at the end of the source. -/
def nextSpan (i : Input) : Span :=
  match i.rest with
  | [] => ⟨Text.byteLength i.source, Text.byteLength i.source⟩
  | l :: _ => l.span

/-- The next token. -/
def next? (i : Input) : Option Token := i.rest.head?.map (·.token)

end Input

/-- The fault to be reported if parsing fails, and how many tokens come from its place on. -/
structure Pending where
  left : Nat
  fault : SourceFault

/-- Adds a fault at a place to what is pending: the place further on wins. -/
def Pending.add (old : Option Pending) (left : Nat) (new : SourceFault) : Option Pending :=
  match old with
  | none => some ⟨left, new⟩
  | some p =>
    if left < p.left then some ⟨left, new⟩
    else if p.left < left then some p
    else some ⟨left, { p.fault with fault := p.fault.fault.merge new.fault }⟩

/-- A parser takes an input and the pending fault; it yields a value and the input after it, or
    nothing, and in both cases the pending fault. -/
def Parser (α : Type) := Input → Option Pending → Option (α × Input) × Option Pending

namespace Parser

variable {α β : Type}

/-! ## Sequence and choice -/

/-- Reads nothing. -/
def pure (a : α) : Parser α := fun i p => (some (a, i), p)

/-- One parser after the other. -/
def bind (x : Parser α) (f : α → Parser β) : Parser β := fun i p =>
  match x i p with
  | (some (a, j), q) => f a j q
  | (none, q) => (none, q)

/-- The second parser at the same place if the first one fails. -/
def orElse (x : Parser α) (y : Unit → Parser α) : Parser α := fun i p =>
  match x i p with
  | (some r, q) => (some r, q)
  | (none, q) => y () i q

instance : Monad Parser where
  pure := pure
  bind := bind

instance : OrElse (Parser α) := ⟨orElse⟩

/-! ## Tokens -/

/-- Reads one token that `f` accepts; otherwise `what` was expected here. -/
def satisfy (what : Expectation) (f : Lexeme → Option α) : Parser α := fun i p =>
  match h : i.rest.head?.bind f with
  | some a =>
    (some (a, { i with
      stop := i.nextSpan.stop
      rest := i.rest.tail
      left := i.left - 1
      left_eq := by rw [i.left_eq, List.length_tail] }), p)
  | none => (none, Pending.add p i.left ⟨.unexpected i.next? [what], i.nextSpan⟩)

/-- Reads a reserved word. -/
def keyword (k : Keyword) : Parser Unit :=
  satisfy (.keyword k) fun l => if l.token = .keyword k then some () else none

/-- Reads a punctuation mark. -/
def symbol (s : Symbol) : Parser Unit :=
  satisfy (.symbol s) fun l => if l.token = .symbol s then some () else none

/-- Succeeds at the end of the input only. -/
def endOfInput : Parser Unit := fun i p =>
  match i.rest with
  | [] => (some ((), i), p)
  | _ :: _ => (none, Pending.add p i.left ⟨.unexpected i.next? [.endOfInput], i.nextSpan⟩)

/-! ## Repetition -/

/-- The value of a parser, or nothing read if it fails. -/
def optional (x : Parser α) : Parser (Option α) :=
  (do let a ← x; return some a) <|> pure none

/-- A parser at most `n` times in a row, up to its first failure. -/
def atMost (x : Parser α) : Nat → Parser (List α)
  | 0 => pure []
  | n + 1 => (do let a ← x; let as ← atMost x n; return a :: as) <|> pure []

/-- A parser as often as it succeeds.  One that reads a token each time does so at most once a
    token, and fails after that. -/
def many (x : Parser α) : Parser (List α) := fun i => atMost x (i.left + 1) i

/-- One or more values with a separator between them.  A separator without a value after it is left
    in the input. -/
def sepBy1 (x : Parser α) (sep : Parser Unit) : Parser (List α) := do
  let a ← x
  let as ← many (do sep; x)
  return a :: as

/-- Any number of values with a separator between them. -/
def sepBy (x : Parser α) (sep : Parser Unit) : Parser (List α) := sepBy1 x sep <|> pure []

/-- A parser between two punctuation marks. -/
def between (left right : Symbol) (x : Parser α) : Parser α := do
  symbol left
  let a ← x
  symbol right
  return a

/-! ## Spans -/

/-- A value and the span of the tokens that it was read from. -/
def spanned (x : Parser α) : Parser (α × Span) := fun i p =>
  match x i p with
  | (some (a, j), q) => (some ((a, ⟨i.nextSpan.start, j.stop⟩), j), q)
  | (none, q) => (none, q)

/-- The source text between two offsets. -/
def sourceText (span : Span) : Parser String := fun i p =>
  (some (String.ofList (Text.slice i.source span.start span.stop), i), p)

/-- Reads with no fault pending and checks the value.  A fault left over from a successful reading
    counts as one at its start, and so does a fault that the check finds; after a failed reading
    what was pending before is forgotten. -/
def checked (x : Parser α) (check : α → Except Fault β) (spanOf : α → Span) : Parser β := fun i p =>
  match x i none with
  | (none, q) => (none, q)
  | (some (a, j), q) =>
    match check a with
    | .ok b => (some (b, j), match q with
        | none => p
        | some inner => Pending.add p i.left inner.fault)
    | .error fault => (none, Pending.add p i.left ⟨fault, spanOf a⟩)

end Parser

end ActorIdl.Syntax
