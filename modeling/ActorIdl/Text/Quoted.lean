import ActorIdl.Text.Printable
/-! # Quoted text in messages

    A text is shown between double quotes.  Quotes, backslashes and the usual control characters
    have short escapes; every other character that a message cannot show by itself is written by its
    code point. -/

namespace ActorIdl.Text.Quoted

/-- The hexadecimal digits of a number, in lower case and without leading zeros. -/
def hexDigits (n : Nat) : List Char := Nat.toDigits 16 n

/-- One character of a quoted text. -/
def encodeChar (c : Char) : List Char :=
  if c = '"' then ['\\', '"']
  else if c = '\\' then ['\\', '\\']
  else if c = '\n' then ['\\', 'n']
  else if c = '\r' then ['\\', 'r']
  else if c = '\t' then ['\\', 't']
  else if c.toNat = 0 then ['\\', '0']
  else if isPrintable c then [c]
  else ['\\', 'u', '{'] ++ hexDigits c.toNat ++ ['}']

/-- A text between quotes. -/
def encode (cs : List Char) : String :=
  String.ofList ('"' :: cs.flatMap encodeChar ++ ['"'])

end ActorIdl.Text.Quoted
