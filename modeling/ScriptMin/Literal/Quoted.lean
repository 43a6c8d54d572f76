import ScriptMin.Source.Character

/-!
# Writing a string literal

A string is written between the quotes that need fewer escapes inside it, double quotes if both need
as many. What cannot stand in a literal, or would not survive a file, is escaped.
-/

namespace ScriptMin.Literal

/-- Two hexadecimal digits. -/
def twoHexDigits (n : Nat) : List Char :=
  [Nat.digitChar (n / 16), Nat.digitChar (n % 16)]

/-- The quote around a string: the one that occurs less often in it. -/
def quoteFor (value : List Char) : Char :=
  if value.count '\x27' < value.count '\x22' then '\x27' else '\x22'

/-- How one character is written between two others. A slash after `<` is escaped, and a null has
its short form only where no digit follows. -/
def escapeChar (quote : Char) (before after : Option Char) (c : Char) : List Char :=
  match c with
  | '\\' => ['\\', '\\']
  | '\n' => ['\\', 'n']
  | '\r' => ['\\', 'r']
  | '\x08' => ['\\', 'b']
  | '\x0b' => ['\\', 'v']
  | '\x0c' => ['\\', 'f']
  | '\u2028' => ['\\', 'u', '2', '0', '2', '8']
  | '\u2029' => ['\\', 'u', '2', '0', '2', '9']
  | '\ufeff' => ['\\', 'u', 'f', 'e', 'f', 'f']
  | '\x00' =>
    if after.any Char.isDigit then ['\\', 'x', '0', '0'] else ['\\', '0']
  | c =>
    if c == '/' && before == some '<' then ['\\', '/']
    else if c == quote then ['\\', c]
    else if c < ' ' && c != '\t' then '\\' :: 'x' :: twoHexDigits c.toNat
    else [c]

/-- The characters of a literal between its quotes. -/
def quotedFrom (quote : Char) (before : Option Char) : List Char → List Char
  | [] => []
  | c :: rest => escapeChar quote before rest.head? c ++ quotedFrom quote (some c) rest

/-- A string as a literal. -/
def quoted (value : List Char) : List Char :=
  let quote := quoteFor value
  quote :: (quotedFrom quote none value ++ [quote])

end ScriptMin.Literal
