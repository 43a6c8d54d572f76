/-!
# Character classes of the source text

A script is read character by character. Every class below is exact on ASCII; of the other
characters only the no-break space, the byte order mark and the two Unicode line terminators are
told apart, and any further one counts as a letter of an identifier.
-/

namespace ScriptMin.Source

/-- The four characters that end a line. -/
def isLineTerminator (c : Char) : Bool :=
  c == '\n' || c == '\r' || c == '\u2028' || c == '\u2029'

/-- White space that stays on its line: tab, vertical tab, form feed, space, the no-break space and
the byte order mark. -/
def isBlank (c : Char) : Bool :=
  c == '\t' || c == '\x0b' || c == '\x0c' || c == ' ' || c == '\u00a0' || c == '\ufeff'

/-- A character that separates tokens: a blank or the end of a line. -/
def isSpace (c : Char) : Bool :=
  isBlank c || isLineTerminator c

def isAscii (c : Char) : Bool :=
  c.toNat < 128

/-- The ASCII characters that can start an identifier: the letters, `_` and `$`. -/
def isIdentifierStart (c : Char) : Bool :=
  c.isAlpha || c == '_' || c == '$'

/-- The ASCII characters that can go on an identifier: those that start one, and the digits. -/
def isIdentifierPart (c : Char) : Bool :=
  isIdentifierStart c || c.isDigit

/-- Whether `c` goes on a word that stands before it. A character outside ASCII does unless it
separates tokens. -/
def continuesWord (c : Char) : Bool :=
  if isAscii c then isIdentifierPart c else !isSpace c

/-- The value of a digit in a base of at most sixteen, if `c` is a digit of that base. -/
def digitValue? (base : Nat) (c : Char) : Option Nat :=
  let value :=
    if c.isDigit then c.toNat - '0'.toNat
    else if 'a' ≤ c ∧ c ≤ 'f' then c.toNat - 'a'.toNat + 10
    else if 'A' ≤ c ∧ c ≤ 'F' then c.toNat - 'A'.toNat + 10
    else 16
  if value < base then some value else none

/-- A digit of `base`, or the underscore that may separate two digits. -/
def isDigitOrSeparator (base : Nat) (c : Char) : Bool :=
  (digitValue? base c).isSome || c == '_'

/-- A plain identifier name: an ASCII identifier that can stand after a dot or as a bare key. -/
def isIdentifierName (name : List Char) : Bool :=
  match name with
  | [] => false
  | c :: rest => isIdentifierStart c && rest.all isIdentifierPart

/-- A decimal integer as it is written without a redundant zero, short enough to be exact. -/
def isCanonicalIndex (name : List Char) : Bool :=
  !name.isEmpty && name.length < 16 && name.all Char.isDigit &&
    (name.head? != some '0' || name.length == 1)

end ScriptMin.Source
