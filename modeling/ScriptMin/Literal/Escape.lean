import ScriptMin.Source.Character

/-!
# The value of a string literal

The text between the quotes is read in two steps. `codes?` replaces each escape by the code it
stands for, and `assemble` turns codes into characters: a high surrogate and the low one after it
make one character. A surrogate without its partner is no character; the literal is then not
*representable*, and what is left out is only the surrogate.
-/

namespace ScriptMin.Literal

open ScriptMin.Source

/-- The number of up to `limit` octal digits at the start of the text, after `value`. -/
def octalTail (value : Nat) : Nat → List Char → Nat × List Char
  | 0, text => (value, text)
  | _ + 1, [] => (value, [])
  | limit + 1, c :: rest =>
    match digitValue? 8 c with
    | some d => octalTail (8 * value + d) limit rest
    | none => (value, c :: rest)

/-- The number that hexadecimal digits stand for; there has to be at least one. -/
def hexValue? (digits : List Char) : Option Nat :=
  if digits.isEmpty then none
  else digits.foldlM (fun value c => (digitValue? 16 c).map (16 * value + ·)) 0

/-- The number of exactly `count` hexadecimal digits at the start of the text. -/
def fixedHex? (count : Nat) (text : List Char) : Option (Nat × List Char) :=
  if text.length < count then none
  else (hexValue? (text.take count)).map (·, text.drop count)

/-- A code point in braces, from after the opening brace. -/
def bracedHex? (text : List Char) : Option (Nat × List Char) :=
  match text.dropWhile (· != '\x7d') with
  | [] => none
  | _ :: rest =>
    match hexValue? (text.takeWhile (· != '\x7d')) with
    | some value => if value ≤ 0x10ffff then some (value, rest) else none
    | none => none

/-- What an escape stands for, from after its backslash, and the text after the escape. The end of
a line stands for nothing. -/
def escape? : List Char → Option (Option Nat × List Char)
  | [] => none
  | 'b' :: rest => some (some 0x08, rest)
  | 'f' :: rest => some (some 0x0c, rest)
  | 'n' :: rest => some (some 0x0a, rest)
  | 'r' :: rest => some (some 0x0d, rest)
  | 't' :: rest => some (some 0x09, rest)
  | 'v' :: rest => some (some 0x0b, rest)
  | 'x' :: rest => (fixedHex? 2 rest).map fun (value, rest) => (some value, rest)
  | 'u' :: '\x7b' :: rest => (bracedHex? rest).map fun (value, rest) => (some value, rest)
  | 'u' :: rest => (fixedHex? 4 rest).map fun (value, rest) => (some value, rest)
  | '\r' :: '\n' :: rest => some (none, rest)
  | c :: rest =>
    if isLineTerminator c then some (none, rest)
    else
      match digitValue? 8 c with
      | some d =>
        let (value, rest) := octalTail d (if d ≤ 3 then 2 else 1) rest
        some (some value, rest)
      | none => some (some c.toNat, rest)

/-- The codes of a text with escapes. The number bounds the characters to be read. -/
def codesFrom? : Nat → List Char → Option (List Nat)
  | _, [] => some []
  | 0, _ :: _ => none
  | bound + 1, '\\' :: rest =>
    match escape? rest with
    | none => none
    | some (none, rest) => codesFrom? bound rest
    | some (some code, rest) => (codesFrom? bound rest).map (code :: ·)
  | bound + 1, c :: rest => (codesFrom? bound rest).map (c.toNat :: ·)

/-- The codes of a text with escapes, if every escape is well formed. -/
def codes? (text : List Char) : Option (List Nat) :=
  codesFrom? text.length text

def isHighSurrogate (code : Nat) : Bool :=
  0xd800 ≤ code ∧ code ≤ 0xdbff

def isLowSurrogate (code : Nat) : Bool :=
  0xdc00 ≤ code ∧ code ≤ 0xdfff

def isSurrogate (code : Nat) : Bool :=
  isHighSurrogate code || isLowSurrogate code

/-- The code point that a pair of surrogates stands for. -/
def joinSurrogates (high low : Nat) : Nat :=
  0x10000 + (high - 0xd800) * 0x400 + (low - 0xdc00)

/-- The characters of a list of codes, and whether no surrogate was left alone. -/
def assemble : List Nat → List Char × Bool
  | [] => ([], true)
  | [code] =>
    if isSurrogate code then ([], false) else ([Char.ofNat code], true)
  | code :: next :: rest =>
    if isHighSurrogate code && isLowSurrogate next then
      let (text, complete) := assemble rest
      (Char.ofNat (joinSurrogates code next) :: text, complete)
    else
      let (text, complete) := assemble (next :: rest)
      if isSurrogate code then (text, false) else (Char.ofNat code :: text, complete)

/-- The text inside the quotes of a literal. -/
def unquoted (raw : List Char) : List Char :=
  raw.tail.dropLast

/-- The value of a string literal given with its quotes, and whether it is representable. -/
def stringValue? (raw : List Char) : Option (List Char × Bool) :=
  (codes? (unquoted raw)).map assemble

end ScriptMin.Literal
