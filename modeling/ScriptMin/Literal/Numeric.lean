import ScriptMin.Source.Character
import ScriptMin.Number.Binary64

/-!
# The value of a numeric literal

A literal is given as it was written. Underscores may separate digits; they are checked by the
positions that they must not take, and then left out. `numberValue?` gives the number of a literal
and `bigIntDigits?` the digits of a big integer, and both give nothing for a malformed literal.
-/

namespace ScriptMin.Literal

open ScriptMin.Source ScriptMin.Number

/-- Whether `pattern` stands somewhere in `text`. -/
def contains (pattern : List Char) : List Char → Bool
  | [] => pattern.isEmpty
  | c :: rest => pattern.isPrefixOf (c :: rest) || contains pattern rest

def withoutSeparators (text : List Char) : List Char :=
  text.filter (· != '_')

/-- The positions where no separator may stand: the ends, beside another one, and beside a point
when `point` says so. -/
def misplacesSeparator (point : Bool) (text : List Char) : Bool :=
  text.head? == some '_' || text.getLast? == some '_' || contains ['_', '_'] text ||
    (point && (contains ['_', '.'] text || contains ['.', '_'] text))

/-- The number that digits stand for in a base. Each step is rounded, so a long literal can differ
from the number nearest to its value. -/
def radixValue? (base : Nat) (digits : List Char) : Option Float :=
  digits.foldlM
    (fun value c => (digitValue? base c).map fun d => value * Float.ofNat base + Float.ofNat d) 0

/-- The natural number that decimal digits stand for. -/
def decimalValue (digits : List Char) : Nat :=
  digits.foldl (fun value c => 10 * value + (c.toNat - '0'.toNat)) 0

/-- The number nearest to `digits * 10 ^ exponent`. Far outside the range of binary64 the powers of
ten are not computed. -/
def decimalNumber (digits : List Char) (exponent : Int) : Float :=
  let value := decimalValue digits
  let places := exponent + (digits.dropWhile (· == '0')).length
  if value = 0 then 0
  else if 400 < places then ofCode false infinityCode
  else if places < -400 then 0
  else
    match exponent with
    | .ofNat k => nearest (value * Nat.pow 10 k) 1
    | .negSucc k => nearest value (Nat.pow 10 (k + 1))

/-- The exponent part of a decimal literal, from its letter on. -/
def exponentValue? : List Char → Option Int
  | [] => some 0
  | c :: rest =>
    if c == 'e' || c == 'E' then
      let (negative, digits) :=
        match rest with
        | '-' :: digits => (true, digits)
        | '+' :: digits => (false, digits)
        | digits => (false, digits)
      if digits.isEmpty || !digits.all Char.isDigit then none
      else some (if negative then -(decimalValue digits : Int) else decimalValue digits)
    else none

/-- The number of a decimal literal without separators. -/
def decimalLiteral? (text : List Char) : Option Float :=
  let whole := text.takeWhile Char.isDigit
  let rest := text.dropWhile Char.isDigit
  let (fraction, rest) :=
    match rest with
    | '.' :: rest => (rest.takeWhile Char.isDigit, rest.dropWhile Char.isDigit)
    | rest => ([], rest)
  if whole.isEmpty && fraction.isEmpty then none
  else (exponentValue? rest).map fun e => decimalNumber (whole ++ fraction) (e - fraction.length)

/-- An integer that starts with a zero is octal if its digits allow it, and decimal otherwise. -/
def zeroLedValue? (digits : List Char) : Option Float :=
  (radixValue? 8 digits).or (decimalLiteral? digits)

/-- The number that a numeric literal stands for. -/
def numberValue? (raw : List Char) : Option Float :=
  if misplacesSeparator true raw then none
  else
    match withoutSeparators raw with
    | '0' :: 'b' :: digits | '0' :: 'B' :: digits => radixValue? 2 digits
    | '0' :: 'o' :: digits | '0' :: 'O' :: digits => radixValue? 8 digits
    | '0' :: 'x' :: digits | '0' :: 'X' :: digits => radixValue? 16 digits
    | '0' :: second :: rest =>
      if (second :: rest).all Char.isDigit then
        if raw.contains '_' then none else zeroLedValue? ('0' :: second :: rest)
      else decimalLiteral? ('0' :: second :: rest)
    | text => decimalLiteral? text

/-- The digits of a big integer literal without separators and without the final `n`. A prefix of
another base stays. -/
def bigIntDigits? (raw : List Char) : Option (List Char) :=
  let digits := raw.dropLast
  if misplacesSeparator false digits then none else some (withoutSeparators digits)

/-- Whether a numeral starts with a zero that strict code does not allow there. -/
def isZeroLed (raw : List Char) : Bool :=
  match raw with
  | '0' :: c :: _ => c.isDigit
  | _ => false

end ScriptMin.Literal
