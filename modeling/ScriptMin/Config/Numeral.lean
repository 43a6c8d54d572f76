import ScriptMin.Literal.Numeric
import ScriptMin.Number.Shortest

/-!
# Numbers in a JSON text

What a numeral of a JSON text stands for, and how a diagnostic writes a number. A numeral without a
point and an exponent that fits a word of 64 bits is an integer. Any other one is a binary64 number,
and not always the nearest: the digits that fit a word make a whole number, which is rounded and
then multiplied or divided by a power of ten.
-/

namespace ScriptMin.Config

open ScriptMin.Number

/-- An exponent as it is written. -/
structure Exponent where
  negative : Bool
  digits : List Char

/-- A number as it is written. -/
structure Numeral where
  negative : Bool
  whole : List Char
  fraction : Option (List Char)
  exponent : Option Exponent

/-! ## Digits -/

/-- Appends decimal digits to a number as long as it stays below a limit. The digits from the first
one that would take it there are left. -/
def appendDigits (limit : Nat) : Nat → List Char → Nat × List Char
  | value, [] => (value, [])
  | value, c :: rest =>
    let next := 10 * value + (c.toNat - '0'.toNat)
    if next < limit then appendDigits limit next rest else (value, c :: rest)

namespace Exponent

/-- The exponents from this one on are too large. -/
def limit : Nat := Nat.pow 2 31

/-- The exponent. -/
def value (e : Exponent) : Int :=
  let size : Int := Literal.decimalValue e.digits
  if e.negative then -size else size

/-- How many digits follow the one by which the exponent becomes too large, if there is one. -/
def excess? (e : Exponent) : Option Nat :=
  match (appendDigits limit 0 e.digits).2 with
  | [] => none
  | _ :: rest => some rest.length

end Exponent

/-! ## Powers of ten -/

/-- The greatest exponent of a power of ten that is a finite number. -/
def greatestPower : Nat := 308

/-- A power of ten. -/
def powerOfTen (k : Nat) : Float :=
  nearest (Nat.pow 10 k) 1

/-- Divides by a power of ten, in several steps if it is not finite. -/
def dividedByPower : Nat → Float → Nat → Float
  | 0, v, _ => v
  | fuel + 1, v, k =>
    if k ≤ greatestPower then v / powerOfTen k
    else if magnitudeCode v = 0 then v
    else dividedByPower fuel (v / powerOfTen greatestPower) (k - greatestPower)

/-- The whole number `whole` times a power of ten, if that is not too large. -/
def scaled? (whole : Nat) (power : Int) : Option Float :=
  let v := nearest whole 1
  match power with
  | .ofNat k =>
    if k ≤ greatestPower then
      let product := v * powerOfTen k
      if isInfinite product then none else some product
    else if whole = 0 then some v
    else none
  | .negSucc k => some (dividedByPower (k / greatestPower + 2) v (k + 1))

/-! ## The value of a numeral -/

namespace Numeral

/-- A whole number and the power of ten that goes with it, before the exponent is looked at. Digits
before the point that do not fit are counted, and digits after it are left out. -/
def significand (n : Numeral) : Nat × Int :=
  let fraction := n.fraction.getD []
  let (whole, left) := appendDigits (Nat.pow 2 64) 0 n.whole
  let (whole, rest) := appendDigits (Nat.pow 2 64) whole fraction
  (whole, (left.length : Int) - (fraction.length - rest.length : Nat))

/-- The number without its sign. For one that is too large, the number of digits that did not have
to be read to see that. -/
def magnitude (n : Numeral) : Except Nat Float :=
  let (whole, power) := n.significand
  let scaled : Int → Except Nat Float := fun power =>
    match scaled? whole power with
    | some v => .ok v
    | none => .error 0
  match n.exponent with
  | none => scaled power
  | some e =>
    match e.excess? with
    | none => scaled (power + e.value)
    | some unread => if e.negative || whole = 0 then .ok 0 else .error unread

/-- The number that is no integer. -/
def value (n : Numeral) : Except Nat Float :=
  n.magnitude.map fun v => if n.negative then -v else v

/-- The integer that a numeral is, if it is written as one and fits a word of 64 bits. A negative
zero is none. -/
def integer? (n : Numeral) : Option Int :=
  let value := Literal.decimalValue n.whole
  if n.fraction.isSome || n.exponent.isSome then none
  else if n.negative then
    if 0 < value ∧ value ≤ Nat.pow 2 63 then some (-value) else none
  else if value < Nat.pow 2 64 then some value else none

end Numeral

/-! ## Numbers in diagnostics -/

/-- An exponent in decimal, always with its sign. -/
def signedText (e : Int) : List Char :=
  (if e < 0 then '-' else '+') :: Nat.toDigits 10 e.natAbs

/-- A number in decimal with at least one digit on each side of the point. From `10 ^ 16` on and
below `10 ^ -5` it is written with an exponent. -/
def numberText (v : Float) : List Char :=
  let d := shortest .even (magnitudeCode v)
  let digits := Nat.toDigits 10 d.digits
  let places := d.exponent + digits.length
  let magnitude :=
    if d.digits = 0 then "0.0".toList
    else if 0 ≤ d.exponent ∧ places ≤ 16 then
      digits ++ List.replicate d.exponent.toNat '0' ++ ['.', '0']
    else if 0 < places ∧ places ≤ 16 then
      digits.take places.toNat ++ '.' :: digits.drop places.toNat
    else if -5 < places ∧ places ≤ 0 then
      '0' :: '.' :: List.replicate (-places).toNat '0' ++ digits
    else
      let fraction := if digits.length = 1 then [] else '.' :: digits.drop 1
      digits.take 1 ++ fraction ++ 'e' :: signedText (places - 1)
  if isNegative v then '-' :: magnitude else magnitude

end ScriptMin.Config
