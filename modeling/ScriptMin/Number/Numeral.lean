import ScriptMin.Number.Shortest

/-!
# The shortest numeral of a number

A non-negative finite number can be written in up to three forms: positional, with an exponent, and,
for an integer below `2 ^ 53`, in base sixteen. `numeral` takes the shortest, and of equally short
ones the first in this order.
-/

namespace ScriptMin.Number

/-- The positional form, without a zero before the point. -/
def positional (d : Decimal) : List Char :=
  let digits := Nat.toDigits 10 d.digits
  match d.exponent with
  | .ofNat k => if d.digits = 0 then ['0'] else digits ++ List.replicate k '0'
  | .negSucc k =>
    let places := k + 1
    if places < digits.length then
      digits.take (digits.length - places) ++ '.' :: digits.drop (digits.length - places)
    else '.' :: List.replicate (places - digits.length) '0' ++ digits

/-- An exponent in decimal, with its sign only if it is negative. -/
def exponentText (e : Int) : List Char :=
  match e with
  | .ofNat n => Nat.toDigits 10 n
  | .negSucc n => '-' :: Nat.toDigits 10 (n + 1)

/-- The digits as an integer with an exponent. A number from one up to ten is written with a point
after its first digit instead. -/
def scientific (d : Decimal) : List Char :=
  let digits := Nat.toDigits 10 d.digits
  if d.exponent + digits.length = 1 then
    match digits with
    | first :: [] => [first]
    | first :: rest => first :: '.' :: rest
    | [] => []
  else digits ++ 'e' :: exponentText d.exponent

/-- The whole number that a magnitude is, if it is one. -/
def wholeValue? (code : Nat) : Option Nat :=
  let (n, d) := (Dyadic.ofCode code).quotient
  if n % d = 0 then some (n / d) else none

/-- The form in base sixteen of an integer below `2 ^ 53`. -/
def hexadecimal? (code : Nat) : Option (List Char) :=
  match wholeValue? code with
  | some n => if n < Nat.pow 2 53 then some ('0' :: 'x' :: Nat.toDigits 16 n) else none
  | none => none

/-- The shorter text, and `a` if both are equally short. -/
def shorter (a b : List Char) : List Char :=
  if b.length < a.length then b else a

/-- The shortest numeral that reads back as the finite magnitude with this code. -/
def numeralOfCode (code : Nat) : List Char :=
  let d := shortest .up code
  let best := shorter (positional d) (scientific d)
  match hexadecimal? code with
  | some hex => shorter best hex
  | none => best

/-- The shortest numeral of a finite number whose sign bit is clear. -/
def numeral (v : Float) : List Char :=
  numeralOfCode (magnitudeCode v)

/-- Whether a numeral holds digits alone, so that a point after it would go on the numeral. -/
def isPlainInteger (text : List Char) : Bool :=
  text.all Char.isDigit

end ScriptMin.Number
