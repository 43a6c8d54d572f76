import ScriptMin.Number.Binary64

/-!
# Integers and the exact operations on numbers

Bitwise operators work on the low 32 bits of a number without its fraction. Remainders and powers
are computed on the exact magnitudes, and a power is rounded once.
-/

namespace ScriptMin.Number

/-- Whether a finite number has no fraction. -/
def isWhole (v : Float) : Bool :=
  let (n, d) := (magnitude v).quotient
  isFinite v && n % d == 0

/-- The low 32 bits of a number without its fraction, and zero if it is not finite. -/
def toUint32 (v : Float) : UInt32 :=
  if isFinite v then
    let (n, d) := (magnitude v).quotient
    let low := UInt32.ofNat (n / d)
    if isNegative v then 0 - low else low
  else 0

/-- The same 32 bits with a sign. -/
def toInt32 (v : Float) : Int32 :=
  (toUint32 v).toInt32

/-- The number that a whole number is. -/
def ofInt (n : Int) : Float :=
  ofCode (n < 0) (nearestCode n.natAbs 1)

def ofInt32 (n : Int32) : Float := ofInt n.toInt

def ofUint32 (n : UInt32) : Float := ofInt n.toNat

def nan : Float := ofCode false (infinityCode + Nat.pow 2 51)

/-- The remainder of the division that truncates its quotient; it has the sign of `a`. -/
def remainder (a b : Float) : Float :=
  if isNaN a || isNaN b || isInfinite a || magnitudeCode b == 0 then nan
  else if isInfinite b then a
  else
    let (n, d) := (magnitude a).quotient
    let (m, e) := (magnitude b).quotient
    ofCode (isNegative a) (nearestCode (n * e % (m * d)) (d * e))

/-- A power with a whole exponent, rounded to the nearest number. A finite base is taken for
granted. -/
def power (base : Float) (exponent : Int) : Float :=
  let (n, d) := (magnitude base).quotient
  let negative := isNegative base && exponent % 2 == 1
  match exponent with
  | .ofNat k => ofCode negative (nearestCode (Nat.pow n k) (Nat.pow d k))
  | .negSucc k =>
    if n = 0 then ofCode negative infinityCode
    else ofCode negative (nearestCode (Nat.pow d (k + 1)) (Nat.pow n (k + 1)))

/-- The integer that a number without a fraction is. -/
def toInt? (v : Float) : Option Int :=
  if isWhole v then
    let (n, d) := (magnitude v).quotient
    some (if isNegative v then -((n / d : Nat) : Int) else (n / d : Nat))
  else none

end ScriptMin.Number
