/-!
# The layout of a binary64 number

A finite number is a sign and a magnitude `mantissa * 2 ^ exponent`. The low 63 bits of the encoding
are the *code* of the magnitude, and magnitudes are ordered as their codes are. `Dyadic.ofCode`
reads a code and `nearestCode` gives the code of the number nearest to a quotient of natural
numbers, a tie going to the even code.
-/

namespace ScriptMin.Number

/-- The magnitude `mantissa * 2 ^ exponent`. -/
structure Dyadic where
  mantissa : Nat
  exponent : Int
deriving DecidableEq, Repr

/-- The encoding of a number without its sign. -/
def magnitudeCode (v : Float) : Nat :=
  v.toBits.toNat % Nat.pow 2 63

/-- Whether the sign bit is set; it is for `-0` too. -/
def isNegative (v : Float) : Bool :=
  Nat.pow 2 63 ≤ v.toBits.toNat

/-- The code of infinity; every greater code is a NaN. -/
def infinityCode : Nat := 2047 * Nat.pow 2 52

/-- The number with a given sign and code. -/
def ofCode (negative : Bool) (code : Nat) : Float :=
  Float.ofBits (UInt64.ofNat (code + if negative then Nat.pow 2 63 else 0))

def isNaN (v : Float) : Bool :=
  infinityCode < magnitudeCode v

def isInfinite (v : Float) : Bool :=
  magnitudeCode v == infinityCode

def isFinite (v : Float) : Bool :=
  magnitudeCode v < infinityCode

/-- The same number: NaN is the same as NaN, and `0` differs from `-0`. -/
def same (a b : Float) : Bool :=
  if isNaN a then isNaN b else a.toBits == b.toBits

/-- The magnitude that a finite code stands for. -/
def Dyadic.ofCode (code : Nat) : Dyadic :=
  if code < Nat.pow 2 52 then ⟨code, -1074⟩
  else ⟨code % Nat.pow 2 52 + Nat.pow 2 52, (code / Nat.pow 2 52 : Nat) - 1075⟩

/-- The magnitude of a finite number. -/
def magnitude (v : Float) : Dyadic :=
  Dyadic.ofCode (magnitudeCode v)

/-- The magnitude as a quotient of natural numbers. -/
def Dyadic.quotient (x : Dyadic) : Nat × Nat :=
  match x.exponent with
  | .ofNat e => (x.mantissa * Nat.pow 2 e, 1)
  | .negSucc e => (x.mantissa, Nat.pow 2 (e + 1))

/-- Rounds `n / d` to a natural number, a tie going to the even one. -/
def roundHalfEven (n d : Nat) : Nat :=
  let floor := n / d
  let twice := 2 * (n % d)
  if twice < d then floor
  else if d < twice then floor + 1
  else floor + floor % 2

/-- Rounds `n / d` to a multiple of `2 ^ exponent` and gives the factor. -/
def roundTo (n d : Nat) (exponent : Int) : Nat :=
  match exponent with
  | .ofNat e => roundHalfEven n (d * Nat.pow 2 e)
  | .negSucc e => roundHalfEven (n * Nat.pow 2 (e + 1)) d

/-- The least exponent with which `n / d` keeps no more than 53 binary digits before the point. -/
def unitExponent (n d : Nat) : Int :=
  let guess : Int := (n.log2 : Int) - d.log2 - 53
  let short : Bool :=
    match guess with
    | .ofNat e => n / (d * Nat.pow 2 e) < Nat.pow 2 53
    | .negSucc e => n * Nat.pow 2 (e + 1) / d < Nat.pow 2 53
  max (-1074) (if short then guess else guess + 1)

/-- The code of the binary64 magnitude nearest to `n / d`. -/
def nearestCode (n d : Nat) : Nat :=
  if n = 0 then 0
  else
    let exponent := unitExponent n d
    min infinityCode ((exponent + 1074).toNat * Nat.pow 2 52 + roundTo n d exponent)

/-- The non-negative number nearest to `n / d`. -/
def nearest (n d : Nat) : Float :=
  ofCode false (nearestCode n d)

end ScriptMin.Number
