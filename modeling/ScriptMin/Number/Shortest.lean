import ScriptMin.Number.Binary64

/-!
# The fewest decimal digits that read back

The reals nearest to a positive binary64 magnitude form an interval around it, which holds its ends
exactly when the mantissa is even. `shortest` looks for the coarsest decimal grid with a point of
that interval. On a grid only the two neighbours of the magnitude need a look; of two neighbours in
the interval the nearer one is taken; where an exact tie goes is left to the caller (`Tie`).
-/

namespace ScriptMin.Number

/-- The decimal `digits * 10 ^ exponent`. -/
structure Decimal where
  digits : Nat
  exponent : Int
deriving DecidableEq, Repr

/-- Where an exact tie between two digit strings goes: to the greater one, or to the even one. -/
inductive Tie where
  | up
  | even
deriving DecidableEq, Repr

/-- Whether a tie between `below` and `below + 1` goes to `below`. -/
def Tie.takesLower (t : Tie) (below : Nat) : Bool :=
  match t with
  | .up => false
  | .even => below % 2 == 0

/-- The interval of the reals that round to one magnitude: the quotients `low / unit`,
`value / unit` and `high / unit` are its ends and the magnitude itself. -/
structure Rounding where
  low : Nat
  value : Nat
  high : Nat
  unit : Nat
  /-- Whether the ends belong to the interval. -/
  closed : Bool
deriving Repr

/-- The interval of a magnitude with a code above zero. Below a power of two the next magnitude is
half as far away as above it. -/
def Rounding.ofCode (code : Nat) : Rounding :=
  let x := Dyadic.ofCode code
  let gap := if code % Nat.pow 2 52 = 0 ∧ Nat.pow 2 52 < code then 1 else 2
  let (factor, unit) :=
    match x.exponent - 2 with
    | .ofNat e => (Nat.pow 2 e, 1)
    | .negSucc e => (1, Nat.pow 2 (e + 1))
  { low := (4 * x.mantissa - gap) * factor
    value := 4 * x.mantissa * factor
    high := (4 * x.mantissa + 2) * factor
    unit
    closed := x.mantissa % 2 == 0 }

/-- The interval measured on the grid of the multiples of `10 ^ exponent`. -/
def Rounding.onGrid (r : Rounding) (exponent : Int) : Rounding :=
  match exponent with
  | .ofNat k => { r with unit := r.unit * Nat.pow 10 k }
  | .negSucc k =>
    { r with low := r.low * Nat.pow 10 (k + 1), value := r.value * Nat.pow 10 (k + 1),
             high := r.high * Nat.pow 10 (k + 1) }

/-- Whether a whole number lies in the interval. -/
def Rounding.holds (r : Rounding) (n : Nat) : Bool :=
  if r.closed then r.low ≤ n * r.unit ∧ n * r.unit ≤ r.high
  else r.low < n * r.unit ∧ n * r.unit < r.high

/-- The whole number of the interval that is nearest to the magnitude, if there is one. A tie is
broken by `t`. -/
def Rounding.nearestWhole? (r : Rounding) (t : Tie) : Option Nat :=
  let below := r.value / r.unit
  let twice := 2 * (r.value % r.unit)
  match r.holds below, r.holds (below + 1) with
  | true, true =>
    if twice < r.unit || (twice == r.unit && t.takesLower below) then some below
    else some (below + 1)
  | true, false => some below
  | false, true => some (below + 1)
  | false, false => none

/-- Tries the grids from `exponent` down. -/
def Rounding.coarsest (r : Rounding) (t : Tie) : Nat → Int → Decimal
  | 0, exponent => ⟨0, exponent⟩
  | steps + 1, exponent =>
    match (r.onGrid exponent).nearestWhole? t with
    | some digits => ⟨digits, exponent⟩
    | none => r.coarsest t steps (exponent - 1)

/-- A decimal exponent whose power of ten is above the magnitude, by no more than two places. -/
def decimalBound (code : Nat) : Int :=
  let x := Dyadic.ofCode code
  match x.exponent + x.mantissa.log2 + 1 with
  | .ofNat b => (b * 30103 / 100000 + 1 : Nat)
  | .negSucc b => 1 - ((b + 1) * 30102 / 100000 : Nat)

/-- The shortest decimal that reads back as the magnitude with this code, and zero for zero. -/
def shortest (t : Tie) (code : Nat) : Decimal :=
  if code = 0 then ⟨0, 0⟩
  else (Rounding.ofCode code).coarsest t 25 (decimalBound code)

end ScriptMin.Number
