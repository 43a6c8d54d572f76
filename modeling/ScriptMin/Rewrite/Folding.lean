import ScriptMin.Layout.OfNode
import ScriptMin.Number.Integer
import ScriptMin.Rewrite.Basic

/-!
# Constant folding

An operator over constants is replaced by its value, unless the value takes longer to write. Numbers
are computed in binary64 arithmetic; a power is only computed where its value is an integer that is
exact, since the last bit of another one is not the same everywhere.
-/

namespace ScriptMin.Rewrite

open Number

/-- A value that is known when the program is rewritten. -/
inductive Constant where
  | number (value : Float)
  | string (value : String)
  | boolean (value : Bool)

namespace Constant

/-- The constant that an expression is, if it is one. -/
def ofNode? (n : Node) : Option Constant :=
  match n.shape with
  | .stringLiteral value none => some (.string value)
  | .booleanLiteral value => some (.boolean value)
  | .numberLiteral value => some (.number value)
  | .unary .negation ⟨_, .numberLiteral value⟩ => some (.number (-value))
  | _ => none

/-- The shape that is written for a constant, in the place of `n`. A negative number is a negation.
-/
def shape (n : Node) : Constant → Shape Node
  | .number value =>
    if isNegative value && !isNaN value then
      .unary .negation (n.withShape (.numberLiteral (-value)))
    else .numberLiteral value
  | .string value => .stringLiteral value none
  | .boolean value => .booleanLiteral value

/-! ## Operators on numbers -/

/-- The power of two numbers where it is an integer of at most 53 bits. -/
def power? (base exponent : Float) : Option Float := do
  let k ← toInt? exponent
  if isFinite base && k.natAbs ≤ 64 then
    let value := Number.power base k
    if (← toInt? value).natAbs ≤ Nat.pow 2 53 then return value else none
  else none

/-- How far an operand shifts. -/
def shiftAmount (v : Float) : UInt32 := toUint32 v % 32

/-- An operator between two numbers. -/
def onNumbers? (operator : BinaryOperator) (a b : Float) : Option Constant :=
  match operator with
  | .addition => some (.number (a + b))
  | .subtraction => some (.number (a - b))
  | .multiplication => some (.number (a * b))
  | .division => some (.number (a / b))
  | .remainder => some (.number (remainder a b))
  | .exponentiation => (power? a b).map .number
  | .bitwiseAnd => some (.number (ofInt32 (toInt32 a &&& toInt32 b)))
  | .bitwiseOr => some (.number (ofInt32 (toInt32 a ||| toInt32 b)))
  | .bitwiseXor => some (.number (ofInt32 (toInt32 a ^^^ toInt32 b)))
  | .leftShift => some (.number (ofInt32 (toUint32 a <<< shiftAmount b).toInt32))
  | .rightShift => some (.number (ofInt32 (toInt32 a >>> (shiftAmount b).toInt32)))
  | .unsignedRightShift => some (.number (ofUint32 (toUint32 a >>> shiftAmount b)))
  | .equality | .strictEquality => some (.boolean (a == b))
  | .inequality | .strictInequality => some (.boolean (a != b))
  | .lessThan => some (.boolean (a < b))
  | .lessThanOrEqual => some (.boolean (a ≤ b))
  | .greaterThan => some (.boolean (b < a))
  | .greaterThanOrEqual => some (.boolean (b ≤ a))
  | _ => none

/-- The comparisons for equality, between values of one type. -/
def equality? (operator : BinaryOperator) (same : Bool) : Option Constant :=
  match operator with
  | .equality | .strictEquality => some (.boolean same)
  | .inequality | .strictInequality => some (.boolean (!same))
  | _ => none

/-- An operator between two constants. Constants of different types are left alone. -/
def binary? (operator : BinaryOperator) : Constant → Constant → Option Constant
  | .number a, .number b => onNumbers? operator a b
  | .string a, .string b =>
    if operator == .addition then some (.string (a ++ b)) else equality? operator (a == b)
  | .boolean a, .boolean b => equality? operator (a == b)
  | _, _ => none

/-- An operator before a constant. -/
def unary? (operator : UnaryOperator) (operand : Constant) : Option Constant :=
  match operator, operand with
  | .logicalNot, .number v => some (.boolean (!(v < 0 || 0 < v)))
  | .logicalNot, .string v => some (.boolean v.isEmpty)
  | .logicalNot, .boolean v => some (.boolean (!v))
  | .bitwiseNot, .number v => some (.number (ofInt32 (~~~ toInt32 v)))
  | .plus, .number v => some (.number v)
  | .negation, .number v => some (.number (-v))
  | .typeOf, .number _ => some (.string "number")
  | .typeOf, .string _ => some (.string "string")
  | .typeOf, .boolean _ => some (.string "boolean")
  | _, _ => none

end Constant

/-- The value of an operator over constants. The negation of a numeral is its own value. -/
def constantValue? (n : Node) : Option Constant :=
  match n.shape with
  | .binary operator left right => do
    Constant.binary? operator (← Constant.ofNode? left) (← Constant.ofNode? right)
  | .unary .negation ⟨_, .numberLiteral _⟩ => none
  | .unary operator operand => do Constant.unary? operator (← Constant.ofNode? operand)
  | _ => none

/-- The number of bytes of a node as it is printed. -/
def printedLength (n : Node) : Nat := Source.byteLength (n.print .compact)

/-- `1 + 2` is `3`: an operator over constants becomes its value if that is no longer. -/
def foldConstants : Rule := fun _ n => do
  let value := n.withShape ((← constantValue? n).shape n)
  if printedLength value ≤ printedLength n then some value else none

end ScriptMin.Rewrite
