import ScriptMin.Grammar.Frame
import ScriptMin.Grammar.Reader

/-!
# The constructs that contain one another

An expression can hold a function, a function statements, and a statement expressions. Each
construct is read by a function of its own module that takes the others as `Rules`, one level of
nesting further down; `Grammar.Program` ties the knot.
-/

namespace ScriptMin.Grammar

/-- How far an expression reaches: operators below `minimum` are left to the code around it, and so
are the tokens of `stops`. `mayInsert` says that a semicolon may be inserted after it. -/
structure Extent where
  minimum : Nat
  stops : List Kind
  mayInsert : Bool
deriving DecidableEq, Repr

namespace Extent

/-- A whole expression, commas included, before a punctuator. -/
def whole (stop : Punctuator) : Extent := ⟨commaPrecedence, [.punctuator stop], false⟩

/-- An expression without a comma. -/
def single (stops : List Punctuator) : Extent :=
  ⟨assignmentPrecedence, stops.map .punctuator, false⟩

/-- The expression of a statement. -/
def ofStatement : Extent := ⟨commaPrecedence, [.punctuator .semicolon], true⟩

/-- The same reach for an operand that has to bind as tight as `minimum`. -/
def atLeast (e : Extent) (minimum : Nat) : Extent := { e with minimum }

/-- The same reach without a comma. -/
def assignment (e : Extent) : Extent := e.atLeast assignmentPrecedence

end Extent

/-- An expression, and whether a semicolon was inserted after it. -/
structure Reading where
  node : Node
  inserted : Bool

/-- The constructs, for use within one another, and a bound on how many of one kind can stand in a
row. `construct` reads on after the word `new`. -/
structure Rules where
  bound : Nat
  expression : Frame → Extent → Parse Reading
  statement : Frame → Parse Node
  pattern : Frame → Binding → Parse Node
  construct : Frame → Token → Parse Node

namespace Rules

/-- A whole expression up to a punctuator that is not consumed. -/
def whole (rules : Rules) (f : Frame) (stop : Punctuator) : Parse Node :=
  return (← rules.expression f (.whole stop)).node

/-- An expression without a comma. -/
def single (rules : Rules) (f : Frame) (stops : List Punctuator) : Parse Node :=
  return (← rules.expression f (.single stops)).node

/-- The value after an equals sign, if there is one. -/
def fallback (rules : Rules) (f : Frame) (stop : Punctuator) : Parse (Option Node) := do
  if ← Parse.tookPunctuator .equals then return some (← rules.single f [.comma, stop])
  else return none

/-- A whole expression in parentheses. -/
def parenthesised (rules : Rules) (f : Frame) : Parse Node := do
  let _ ← Parse.expectPunctuator .openParenthesis
  let value ← rules.whole f .closeParenthesis
  let _ ← Parse.expectPunctuator .closeParenthesis
  return value

end Rules

end ScriptMin.Grammar
