import ScriptMin.Rewrite.Basic

/-!
# Branches that are expressions

An `if` whose branches only evaluate or return something is written as an expression. A negated test
swaps its branches instead.
-/

namespace ScriptMin.Rewrite

/-- The expression that a statement is, perhaps in braces. -/
def singleExpression? : Node → Option Node
  | ⟨_, .expressionStatement expression⟩ => some expression
  | ⟨_, .block [statement]⟩ => singleExpression? statement
  | _ => none

/-- The value that a statement returns, perhaps in braces. -/
def singleReturn? : Node → Option Node
  | ⟨_, .returnStatement (some value)⟩ => some value
  | ⟨_, .block [statement]⟩ => singleReturn? statement
  | _ => none

mutual

/-- Whether a statement does nothing. -/
def doesNothing : Node → Bool
  | ⟨_, .emptyStatement⟩ => true
  | ⟨_, .block body⟩ => doNothing body
  | _ => false

def doNothing : List Node → Bool
  | [] => true
  | n :: rest => doesNothing n && doNothing rest

end

/-- The operand of a negation, and whether there is one. -/
def splitNegation (n : Node) : Node × Bool :=
  match n.shape with
  | .unary .logicalNot operand => (operand, true)
  | _ => (n, false)

/-- `a && b`, or `a || b` where `b` runs if the test fails. -/
def guard (test value : Node) (runsIfTrue : Bool) : Node :=
  let (test', negated) := splitNegation test
  let operator := if runsIfTrue != negated then .logicalAnd else .logicalOr
  ⟨test'.span.cover value.span, .binary operator test' value⟩

/-- `a ? b : c`. -/
def choice (test consequent alternate : Node) : Node :=
  let (test', negated) := splitNegation test
  let shape :=
    if negated then Shape.conditional test' alternate consequent
    else .conditional test' consequent alternate
  ⟨test.span.cover alternate.span, shape⟩

/-- The expression that an `if` is, if its branches are expressions. -/
def ifExpression? (test consequent : Node) : Option Node → Option Node
  | none =>
    if doesNothing consequent then some test
    else (singleExpression? consequent).map (guard test · true)
  | some alternate =>
    if doesNothing consequent then (singleExpression? alternate).map (guard test · false)
    else do return choice test (← singleExpression? consequent) (← singleExpression? alternate)

/-- `if (a) b; else c` is `a ? b : c`, `if (a) b` is `a && b`, and `if (a);` is `a`. -/
def ifToExpression : Rule := fun _ n =>
  match n.shape with
  | .ifStatement test consequent alternate =>
    if alternate.any doesNothing then some (n.withShape (.ifStatement test consequent none))
    else
      (ifExpression? test consequent alternate).map fun value =>
        n.withShape (.expressionStatement value)
  | _ => none

def returnOf (value : Node) : Node := ⟨value.span, .returnStatement (some value)⟩

/-- The `return` that two statements in a row come to: an `if` that returns, and a `return`. -/
def joinedReturn? (a b : Node) : Option Node :=
  match a.shape, b.shape with
  | .ifStatement test consequent none, .returnStatement (some alternate) =>
    (singleReturn? consequent).map fun value => returnOf (choice test value alternate)
  | _, _ => none

/-- Joins the first two statements in a row that come to one `return`. -/
def joinReturn? : List Node → Option (List Node)
  | a :: b :: rest =>
    match joinedReturn? a b with
    | some joined => some (joined :: rest)
    | none => (joinReturn? (b :: rest)).map (a :: ·)
  | _ => none

/-- `if (a) return b; else return c` and `if (a) return b; return c` are `return a ? b : c`. -/
def returnChoice : Rule := fun _ n =>
  match n.shape with
  | .ifStatement test consequent (some alternate) => do
    return returnOf (choice test (← singleReturn? consequent) (← singleReturn? alternate))
  | _ => onStatements joinReturn? n

end ScriptMin.Rewrite
