import ScriptMin.Rewrite.Blocks
import ScriptMin.Rewrite.Effects

/-!
# Expressions in a row

Expressions that are evaluated one after another are joined with commas, also to the expression that
the next statement starts with. What nobody can tell the evaluation of is left out.
-/

namespace ScriptMin.Rewrite

/-- Two expressions one after another. -/
def sequenceOf (first second : Node) : Node :=
  ⟨first.span.cover second.span, .sequence (first.elements ++ second.elements)⟩

/-- A statement that evaluates an expression before its own first one, if it has a place for it. -/
def evaluatingFirst? (expression statement : Node) : Option Node :=
  let first := sequenceOf expression
  match statement.shape with
  | .expressionStatement value => some (statement.withShape (.expressionStatement (first value)))
  | .returnStatement (some value) =>
    some (statement.withShape (.returnStatement (some (first value))))
  | .throwStatement value => some (statement.withShape (.throwStatement (first value)))
  | .ifStatement test consequent alternate =>
    some (statement.withShape (.ifStatement (first test) consequent alternate))
  | .switchStatement subject cases =>
    some (statement.withShape (.switchStatement (first subject) cases))
  | .forLoop (.stepped .none condition post) body =>
    some (statement.withShape (.forLoop (.stepped (.expression expression) condition post) body))
  | .forLoop (.stepped (.expression value) condition post) body =>
    some (statement.withShape (.forLoop (.stepped (.expression (first value)) condition post) body))
  | _ => none

/-- An expression statement joined to the statement after it. -/
def joinedExpression? (a b : Node) : Option Node :=
  match a.shape with
  | .expressionStatement expression => evaluatingFirst? expression b
  | _ => none

/-- `a(); b(); return c` is `return a(), b(), c`. -/
def joinExpressions : Rule := fun _ => onStatements (onNeighbours joinedExpression?)

/-- Whether a call of an expression by itself differs from a call of its value: a member passes its
object on, and `eval` sees the names around it. -/
def bindsWhenCalled (n : Node) : Bool :=
  match n.shape with
  | .member .. | .index .. => true
  | .identifier name => name == "eval"
  | _ => false

/-- The elements of a sequence whose evaluation counts, if not all do. The last one is the value. An
element stays before a last one that must not stand alone. -/
def sequenceKept? (elements : List Node) : Option (List Node) := do
  let last ← elements.getLast?
  let before := elements.dropLast
  if !before.any isPure then none
  else if before.all isPure && bindsWhenCalled last then
    if before.length == 1 then none else some (before.take 1 ++ [last])
  else some (before.filter (!isPure ·) ++ [last])

/-- The expression that a statement has to evaluate, whose value nobody uses. -/
def statementKept (n : Node) (elements : List Node) : Shape Node :=
  match elements.filter (!isPure ·) with
  | [] => .emptyStatement
  | [only] => .expressionStatement only
  | kept => .expressionStatement (n.withShape (.sequence kept))

/-- `1, a()` is `a()`, and the statement `1` is empty. -/
def dropPure : Rule := fun _ n =>
  match n.shape with
  | .sequence elements => do
    match ← sequenceKept? elements with
    | [only] => return only
    | kept => return n.withShape (.sequence kept)
  | .expressionStatement expression =>
    if isPure expression then some (n.withShape .emptyStatement)
    else
      match expression.shape with
      | .sequence elements =>
        if elements.getLast?.any isPure then some (n.withShape (statementKept expression elements))
        else none
      | _ => none
  | _ => none

end ScriptMin.Rewrite
