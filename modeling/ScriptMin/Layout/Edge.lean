import ScriptMin.Number.Binary64
import ScriptMin.Tree.Chain

/-!
# The edges of a printed node

Whether a node needs parentheses depends on how tight it binds, and on its leftmost and rightmost
parts, which a reader would meet first and last. Likewise the end of a statement decides whether a
semicolon follows it.
-/

namespace ScriptMin.Node

open Number

/-- The precedence of what never needs parentheses for an operator's sake. -/
def primaryPrecedence : Nat := memberPrecedence + 1

/-- How tight a number binds as it is written: one that is not finite is a quotient, and a negative
one has a sign. -/
def numberPrecedence (v : Float) : Nat :=
  if !isFinite v then BinaryOperator.division.precedence
  else if isNegative v then unaryPrecedence
  else primaryPrecedence

/-- How tight a node binds as it is written. -/
def precedence (n : Node) : Nat :=
  match n.shape with
  | .sequence _ => commaPrecedence
  | .arrowFunction .. | .yieldExpression .. | .assignment .. => assignmentPrecedence
  | .conditional .. => Operator.conditional.precedence
  | .binary op _ _ => op.precedence
  | .unary .. | .undefinedLiteral => unaryPrecedence
  | .postfixed .. => postfixPrecedence
  | .call .. | .member .. | .index .. | .construct .. | .taggedTemplate .. | .importCall _ =>
    memberPrecedence
  | .numberLiteral v => numberPrecedence v
  | _ => primaryPrecedence

/-- The node that is written first. What stands in parentheses counts as one. -/
def leftmost : Node → Node
  | ⟨_, .binary _ left _⟩ => leftmost left
  | ⟨_, .assignment _ target _⟩ => leftmost target
  | ⟨_, .conditional test _ _⟩ => leftmost test
  | ⟨_, .sequence (first :: _)⟩ => leftmost first
  | ⟨span, .call isOptional parenthesised callee arguments⟩ =>
    if closesChain ⟨span, .call isOptional parenthesised callee arguments⟩ then
      ⟨span, .call isOptional parenthesised callee arguments⟩
    else leftmost callee
  | ⟨span, .member isOptional parenthesised object name⟩ =>
    if closesChain ⟨span, .member isOptional parenthesised object name⟩ then
      ⟨span, .member isOptional parenthesised object name⟩
    else leftmost object
  | ⟨span, .index isOptional parenthesised object subscript⟩ =>
    if closesChain ⟨span, .index isOptional parenthesised object subscript⟩ then
      ⟨span, .index isOptional parenthesised object subscript⟩
    else leftmost object
  | ⟨_, .taggedTemplate tag _⟩ => leftmost tag
  | ⟨_, .postfixed _ operand⟩ => leftmost operand
  | n => n

/-- Whether an expression would be read as a block, a declaration or a directive at the start of a
statement. -/
def startsLikeStatement (n : Node) : Bool :=
  match n.leftmost.shape with
  | .objectLiteral _ | .objectPattern .. | .functionExpression .. | .classExpression ..
  | .stringLiteral .. => true
  | .identifier name => name == "let"
  | _ => false

/-- Whether an expression would be read as a block after an arrow. -/
def startsLikeBlock (n : Node) : Bool :=
  n.leftmost.shape matches .objectLiteral _ | .objectPattern ..

/-- Whether an expression would be read as a declaration after `export default`. -/
def startsLikeDeclaration (n : Node) : Bool :=
  n.leftmost.shape matches .functionExpression .. | .classExpression ..

/-- Whether the operand of a `new` has a call in it whose arguments the `new` would take. -/
def containsCall : Node → Bool
  | ⟨_, .call ..⟩ | ⟨_, .importCall _⟩ => true
  | ⟨_, .member _ _ object _⟩ => containsCall object
  | ⟨_, .index _ _ object _⟩ => containsCall object
  | ⟨_, .taggedTemplate tag _⟩ => containsCall tag
  | _ => false

/-- Whether the operator `in` stands somewhere in a node. -/
def containsIn (n : Node) : Bool :=
  n.any fun n => n.shape matches .binary .inOperator _ _

/-- Whether `??` and another logical operator would meet without parentheses. -/
def mixesNullish (operand : Node) (operator : BinaryOperator) : Bool :=
  match operand.shape with
  | .binary op _ _ =>
    operator.isLogical && op.isLogical &&
      (operator == .nullishCoalescing) != (op == .nullishCoalescing)
  | _ => false

/-! ## The end of a statement -/

/-- How a statement ends: in nothing at all, in a closing brace, or in something that a semicolon
has to follow. -/
inductive Ending where
  | nothing
  | brace
  | open
deriving DecidableEq, Repr

/-- How a statement ends. -/
def ending : Node → Ending
  | ⟨_, .whileLoop _ body⟩ => ending body
  | ⟨_, .forLoop _ body⟩ => ending body
  | ⟨_, .withStatement _ body⟩ => ending body
  | ⟨_, .labelledStatement _ statement⟩ => ending statement
  | ⟨_, .ifStatement _ _ (some alternate)⟩ => ending alternate
  | ⟨_, .ifStatement _ consequent none⟩ => ending consequent
  | ⟨_, .exportDeclaration declaration _⟩ => ending declaration
  | ⟨_, .block _⟩ | ⟨_, .tryStatement ..⟩ | ⟨_, .switchStatement ..⟩
  | ⟨_, .functionDeclaration ..⟩ | ⟨_, .classDeclaration ..⟩ => .brace
  | ⟨_, .emptyStatement⟩ => .nothing
  | _ => .open

def isEmptyStatement (n : Node) : Bool :=
  n.shape matches .emptyStatement

end ScriptMin.Node
