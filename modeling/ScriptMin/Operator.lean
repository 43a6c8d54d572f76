/-!
# Operators

The operators of the language by what they do, with the precedence and associativity that the
grammar and the printer share. A higher precedence binds tighter.
-/

namespace ScriptMin

/-- Operators between two operands that are both read. -/
inductive BinaryOperator where
  | addition
  | bitwiseAnd
  | bitwiseOr
  | bitwiseXor
  | division
  | equality
  | exponentiation
  | greaterThan
  | greaterThanOrEqual
  | inOperator
  | inequality
  | instanceOf
  | leftShift
  | lessThan
  | lessThanOrEqual
  | logicalAnd
  | logicalOr
  | multiplication
  | nullishCoalescing
  | remainder
  | rightShift
  | strictEquality
  | strictInequality
  | subtraction
  | unsignedRightShift
deriving DecidableEq, Repr

/-- Operators that write to their left operand. -/
inductive AssignmentOperator where
  | assign
  | addition
  | bitwiseAnd
  | bitwiseOr
  | bitwiseXor
  | division
  | exponentiation
  | leftShift
  | logicalAnd
  | logicalOr
  | multiplication
  | nullishCoalescing
  | remainder
  | rightShift
  | subtraction
  | unsignedRightShift
deriving DecidableEq, Repr

/-- Operators that stand before their operand. -/
inductive UnaryOperator where
  | await
  | bitwiseNot
  | decrement
  | delete
  | increment
  | logicalNot
  | negation
  | plus
  | typeOf
  | void
deriving DecidableEq, Repr

/-- Operators that stand after the variable they change. -/
inductive PostfixOperator where
  | decrement
  | increment
deriving DecidableEq, Repr

/-- Everything that has a precedence. The flags say whether a link of a chain is optional, and
whether a `yield` delegates. `alternate` is the colon of a conditional. -/
inductive Operator where
  | binary (operator : BinaryOperator)
  | assignment (operator : AssignmentOperator)
  | unary (operator : UnaryOperator)
  | postfixed (operator : PostfixOperator)
  | call (isOptional : Bool)
  | index (isOptional : Bool)
  | member (isOptional : Bool)
  | conditional
  | alternate
  | comma
  | construct
  | yield (delegates : Bool)
deriving DecidableEq, Repr

inductive Associativity where
  | left
  | right
deriving DecidableEq, Repr

def BinaryOperator.precedence : BinaryOperator → Nat
  | .exponentiation => 15
  | .multiplication | .division | .remainder => 14
  | .addition | .subtraction => 13
  | .leftShift | .rightShift | .unsignedRightShift => 12
  | .lessThan | .lessThanOrEqual | .greaterThan | .greaterThanOrEqual | .inOperator
  | .instanceOf => 11
  | .equality | .inequality | .strictEquality | .strictInequality => 10
  | .bitwiseAnd => 9
  | .bitwiseXor => 8
  | .bitwiseOr => 7
  | .logicalAnd => 6
  | .logicalOr | .nullishCoalescing => 5

/-- The operators that may leave their right operand unevaluated. -/
def BinaryOperator.isLogical : BinaryOperator → Bool
  | .logicalAnd | .logicalOr | .nullishCoalescing => true
  | _ => false

/-- The operators whose value is always a boolean. -/
def BinaryOperator.isComparison : BinaryOperator → Bool
  | .equality | .inequality | .strictEquality | .strictInequality | .lessThan | .lessThanOrEqual
  | .greaterThan | .greaterThanOrEqual | .inOperator | .instanceOf => true
  | _ => false

def BinaryOperator.spelling : BinaryOperator → String
  | .addition => "+"
  | .bitwiseAnd => "&"
  | .bitwiseOr => "|"
  | .bitwiseXor => "^"
  | .division => "/"
  | .equality => "=="
  | .exponentiation => "**"
  | .greaterThan => ">"
  | .greaterThanOrEqual => ">="
  | .inOperator => "in"
  | .inequality => "!="
  | .instanceOf => "instanceof"
  | .leftShift => "<<"
  | .lessThan => "<"
  | .lessThanOrEqual => "<="
  | .logicalAnd => "&&"
  | .logicalOr => "||"
  | .multiplication => "*"
  | .nullishCoalescing => "??"
  | .remainder => "%"
  | .rightShift => ">>"
  | .strictEquality => "==="
  | .strictInequality => "!=="
  | .subtraction => "-"
  | .unsignedRightShift => ">>>"

def AssignmentOperator.spelling : AssignmentOperator → String
  | .assign => "="
  | .addition => "+="
  | .bitwiseAnd => "&="
  | .bitwiseOr => "|="
  | .bitwiseXor => "^="
  | .division => "/="
  | .exponentiation => "**="
  | .leftShift => "<<="
  | .logicalAnd => "&&="
  | .logicalOr => "||="
  | .multiplication => "*="
  | .nullishCoalescing => "??="
  | .remainder => "%="
  | .rightShift => ">>="
  | .subtraction => "-="
  | .unsignedRightShift => ">>>="

def UnaryOperator.spelling : UnaryOperator → String
  | .await => "await"
  | .bitwiseNot => "~"
  | .decrement => "--"
  | .delete => "delete"
  | .increment => "++"
  | .logicalNot => "!"
  | .negation => "-"
  | .plus => "+"
  | .typeOf => "typeof"
  | .void => "void"

def PostfixOperator.spelling : PostfixOperator → String
  | .decrement => "--"
  | .increment => "++"

/-- Whether the operator changes the variable that is its operand. -/
def UnaryOperator.isUpdate : UnaryOperator → Bool
  | .increment | .decrement => true
  | _ => false

namespace Operator

def isAssignment : Operator → Bool
  | .assignment _ => true
  | _ => false

/-- The operators whose value is always a boolean. -/
def isComparison : Operator → Bool
  | .binary op => op.isComparison
  | .unary .logicalNot => true
  | _ => false

def isLogical : Operator → Bool
  | .binary op => op.isLogical
  | _ => false

def isUpdate : Operator → Bool
  | .unary op => op.isUpdate
  | .postfixed _ => true
  | _ => false

/-- How tightly an operator binds. An assignment binds tighter than the colon of a conditional, so
that the last branch takes it in. -/
def precedence : Operator → Nat
  | .call _ | .index _ | .member _ | .construct => 18
  | .postfixed _ => 17
  | .unary _ => 16
  | .binary op => op.precedence
  | .conditional => 4
  | .assignment _ | .yield _ => 3
  | .alternate => 2
  | .comma => 1

def associativity : Operator → Associativity
  | .construct | .binary .exponentiation | .conditional | .alternate | .yield _ | .unary _
  | .assignment _ => .right
  | _ => .left

/-- The loosest precedence that an operand to the right may have without parentheses. -/
def operandPrecedence (op : Operator) : Nat :=
  match op.associativity with
  | .left => op.precedence + 1
  | .right => op.precedence

end Operator

/-- The precedence of an assignment, an arrow function or a `yield`: the loosest that an expression
without a comma can have. -/
def assignmentPrecedence : Nat := 3

def commaPrecedence : Nat := 1

/-- The precedence of an operator before its operand. -/
def unaryPrecedence : Nat := 16

def postfixPrecedence : Nat := 17

/-- The precedence of a call or a member access. -/
def memberPrecedence : Nat := 18

end ScriptMin
