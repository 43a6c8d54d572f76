import ScriptMin.Tree.Node

/-!
# What is known of a value without running anything

An expression is pure if nobody can tell whether it was evaluated. Reading a variable is not pure:
it can throw, or run a getter of the global object.
-/

namespace ScriptMin.Rewrite

/-- Whether an expression is a primitive value as it stands. -/
def isPrimitive (n : Node) : Bool :=
  n.shape matches .bigIntLiteral _ | .booleanLiteral _ | .nullLiteral | .numberLiteral _
    | .stringLiteral .. | .undefinedLiteral

/-- A primitive value that arithmetic takes without an error whatever stands beside it. A big
integer is not one. -/
def isPlainPrimitive (n : Node) : Bool :=
  isPrimitive n && !(n.shape matches .bigIntLiteral _)

/-- Whether a template only puts primitive values between its characters. -/
def isPlainTemplate (parts : List (TemplatePart Node)) : Bool :=
  parts.all fun
    | .text _ => true
    | .substitution value => isPrimitive value

mutual

/-- Whether nobody can tell that an expression was evaluated. -/
def isPure : Node → Bool
  | ⟨_, .bigIntLiteral _⟩ | ⟨_, .booleanLiteral _⟩ | ⟨_, .nullLiteral⟩ | ⟨_, .numberLiteral _⟩
  | ⟨_, .regexLiteral _⟩ | ⟨_, .stringLiteral ..⟩ | ⟨_, .undefinedLiteral⟩ | ⟨_, .thisExpression⟩
  | ⟨_, .functionExpression ..⟩ | ⟨_, .arrowFunction ..⟩ => true
  | ⟨_, .templateLiteral parts⟩ => isPlainTemplate parts
  | ⟨_, .unary operator operand⟩ =>
    match operator with
    | .logicalNot | .void | .typeOf => isPure operand
    | .negation | .plus | .bitwiseNot => isPlainPrimitive operand
    | _ => false
  | ⟨_, .binary operator left right⟩ =>
    if operator.isLogical then isPure left && isPure right
    else
      operator != .inOperator && operator != .instanceOf && isPlainPrimitive left &&
        isPlainPrimitive right
  | ⟨_, .conditional test consequent alternate⟩ =>
    isPure test && isPure consequent && isPure alternate
  | ⟨_, .sequence elements⟩ => arePure elements
  | ⟨_, .arrayLiteral elements⟩ => areElementsPure elements
  | ⟨_, .objectLiteral members⟩ => areMembersPure members
  | _ => false

def arePure : List Node → Bool
  | [] => true
  | n :: rest => isPure n && arePure rest

def areElementsPure : List (ArrayElement Node) → Bool
  | [] => true
  | .item value :: rest => isPure value && areElementsPure rest
  | .spread _ :: _ => false
  | .hole :: rest => areElementsPure rest

/-- The members of an object literal. A computed key or a spread value may run code. -/
def areMembersPure : List Node → Bool
  | [] => true
  | ⟨_, .objectMember (.valued (.direct _) (.property (some value)))⟩ :: rest =>
    isPure value && areMembersPure rest
  | ⟨_, .objectMember (.valued (.direct _) (.property none))⟩ :: _ => false
  | ⟨_, .objectMember (.valued (.direct _) _)⟩ :: rest => areMembersPure rest
  | _ :: _ => false

end

/-- Whether a literal counts as true, where that is known. -/
def truth? : Node → Option Bool
  | ⟨_, .booleanLiteral value⟩ => some value
  | ⟨_, .nullLiteral⟩ | ⟨_, .undefinedLiteral⟩ => some false
  | ⟨_, .numberLiteral value⟩ => some (value < 0 || 0 < value)
  | ⟨_, .stringLiteral value none⟩ => some (!value.isEmpty)
  | ⟨_, .unary .void operand⟩ => if isPure operand then some false else none
  | ⟨_, .unary .logicalNot operand⟩ => (truth? operand).map (!·)
  | ⟨_, .arrayLiteral elements⟩ => if areElementsPure elements then some true else none
  | ⟨_, .objectLiteral members⟩ => if areMembersPure members then some true else none
  | ⟨_, .functionExpression ..⟩ | ⟨_, .arrowFunction ..⟩ => some true
  | _ => none

/-- Whether an expression is `undefined`, and nothing can be told from its evaluation. -/
def isUndefined (bindsUndefined : Bool) (n : Node) : Bool :=
  match n.shape with
  | .undefinedLiteral => true
  | .identifier name => !bindsUndefined && name == "undefined"
  | .unary .void operand => isPrimitive operand
  | _ => false

end ScriptMin.Rewrite
