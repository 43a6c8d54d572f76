import ScriptMin.Grammar.Operand

/-!
# Expressions

An expression is an operand and the operators after it, taken as long as they bind tight enough.
What an operator takes to its right is an expression again, with a higher bound on how loosely it
may bind.
-/

namespace ScriptMin.Grammar

open Parse

/-- What has been read of an expression. `logical` is the logical operator at its root, if it has no
parentheses around it. -/
structure Progress where
  left : Node
  isLoose : Bool
  inserted : Bool
  logical : Option BinaryOperator

namespace Progress

def ofOperand (o : Operand) : Progress := ⟨o.node, o.isLoose, o.inserted, none⟩

def reading (p : Progress) : Reading := ⟨p.left, p.inserted⟩

/-- An operator without an operand to its right was read. -/
def closed (p : Progress) (stop : Source.Span) (shape : Shape Node) : Progress :=
  { p with left := ⟨p.left.span.cover stop, shape⟩, isLoose := false }

/-- An operator with an operand to its right was read. -/
def taking (p : Progress) (right : Reading) (shape : Shape Node) : Progress :=
  { p.closed right.node.span shape with inserted := right.inserted }

end Progress

/-- Whether `??` meets another logical operator without parentheses. -/
def mixesNullish (logical : Option BinaryOperator) (operator : Operator) : Bool :=
  match logical, operator with
  | some before, .binary op =>
    op.isLogical && (before == .nullishCoalescing) != (op == .nullishCoalescing)
  | _, _ => false

/-- The logical operator at the root once this operator was read. -/
def logicalAtRoot : Operator → Option BinaryOperator
  | .binary op => if op.isLogical then some op else none
  | _ => none

/-- How tight the right operand of an operator has to bind. A bare `&&` is kept out of the right
operand of `??`. -/
def rightMinimum : Operator → Nat
  | .binary .nullishCoalescing => BinaryOperator.logicalAnd.precedence + 1
  | operator => operator.operandPrecedence

/-- What follows an operator, which was just read. -/
def rightOf (rules : Rules) (f : Frame) (e : Extent) (p : Progress) (operator : Operator)
    (t : Token) : Parse Progress := do
  let right := rules.expression f (e.atLeast (rightMinimum operator))
  match operator with
  | .call isOptional =>
    let arguments ← arguments rules f
    let close ← expectPunctuator .closeParenthesis
    return p.closed close.span (.call isOptional false p.left arguments)
  | .index isOptional =>
    let (value, close) ← subscript rules f
    return p.closed close.span (.index isOptional false p.left value)
  | .member isOptional =>
    let name ← memberName
    return p.closed name.span (.member isOptional false p.left name.text)
  | .conditional =>
    let consequent ← rules.single f [.colon]
    let _ ← expectPunctuator .colon
    let alternate ← rules.expression f e.assignment
    return p.taking alternate (.conditional p.left consequent alternate.node)
  | .comma =>
    let right ← right
    return p.taking right (.sequence (p.left.elements ++ [right.node]))
  | .assignment op =>
    let target ← check (assignmentTarget op p.left)
    let right ← right
    return p.taking right (.assignment op target right.node)
  | .binary op =>
    let right ← right
    return p.taking right (.binary op p.left right.node)
  | _ => unexpected t

/-- One more operator, if it belongs to the expression. -/
def operation (rules : Rules) (f : Frame) (e : Extent) (p : Progress) :
    Parse (Round Progress Reading) := do
  if p.inserted then return .done p.reading
  else
    let place ← mark
    let t ← next
    let leave (p : Progress) : Parse (Round Progress Reading) := do
      rewind place
      return .done p.reading
    let closing (precedence : Nat) (read : Parse Progress) : Parse (Round Progress Reading) := do
      if precedence < e.minimum then leave p
      else if p.isLoose then unexpected t
      else return .again (← read)
    let update (op : PostfixOperator) : Parse (Round Progress Reading) :=
      closing postfixPrecedence do
        check (checkUpdate p.left)
        return p.closed t.span (.postfixed op p.left)
    let ends := e.mayInsert && (t.afterNewline || t.kind == .punctuator .closeBrace ||
      t.kind == .endOfInput)
    if e.stops.contains t.kind then leave p
    else
      match t.kind, t.kind.operator?, t.afterNewline with
      | .punctuator .doublePlus, _, false => update .increment
      | .punctuator .doubleHyphen, _, false => update .decrement
      | .template _, _, _ =>
        closing memberPrecedence do
          let (parts, span) ← templateParts rules f t
          return p.closed span (.taggedTemplate p.left parts)
      | _, none, _ => if ends then leave { p with inserted := true } else unexpected t
      | _, some operator, newline =>
        if operator.precedence < e.minimum then leave p
        else if p.isLoose && assignmentPrecedence < operator.precedence then
          if e.mayInsert && newline then leave { p with inserted := true } else unexpected t
        else if mixesNullish p.logical operator then
          refuse (t.error .nullishCoalescingMixedWithLogical)
        else
          return .again
            (← rightOf rules f e { p with logical := logicalAtRoot operator } operator t)

/-- An expression. -/
def expression (rules : Rules) (f : Frame) (e : Extent) : Parse Reading := do
  let first ← operand rules f e
  iterate (operation rules f e) rules.bound (.ofOperand first)

end ScriptMin.Grammar
