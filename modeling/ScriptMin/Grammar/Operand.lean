import ScriptMin.Grammar.Arrow
import ScriptMin.Grammar.Class
import ScriptMin.Grammar.Target
import ScriptMin.Literal.Escape

/-!
# Operands

What an operator can stand beside: names, literals, groups in parentheses, functions and classes,
and the operators that stand before their operand. `construct` reads a `new`, which takes the
accesses after it and the first arguments.
-/

namespace ScriptMin.Grammar

open Parse

/-! ## Arguments and literals -/

/-- The arguments of a call up to the closing parenthesis, which is left. -/
def arguments (rules : Rules) (f : Frame) : Parse (List Node) := do
  let reversed ← iterate
    (fun (read : List Node) => do
      if ← atPunctuator .closeParenthesis then return Round.done read
      else
        let spread ← takeIf (· == .punctuator .ellipsis)
        let value ← rules.single f [.comma, .closeParenthesis]
        let span := (spread.map fun t => t.span.cover value.span).getD value.span
        let read := ⟨span, .argument spread.isSome value⟩ :: read
        if ← tookPunctuator .comma then return .again read else return .done read)
    rules.bound []
  return reversed.reverse

/-- An array literal after its opening bracket. -/
def arrayLiteral (rules : Rules) (f : Frame) (first : Token) : Parse Node := do
  let reversed ← iterate
    (fun (read : List (ArrayElement Node)) => do
      if ← tookPunctuator .comma then return Round.again (.hole :: read)
      else if ← atPunctuator .closeBracket then return .done read
      else
        let isSpread ← tookPunctuator .ellipsis
        let value ← rules.single f [.comma, .closeBracket]
        let read := (if isSpread then .spread value else .item value) :: read
        if ← atPunctuator .closeBracket then return .done read
        else
          let _ ← expectPunctuator .comma
          return .again read)
    rules.bound []
  let close ← expectPunctuator .closeBracket
  return ⟨first.span.cover close.span, .arrayLiteral reversed.reverse⟩

/-- What a member of an object literal stands for. A key without a value is a shorthand. -/
def objectMemberContent : Key Node → MemberValue Node → ObjectMember Node
  | .direct name, .property none => .shorthand name
  | key, value => .valued key value

/-- An object literal after its opening brace. -/
def objectLiteral (rules : Rules) (f : Frame) (first : Token) : Parse Node := do
  let reversed ← iterate
    (fun (read : List Node) => do
      if ← atPunctuator .closeBrace then return Round.done read
      else
        let place ← mark
        let content ←
          if ← tookPunctuator .ellipsis then
            pure (.spread (← rules.single f [.comma, .closeBrace]))
          else
            let (key, value) ← member rules f .object
            pure (objectMemberContent key value)
        let read := ⟨← spanFrom place, .objectMember content⟩ :: read
        if ← atPunctuator .closeBrace then return .done read
        else
          let _ ← expectPunctuator .comma
          return .again read)
    rules.bound []
  let close ← expectPunctuator .closeBrace
  return ⟨first.span.cover close.span, .objectLiteral reversed.reverse⟩

/-- The characters of a piece of a template between its delimiters. -/
def templateText (t : Token) (isHead : Bool) : String :=
  let text := if isHead then t.text.toList.tail else t.text.toList
  String.ofList (if t.kind == .template true then text.dropLast else text.dropLast.dropLast)

/-- The parts of a template after its first piece, and the span of the whole. -/
def templateParts (rules : Rules) (f : Frame) (head : Token) :
    Parse (List (TemplatePart Node) × Source.Span) := do
  let (reversed, last) ← iterate
    (fun ((read, piece) : List (TemplatePart Node) × Token) => do
      if piece.kind == .template true then return Round.done (read, piece)
      else
        let value ← rules.whole f .closeBrace
        let _ ← expectPunctuator .closeBrace
        let piece ← templateTail
        return .again (.text (templateText piece false) :: .substitution value :: read, piece))
    rules.bound ([.text (templateText head true)], head)
  return (reversed.reverse, head.span.cover last.span)

/-- A string literal. It is kept as it was written if its value is not all characters. -/
def stringLiteral (t : Token) : Parse (Shape Node) := do
  let (value, whole) ← require .invalidEscape t (Literal.stringValue? t.text.toList)
  return .stringLiteral (String.ofList value) (if whole then none else some t.text)

/-- A literal or a word that is an operand by itself. -/
def simpleOperand (f : Frame) (t : Token) : Parse Node := do
  let shape ←
    match t.kind with
    | .word .superWord =>
      if f.allowsSuper then pure .superExpression else refuse (t.error .superOutsideMethod)
    | .word .thisWord => pure .thisExpression
    | .word .trueWord => pure (.booleanLiteral true)
    | .word .falseWord => pure (.booleanLiteral false)
    | .word .nullWord => pure .nullLiteral
    | .number => do
      check (checkNumber f t)
      let value ← require .malformedNumber t (Literal.numberValue? t.text.toList)
      pure (.numberLiteral value)
    | .bigInt => do
      let digits ← require .malformedNumber t (Literal.bigIntDigits? t.text.toList)
      pure (.bigIntLiteral (String.ofList digits))
    | .regex => pure (.regexLiteral t.text)
    | .string => stringLiteral t
    | _ => unexpected t
  return ⟨t.span, shape⟩

/-! ## Accesses, `new` and `import` -/

/-- The name after a dot. -/
def memberName : Parse Token := expectIn Kind.isMemberName

/-- The name after the dot of a meta property, which is fixed. -/
def metaName (isAllowed : Bool) (name : String) : Parse Token := do
  let t ← next
  if t.kind == .identifier && t.text == name && isAllowed then return t else unexpected t

/-- The expression of an index after its opening bracket, and the closing bracket. -/
def subscript (rules : Rules) (f : Frame) : Parse (Node × Token) := do
  let value ← rules.whole f .closeBracket
  return (value, ← expectPunctuator .closeBracket)

/-- An `import` that is an expression, after the word. -/
def importExpression (rules : Rules) (f : Frame) (first : Token) : Parse Node := do
  if ← tookPunctuator .dot then
    let name ← metaName true "meta"
    return ⟨first.span.cover name.span, .importMeta⟩
  else
    let _ ← expectPunctuator .openParenthesis
    let specifier ← rules.single f [.closeParenthesis]
    let close ← expectPunctuator .closeParenthesis
    return ⟨first.span.cover close.span, .importCall specifier⟩

/-- The accesses and templates after the operand of a `new`. A call is none of them. -/
def constructorAccesses (rules : Rules) (f : Frame) (callee : Node) : Parse Node :=
  iterate
    (fun (callee : Node) => do
      let t ← peek
      match t.kind with
      | .punctuator .dot =>
        skip
        let name ← memberName
        return Round.again
          ⟨callee.span.cover name.span, .member false false callee name.text⟩
      | .punctuator .openBracket =>
        skip
        let (value, close) ← subscript rules f
        return .again ⟨callee.span.cover close.span, .index false false callee value⟩
      | .template _ =>
        skip
        let (parts, span) ← templateParts rules f t
        return .again ⟨callee.span.cover span, .taggedTemplate callee parts⟩
      | _ => return .done callee)
    rules.bound callee

/-- A `yield` after the word. On a new line it has no operand. -/
def yieldOperand (rules : Rules) (f : Frame) (e : Extent) (t : Token) : Parse Operand := do
  if assignmentPrecedence < e.minimum then unexpected t
  else if f.inParameters then refuse (t.error .yieldInParameters)
  else
    let after ← peekIn .regex
    let delegates := after.kind == .punctuator .asterisk
    if after.afterNewline || !(delegates || startsOperand after.kind) then
      return ⟨⟨t.span, .yieldExpression false none⟩, true, false⟩
    else
      if delegates then skip
      let operand ← rules.expression f e.assignment
      return ⟨⟨t.span.cover operand.node.span, .yieldExpression delegates (some operand.node)⟩,
        true, operand.inserted⟩
where
  /-- Whether an operand of `yield` can start with a token of this kind. -/
  startsOperand (k : Kind) : Bool :=
    match k with
    | .punctuator .openBracket | .punctuator .openBrace | .punctuator .openParenthesis
    | .word .classWord | .word .functionWord | .word .importWord | .word .newWord
    | .word .superWord | .word .thisWord | .word .trueWord | .word .falseWord | .word .nullWord
    | .number | .bigInt | .string | .regex | .template _ => true
    | k => k.isBindingName || k.unaryOperator?.isSome

/-! ## All operands -/

/-- An operator before its operand. -/
def unaryOperand (rules : Rules) (f : Frame) (e : Extent) (t : Token) (operator : UnaryOperator) :
    Parse Operand := do
  let operand ← rules.expression f (e.atLeast unaryPrecedence)
  if operator.isUpdate then check (checkUpdate operand.node)
  return .ofReading operand ⟨t.span.cover operand.node.span, .unary operator operand.node⟩

/-- Marks an expression that stands in parentheses, where that is kept. -/
def markParenthesised (n : Node) : Node :=
  match n.shape with
  | .call isOptional _ callee arguments => n.withShape (.call isOptional true callee arguments)
  | .index isOptional _ object subscript => n.withShape (.index isOptional true object subscript)
  | .member isOptional _ object name => n.withShape (.member isOptional true object name)
  | _ => n

/-- What starts with a parenthesis. An arrow after it is refused where the parentheses are no
parameter list. -/
def parenthesisedOperand (rules : Rules) (f : Frame) (e : Extent) : Parse Operand := do
  match ← parenthesisedArrow? rules f e false none with
  | some operand => return operand
  | none =>
    let group := markParenthesised (← rules.parenthesised f)
    let after ← peek
    if after.kind == .punctuator .arrow then
      if group.any fun n => n.shape matches .yieldExpression .. then
        refuse ⟨.yieldInParameters, group.span.start⟩
      else unexpected after
    else return .plain group

/-- What starts with the word `async`: a function, an arrow function, or a variable of that
name. -/
def asyncOperand (rules : Rules) (f : Frame) (e : Extent) (place : Cursor) (t : Token) :
    Parse Operand := do
  let name := Operand.plain ⟨t.span, .identifier t.text⟩
  let after ← peek
  if after.afterNewline then return name
  else
    match after.kind with
    | .word .functionWord =>
      rewind place
      return .plain (← functionExpression rules f)
    | .punctuator .openParenthesis =>
      return (← parenthesisedArrow? rules f e true (some t.span)).getD name
    | kind =>
      if kind.isBindingName then singleParameterArrow rules f e true t.span (← next)
      else return name

/-- A name: a variable or the parameter of an arrow function. -/
def nameOperand (rules : Rules) (f : Frame) (e : Extent) (t : Token) : Parse Operand := do
  if ← atPunctuator .arrow then singleParameterArrow rules f e false t.span t
  else
    check (checkReference f (.ofToken t))
    return .plain ⟨t.span, .identifier t.text⟩

/-- An operand with the operators before it. -/
def operand (rules : Rules) (f : Frame) (e : Extent) : Parse Operand := do
  let place ← mark
  let t ← nextIn .regex
  match t.kind.unaryOperator? with
  | some operator => unaryOperand rules f e t operator
  | none =>
    match t.kind with
    | .word .newWord => return .plain (← rules.construct f t)
    | .word .asyncWord => asyncOperand rules f e place t
    | .word .functionWord =>
      rewind place
      return .plain (← functionExpression rules f)
    | .word .classWord =>
      rewind place
      return .plain (← classExpression rules f)
    | .word .importWord => return .plain (← importExpression rules f t)
    | .punctuator .openBracket => return .plain (← arrayLiteral rules f t)
    | .punctuator .openBrace => return .plain (← objectLiteral rules f t)
    | .punctuator .openParenthesis =>
      rewind place
      parenthesisedOperand rules f e
    | .template _ =>
      let (parts, span) ← templateParts rules f t
      return .plain ⟨span, .templateLiteral parts⟩
    | kind =>
      if kind == .word .awaitWord && f.isAsync then unaryOperand rules f e t .await
      else if kind == .word .yieldWord && f.generator then yieldOperand rules f e t
      else if kind.isBindingName then nameOperand rules f e t
      else return .plain (← simpleOperand f t)

/-- A `new` after the word, with the first arguments after it. -/
def construct (rules : Rules) (f : Frame) (first : Token) : Parse Node := do
  if ← tookPunctuator .dot then
    let name ← metaName f.inFunction "target"
    return ⟨first.span.cover name.span, .newTarget⟩
  else
    let inner ←
      match ← takeIf (· == .word .newWord) with
      | some t => rules.construct f t
      | none => pure (← operand rules f ⟨memberPrecedence, [], false⟩).node
    let callee ← constructorAccesses rules f inner
    if ← tookPunctuator .openParenthesis then
      let arguments ← arguments rules f
      let close ← expectPunctuator .closeParenthesis
      return ⟨first.span.cover close.span, .construct callee arguments⟩
    else return ⟨first.span.cover callee.span, .construct callee []⟩

end ScriptMin.Grammar
