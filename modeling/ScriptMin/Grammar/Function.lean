import ScriptMin.Grammar.Rules

/-!
# Functions

Parameters, bodies and the functions made of them. A body can make its function strict by a
directive, which also counts for the names that were read before it, so those are checked again
when the body is known.
-/

namespace ScriptMin.Grammar

open Parse

/-- The name of a function or class where a token stands. -/
def definitionNode (t : Token) : Node := ⟨t.span, .definitionName t.text⟩

/-! ## Parameters and bodies -/

/-- A parameter list with its parentheses, in the frame of its function. Nothing follows a parameter
that takes the rest. -/
def signature (rules : Rules) (f : Frame) : Parse Node := do
  let start ← mark
  let _ ← expectPunctuator .openParenthesis
  let reversed ← iterate
    (fun (read : List Node) => do
      let place ← mark
      if ← tookPunctuator .closeParenthesis then return Round.done read
      else
        let isRest ← tookPunctuator .ellipsis
        let pattern ← rules.pattern f.parameters .parameter
        let fallback ← rules.fallback f.parameters .closeParenthesis
        let read := ⟨← spanFrom place, .parameter isRest pattern fallback⟩ :: read
        let more ← if isRest then pure false else tookPunctuator .comma
        if more then return .again read
        else
          let _ ← expectPunctuator .closeParenthesis
          return .done read)
    rules.bound []
  return ⟨← spanFrom start, .signature reversed.reverse⟩

/-- Whether a token on a new line goes on with the expression before it. -/
def continuesExpression (k : Kind) : Bool :=
  k.operator?.isSome || k.isTemplate

/-- The directive at the next token, if it is one: a string that is a whole statement. -/
def directive : Parse (Option Token) := do
  let place ← mark
  let t ← next
  let ends ←
    if t.kind != .string then pure false
    else
      let after ← peek
      match after.kind with
      | .punctuator .semicolon =>
        skip
        pure true
      | .punctuator .closeBrace | .endOfInput => pure true
      | kind => pure (after.afterNewline && !continuesExpression kind)
  if ends then return some t
  else
    rewind place
    return none

/-- The directives at the start of a body or of a program, and whether the code after them is
strict. Only the exact text of the directive makes it so. -/
def prologue (bound : Nat) (strict : Bool) : Parse (List Node × Bool) := do
  let directives ← collect bound directive
  return (directives.map fun t => ⟨t.span, .directive t.text⟩,
    strict || directives.any (·.shown == "use strict"))

/-- The statements up to a closing brace, which is consumed, and that brace. -/
def statements (rules : Rules) (f : Frame) : Parse (List Node × Token) := do
  let (reversed, close) ← iterate
    (fun (read : List Node) => do
      match ← takeIf (· == .punctuator .closeBrace) with
      | some close => return Round.done (read, close)
      | none => return .again ((← rules.statement f) :: read))
    rules.bound []
  return (reversed.reverse, close)

/-- The body of a function in its frame, and whether it is strict. -/
def functionBody (rules : Rules) (f : Frame) : Parse (Node × Bool) := do
  let first ← expectPunctuator .openBrace
  let (directives, strict) ← prologue rules.bound f.strict
  let (body, close) ← statements rules { f with strict }
  return (⟨first.span.cover close.span, .block (directives ++ body)⟩, strict)

/-- The parameters and the body of a function. `becameStrict` says that the body is strict and the
code around the function is not. -/
structure FunctionParts where
  parameters : Node
  body : Node
  becameStrict : Bool

/-- The parameters and the body of a function with the frame `inner` in code with the frame
`outer`. -/
def functionParts (rules : Rules) (outer inner : Frame) (unique : Bool) :
    Parse FunctionParts := do
  let parameters ← signature rules inner
  let (body, strict) ← functionBody rules inner
  check (checkParameters outer.strict strict unique parameters)
  return ⟨parameters, body, strict && !outer.strict⟩

/-! ## Functions with their heads -/

/-- Refuses `yield` as the name of a function that its body made strict. -/
def checkStrictName (parts : FunctionParts) (name : Option Token) : Except SyntaxError Unit :=
  match name with
  | some t => if parts.becameStrict then checkYield false true .declaration (.ofToken t) else .ok ()
  | none => .ok ()

/-- A function from its first token on, whose name passes a check. Both flags are handed to what
makes the shape. -/
def functionFrom (rules : Rules) (f : Frame)
    (checkName : Bool → Option Token → Parse Unit)
    (shape : Bool → Bool → Option Node → Node → Node → Shape Node) : Parse Node := do
  let start ← mark
  let isAsync ← tookWord .asyncWord
  let _ ← expectWord .functionWord
  let generator ← tookPunctuator .asterisk
  let name ← takeIf Kind.isBindingName
  checkName generator name
  let parts ← functionParts rules f (f.function generator isAsync) false
  check (checkStrictName parts name)
  return ⟨← spanFrom start,
    shape isAsync generator (name.map definitionNode) parts.parameters parts.body⟩

/-- A function expression. Its name is seen only inside it, so a generator forbids `yield`. -/
def functionExpression (rules : Rules) (f : Frame) : Parse Node :=
  functionFrom rules f
    (fun generator name =>
      match name with
      | some t => check (checkYield generator f.strict .declaration (.ofToken t))
      | none => pure ())
    .functionExpression

/-- A function declaration. Its name belongs to the code around it. -/
def functionDeclaration (rules : Rules) (f : Frame) (needsName : Bool) : Parse Node :=
  functionFrom rules f
    (fun _ name => do
      match name with
      | some t => check (checkBinding f .declaration (.ofToken t))
      | none => if needsName then unexpected (← peek))
    .functionDeclaration

end ScriptMin.Grammar
