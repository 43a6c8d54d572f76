import ScriptMin.Grammar.Function
import ScriptMin.Grammar.Pattern

/-!
# Arrow functions

An arrow function starts like a name or like an expression in parentheses. Parameters in parentheses
are therefore tried first and taken back if no arrow follows; from the arrow on there is no other
reading.
-/

namespace ScriptMin.Grammar

open Parse

/-- An operand, and whether a semicolon was inserted after it. A loose operand is an arrow function
or a `yield` without parentheses, which no tighter operator can take. -/
structure Operand where
  node : Node
  isLoose : Bool
  inserted : Bool

def Operand.plain (node : Node) : Operand := ⟨node, false, false⟩

/-- An operator before its operand. -/
def Operand.ofReading (r : Reading) (node : Node) : Operand := ⟨node, false, r.inserted⟩

/-- The arrow, which has to stand on the line of the parameters. -/
def arrow : Parse Token := do
  let t ← expectPunctuator .arrow
  if t.afterNewline then refuse (t.error .lineTerminatorBeforeArrow) else return t

/-- Refuses an arrow function where only a tighter operand may stand. -/
def checkArrow (e : Extent) (arrow : Token) : Parse Unit :=
  if assignmentPrecedence < e.minimum then unexpected arrow else pure ()

/-- The body of an arrow function, and whether it is strict: statements in braces or an
expression. -/
def arrowBody (rules : Rules) (f : Frame) (e : Extent) : Parse (Reading × Bool) := do
  if ← atPunctuator .openBrace then
    let (body, strict) ← functionBody rules f
    return (⟨body, false⟩, strict)
  else return (← rules.expression f e.assignment, f.strict)

/-- An arrow function from its body on. `start` is its first token or its parameter list. -/
def arrowFunction (rules : Rules) (f : Frame) (e : Extent) (isAsync : Bool) (start : Source.Span)
    (parameters : Node) : Parse Operand := do
  let (body, strict) ← arrowBody rules (f.arrow isAsync) e
  check (checkParameters f.strict strict true parameters)
  return ⟨⟨start.cover body.node.span, .arrowFunction isAsync parameters body.node⟩, true,
    body.inserted⟩

/-- An arrow function from the arrow on, with one parameter without parentheses. -/
def singleParameterArrow (rules : Rules) (f : Frame) (e : Extent) (isAsync : Bool)
    (start : Source.Span) (name : Token) : Parse Operand := do
  checkArrow e (← arrow)
  check (checkBinding (f.arrow isAsync) .parameter (.ofToken name))
  let parameter := ⟨name.span, .parameter false (bindingNode name) none⟩
  arrowFunction rules f e isAsync start ⟨name.span, .signature [parameter]⟩

/-- An arrow function from its parenthesis on, if it is one. The parameters are read with the
grammar of the generator around the function, so that `yield` is refused there. -/
def parenthesisedArrow? (rules : Rules) (f : Frame) (e : Extent) (isAsync : Bool)
    (start : Option Source.Span) : Parse (Option Operand) := do
  let head ← attempt (· == .lineTerminatorBeforeArrow) do
    let parameters ← signature rules { f.arrow isAsync with generator := f.generator }
    return (parameters, ← arrow)
  match head with
  | none => return none
  | some (parameters, arrow) =>
    checkArrow e arrow
    return some (← arrowFunction rules f e isAsync (start.getD parameters.span) parameters)

end ScriptMin.Grammar
