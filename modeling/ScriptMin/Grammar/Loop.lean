import ScriptMin.Grammar.Target
import ScriptMin.Grammar.Variables

/-!
# Loops

The loops of the language. The head of a `for` is known by what follows its first part: `of` and
`in` make it a loop over elements or keys, and a semicolon a loop with steps.
-/

namespace ScriptMin.Grammar

open Parse

/-- What stands first in the head of a `for`. -/
inductive HeadStart where
  | declaration (n : Node)
  | expression (n : Node)
  | nothing

def headStart (rules : Rules) (f : Frame) : Parse HeadStart := do
  if ← startsVariables then return .declaration (← variableDeclaration rules f .loopHead)
  else if ← atPunctuator .semicolon then return .nothing
  else
    return .expression (← rules.expression f ⟨commaPrecedence, loopHeadStops, false⟩).node

/-- What a loop over elements or keys assigns to, before the word `t`. -/
def forTarget (t : Token) : HeadStart → Parse (ForTarget Node)
  | .nothing => unexpected t
  | .declaration n =>
    match n.shape with
    | .variableDeclaration _ [_] => return .declaration n
    | _ => unexpected t
  | .expression n => return .pattern (← check (assignmentTarget .assign n))

/-- The head of a loop over elements or keys, from its word on. -/
def eachHead (rules : Rules) (f : Frame) (awaits : Bool) (start : HeadStart) :
    Parse (ForHead Node) := do
  let t ← next
  let isOf := t.kind == .word .ofWord
  if awaits && !isOf then unexpected t
  else
    let target ← forTarget t start
    let subject ←
      if isOf then rules.single f [.closeParenthesis] else rules.whole f .closeParenthesis
    let _ ← expectPunctuator .closeParenthesis
    return .each isOf awaits target subject

/-- A part of a head up to the punctuator that ends it, which is consumed. -/
def optionalPart (rules : Rules) (f : Frame) (stop : Punctuator) : Parse (Option Node) := do
  if ← tookPunctuator stop then return none
  else
    let value ← rules.whole f stop
    let _ ← expectPunctuator stop
    return some value

/-- The head of a loop with steps, from its first semicolon on. -/
def steppedHead (rules : Rules) (f : Frame) (start : HeadStart) : Parse (ForHead Node) := do
  let _ ← expectPunctuator .semicolon
  let init :=
    match start with
    | .declaration n => ForInit.declaration n
    | .expression n => .expression n
    | .nothing => .none
  let condition ← optionalPart rules f .semicolon
  let post ← optionalPart rules f .closeParenthesis
  return .stepped init condition post

/-- The head of a `for` with its parentheses. -/
def forHead (rules : Rules) (f : Frame) (awaits : Bool) : Parse (ForHead Node) := do
  let _ ← expectPunctuator .openParenthesis
  let start ← headStart rules f
  let t ← peek
  if t.kind == .word .ofWord || t.kind == .word .inWord then eachHead rules f awaits start
  else if awaits then unexpected t
  else steppedHead rules f start

def forLoop (rules : Rules) (f : Frame) : Parse Node := do
  let first ← expectWord .forWord
  let t ← peek
  let awaits := t.kind == .word .awaitWord
  if awaits then
    if !f.isAsync then unexpected t
    skip
  let head ← forHead rules f awaits
  let body ← rules.statement f.loopBody
  return ⟨first.span.cover body.span, .forLoop head body⟩

def whileLoop (rules : Rules) (f : Frame) : Parse Node := do
  let first ← expectWord .whileWord
  let condition ← rules.parenthesised f
  let body ← rules.statement f.loopBody
  return ⟨first.span.cover body.span, .whileLoop condition body⟩

/-- A `do` loop. The semicolon after it may always be left out. -/
def doWhileLoop (rules : Rules) (f : Frame) : Parse Node := do
  let first ← expectWord .doWord
  let body ← rules.statement f.loopBody
  let _ ← expectWord .whileWord
  let _ ← expectPunctuator .openParenthesis
  let condition ← rules.whole f .closeParenthesis
  let close ← expectPunctuator .closeParenthesis
  let _ ← tookPunctuator .semicolon
  return ⟨first.span.cover close.span, .doWhileLoop body condition⟩

end ScriptMin.Grammar
