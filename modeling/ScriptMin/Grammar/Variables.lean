import ScriptMin.Grammar.Rules

/-!
# Declarations of variables

`var`, `let` and `const` with their declarators, in a statement or in the head of a loop. In a head
the words `in` and `of` end a value, and nothing ends the declaration but what follows it.
-/

namespace ScriptMin.Grammar

open Parse

/-- Where variables are declared. -/
inductive VariablesPlace where
  | statement
  | loopHead
deriving DecidableEq, Repr

def variableKind? : Kind → Option VariableKind
  | .word .varWord => some .hoisted
  | .word .letWord => some .block
  | .word .constWord => some .constant
  | _ => none

/-- The tokens that end the head of a loop up to its first semicolon. -/
def loopHeadStops : List Kind :=
  [.punctuator .semicolon, .word .inWord, .word .ofWord]

/-- The reach of an initial value. -/
def VariablesPlace.extent : VariablesPlace → Extent
  | .statement => ⟨assignmentPrecedence, [.punctuator .semicolon, .punctuator .comma], true⟩
  | .loopHead => ⟨assignmentPrecedence, loopHeadStops, false⟩

/-- Whether a further declarator follows. A statement is ended here, by a semicolon or without
one. -/
def continuesVariables (place : VariablesPlace) (inserted : Bool) : Parse Bool := do
  match place with
  | .loopHead => tookPunctuator .comma
  | .statement =>
    if (← tookPunctuator .semicolon) || inserted then return false
    else
      let t ← peek
      if (t.afterNewline && t.kind != .punctuator .comma) || t.kind == .punctuator .closeBrace ||
          t.kind == .endOfInput then
        return false
      else
        let _ ← expectPunctuator .comma
        return true

/-- A declarator, and whether a semicolon was inserted after it. -/
def declarator (rules : Rules) (f : Frame) (place : VariablesPlace) :
    Parse (Declarator Node × Bool) := do
  let pattern ← rules.pattern f .declaration
  if ← tookPunctuator .equals then
    let value ← rules.expression f place.extent
    return (⟨pattern, some value.node⟩, value.inserted)
  else return (⟨pattern, none⟩, false)

/-- The span up to the end of a declarator. -/
def coverDeclarator (s : Source.Span) (d : Declarator Node) : Source.Span :=
  let s := s.cover d.pattern.span
  (d.initializer.map fun value => s.cover value.span).getD s

/-- A declaration of variables. -/
def variableDeclaration (rules : Rules) (f : Frame) (place : VariablesPlace) : Parse Node := do
  let first ← next
  match variableKind? first.kind with
  | none => unexpected first
  | some kind =>
    let reversed ← iterate
      (fun (read : List (Declarator Node)) => do
        let (d, inserted) ← declarator rules f place
        if ← continuesVariables place inserted then return Round.again (d :: read)
        else return .done (d :: read))
      rules.bound []
    let declarators := reversed.reverse
    return ⟨declarators.foldl coverDeclarator first.span, .variableDeclaration kind declarators⟩

/-- Whether the word `let` at the next token starts a declaration. It is a name otherwise. -/
def startsLet : Parse Bool := do
  let second ← peekSecond
  return second.kind.isBindingName || second.kind == .punctuator .openBracket ||
    second.kind == .punctuator .openBrace

/-- Whether a declaration of variables stands at the next token. -/
def startsVariables : Parse Bool := do
  match (← peek).kind with
  | .word .varWord | .word .constWord => return true
  | .word .letWord => startsLet
  | _ => return false

/-- Whether a function that is asynchronous stands at the next token. -/
def startsAsyncFunction : Parse Bool := do
  if (← peek).kind == .word .asyncWord then
    let second ← peekSecond
    return second.kind == .word .functionWord && !second.afterNewline
  else return false

end ScriptMin.Grammar
