import ScriptMin.Token.Basic

/-!
# Syntax errors

Why a source was refused, and where. `Cause.message` is the wording of each cause; hosts match on
it, so it never changes.
-/

namespace ScriptMin

/-- Why a source is no program. The causes up to `unterminatedTemplate` are found while a token is
formed, the others while the grammar is applied. -/
inductive Cause where
  | invalidEscape
  | lineTerminatorInRegex
  | lineTerminatorInString
  | malformedNumber
  | unexpectedCharacter (c : Char)
  | unterminatedComment
  | unterminatedRegex
  | unterminatedString
  | unterminatedTemplate
  | breakOutsideLoopOrSwitch
  | continueOutsideLoop
  | continueLabelNotLoop (label : String)
  | duplicateLabel (label : String)
  | duplicateParameter (name : String)
  | evalOrArgumentsInStrictMode (name : String)
  | invalidAssignmentTarget
  | lineTerminatorBeforeArrow
  | lineTerminatorAfterThrow
  | legacyOctalInStrictMode
  | nullishCoalescingMixedWithLogical
  | returnOutsideFunction
  | superOutsideMethod
  | tryWithoutCatchOrFinally
  | undefinedLabel (label : String)
  | unexpectedEnd
  | unexpectedToken (kind : Kind) (raw : String)
  | withInStrictMode
  | yieldIdentifierInGenerator
  | yieldLabelInGenerator
  | yieldIdentifierInStrictMode
  | yieldParameterInStrictMode
  | yieldInParameters
deriving DecidableEq, Repr

namespace Cause

/-- Whether the error lies in forming a token. -/
def isLexical : Cause → Bool
  | .invalidEscape | .lineTerminatorInRegex | .lineTerminatorInString | .malformedNumber
  | .unexpectedCharacter _ | .unterminatedComment | .unterminatedRegex | .unterminatedString
  | .unterminatedTemplate => true
  | _ => false

def message : Cause → String
  | .invalidEscape => "Invalid escape sequence"
  | .lineTerminatorInRegex => "Unterminated regular expression"
  | .lineTerminatorInString => "Unterminated string constant"
  | .malformedNumber => "Invalid number"
  | .unexpectedCharacter c => "Unexpected character '" ++ String.ofList [c] ++ "'"
  | .unterminatedComment => "Unterminated multiline comment"
  | .unterminatedRegex => "Unterminated regular expression"
  | .unterminatedString => "Unterminated string constant"
  | .unterminatedTemplate => "Unterminated template"
  | .breakOutsideLoopOrSwitch => "break not inside a loop or switch"
  | .continueOutsideLoop => "continue not inside a loop"
  | .continueLabelNotLoop label => "Continue label " ++ label ++ " does not refer to a loop"
  | .duplicateLabel label => "Label " ++ label ++ " defined twice"
  | .duplicateParameter name => "Parameter " ++ name ++ " declared twice"
  | .evalOrArgumentsInStrictMode name => "Unexpected " ++ name ++ " in strict mode"
  | .invalidAssignmentTarget => "Invalid assignment target"
  | .lineTerminatorBeforeArrow => "Unexpected newline before arrow"
  | .lineTerminatorAfterThrow => "Illegal newline after throw"
  | .legacyOctalInStrictMode => "Legacy octal literals are not allowed in strict mode"
  | .nullishCoalescingMixedWithLogical =>
    "Nullish coalescing cannot be mixed with || or && without parentheses"
  | .returnOutsideFunction => "'return' outside of function"
  | .superOutsideMethod => "'super' keyword outside a method"
  | .tryWithoutCatchOrFinally => "Missing catch or finally after try"
  | .undefinedLabel label => "Undefined label " ++ label
  | .unexpectedEnd => "Unexpected token: eof (end of input)"
  | .unexpectedToken kind raw => "Unexpected token: " ++ kind.category ++ " (" ++ raw ++ ")"
  | .withInStrictMode => "Strict mode code may not include a with statement"
  | .yieldIdentifierInGenerator => "Yield cannot be used as identifier inside generators"
  | .yieldLabelInGenerator => "Yield cannot be used as label inside generators"
  | .yieldIdentifierInStrictMode => "Unexpected yield identifier inside strict mode"
  | .yieldParameterInStrictMode => "Unexpected yield identifier as parameter inside strict mode"
  | .yieldInParameters => "Yield expression not allowed in formal parameter"

end Cause

/-- A cause and the byte offset where it was found. -/
structure SyntaxError where
  cause : Cause
  position : Nat
deriving DecidableEq, Repr

/-- The line and column of an error in the source it was found in. -/
def SyntaxError.lineColumn (e : SyntaxError) (source : List Char) : Nat × Nat :=
  Source.lineColumn source e.position

namespace Token

/-- The error that a cause makes of this token. -/
def error (t : Token) (cause : Cause) : SyntaxError :=
  ⟨cause, t.span.start⟩

/-- What a diagnostic shows of a token: a string without its quotes, and of `?.` with a bracket
only the first two characters. -/
def shown (t : Token) : String :=
  match t.kind with
  | .string => String.ofList t.text.toList.tail.dropLast
  | .punctuator .questionDotBracket | .punctuator .questionDotParenthesis => "?."
  | _ => t.text

/-- The error of a token that the grammar does not allow where it stands. -/
def unexpected (t : Token) : SyntaxError :=
  match t.kind with
  | .endOfInput => t.error .unexpectedEnd
  | kind => t.error (.unexpectedToken kind t.shown)

end Token

end ScriptMin
