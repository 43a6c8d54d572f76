import ScriptMin.Grammar.Rules
import ScriptMin.Literal.Numeric

/-!
# Keys and patterns

Keys are read alike in patterns, classes and object literals. A pattern is a name, or a list of
patterns in braces or brackets; the patterns inside it are read through `Rules`.
-/

namespace ScriptMin.Grammar

open Parse

/-- The name of a binding where a token stands. -/
def bindingNode (t : Token) : Node := ⟨t.span, .bindingName t.text⟩

/-- Refuses a numeral with a redundant zero in strict code. -/
def checkNumber (f : Frame) (t : Token) : Except SyntaxError Unit :=
  if t.kind == .number && f.strict && Literal.isZeroLed t.text.toList then
    .error (t.error .legacyOctalInStrictMode)
  else .ok ()

/-- A key, in brackets or as it is written. -/
def key (rules : Rules) (f : Frame) : Parse (Key Node) := do
  if ← tookPunctuator .openBracket then
    let expression ← rules.whole f .closeBracket
    let _ ← expectPunctuator .closeBracket
    return .computed expression
  else
    let name ← expectIn Kind.isPropertyName
    check (checkNumber f name)
    return .direct name.text

/-- A name that a pattern binds. -/
def patternName (f : Frame) (kind : Binding) : Parse Node := do
  let t ← expectIn Kind.isBindingName
  check (checkBinding f kind (.ofToken t))
  return bindingNode t

/-- A property of a pattern in braces, from its first token on. Without a colon the key is also the
name that is bound. -/
def patternProperty (rules : Rules) (f : Frame) (kind : Binding) (first : Token) :
    Parse Node := do
  let key ← key rules f
  let (target, shorthand) ←
    if ← tookPunctuator .colon then pure (← rules.pattern f kind, false)
    else
      match key with
      | .direct _ =>
        if first.kind.isBindingName then
          check (checkBinding f kind (.ofToken first))
          pure (bindingNode first, true)
        else unexpected (← peek)
      | .computed _ => unexpected (← peek)
  let fallback ← rules.fallback f .closeBrace
  let last := fallback.getD target
  return ⟨first.span.cover last.span, .patternProperty key target fallback shorthand⟩

/-- The properties of a pattern in braces, and what takes the rest. -/
def patternProperties (rules : Rules) (f : Frame) (kind : Binding) :
    Parse (List Node × Option Node) := do
  let (reversed, rest) ← iterate
    (fun (read : List Node) => do
      let first ← peek
      if first.kind == .punctuator .closeBrace then return Round.done (read, none)
      else if ← tookPunctuator .ellipsis then return .done (read, some (← patternName f kind))
      else
        let property ← patternProperty rules f kind first
        if ← tookPunctuator .comma then return .again (property :: read)
        else return .done (property :: read, none))
    rules.bound []
  return (reversed.reverse, rest)

/-- The elements of a pattern in brackets, and what takes the rest. A comma where an element could
stand leaves a hole. -/
def patternElements (rules : Rules) (f : Frame) (kind : Binding) :
    Parse (List (Option (Defaulted Node)) × Option Node) := do
  let (reversed, rest) ← iterate
    (fun (read : List (Option (Defaulted Node))) => do
      if ← atPunctuator .closeBracket then return Round.done (read, none)
      else if ← tookPunctuator .ellipsis then return .done (read, some (← rules.pattern f kind))
      else if ← tookPunctuator .comma then return .again (none :: read)
      else
        let target ← rules.pattern f kind
        let fallback ← rules.fallback f .closeBracket
        if ← tookPunctuator .comma then return .again (some ⟨target, fallback⟩ :: read)
        else return .done (some ⟨target, fallback⟩ :: read, none))
    rules.bound []
  return (reversed.reverse, rest)

/-- A pattern. -/
def pattern (rules : Rules) (f : Frame) (kind : Binding) : Parse Node := do
  let t ← peek
  match t.kind with
  | .punctuator .openBrace =>
    skip
    let (properties, rest) ← patternProperties rules f kind
    let close ← expectPunctuator .closeBrace
    return ⟨t.span.cover close.span, .objectPattern properties rest⟩
  | .punctuator .openBracket =>
    skip
    let (elements, rest) ← patternElements rules f kind
    let close ← expectPunctuator .closeBracket
    return ⟨t.span.cover close.span, .arrayPattern elements rest⟩
  | _ => patternName f kind

end ScriptMin.Grammar
