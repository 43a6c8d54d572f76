import ScriptMin.Literal.Escape
import ScriptMin.Literal.Numeric
import ScriptMin.Rewrite.Basic
import ScriptMin.Rewrite.Effects

/-!
# Shorter spellings

The same expression in fewer characters: of `undefined`, of a member access by a constant name, and
of a key in quotes.
-/

namespace ScriptMin.Rewrite

open Source

/-- `yield undefined` is `yield`. A delegating `yield` needs its operand. -/
def shortenYield : Rule := fun context n =>
  match n.shape with
  | .yieldExpression false (some operand) =>
    if isUndefined context.bindsUndefined operand then
      some (n.withShape (.yieldExpression false none))
    else none
  | _ => none

/-- `undefined` and `void` before a literal are `void 0`. -/
def shortenUndefined : Rule := fun context n =>
  match n.shape with
  | .identifier _ | .unary .. =>
    if isUndefined context.bindsUndefined n then some (n.withShape .undefinedLiteral) else none
  | _ => none

/-- `a["b"]` is `a.b`, and `a["0"]` is `a[0]`. -/
def shortenAccess : Rule := fun _ n =>
  match n.shape with
  | .index isOptional parenthesised object ⟨span, .stringLiteral name none⟩ =>
    if isIdentifierName name.toList then
      some (n.withShape (.member isOptional parenthesised object name))
    else if isCanonicalIndex name.toList then do
      let value ← Literal.numberValue? name.toList
      some (n.withShape (.index isOptional parenthesised object ⟨span, .numberLiteral value⟩))
    else none
  | _ => none

/-- A quoted key without its quotes, where it is a plain name. -/
def unquotedKey? (raw : List Char) : Option (List Char) :=
  match raw with
  | quote :: rest =>
    if (quote == '\x22' || quote == '\x27') && rest.getLast? == some quote &&
        isIdentifierName rest.dropLast then
      some rest.dropLast
    else none
  | [] => none

/-- `{"a": 1}` is `{a: 1}`. -/
def shortenKey : Rule := fun _ n =>
  match n.shape with
  | .objectMember (.valued (.direct raw) value) =>
    (unquotedKey? raw.toList).map fun name =>
      n.withShape (.objectMember (.valued (.direct (String.ofList name)) value))
  | _ => none

end ScriptMin.Rewrite
