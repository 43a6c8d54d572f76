import ScriptMin.Grammar.Function
import ScriptMin.Grammar.Pattern

/-!
# Members and classes

Members of classes and of object literals are written alike: modifiers, a key, and then parameters
and a body, or a value. They differ in what separates the key from the value and one member from the
next.
-/

namespace ScriptMin.Grammar

open Parse

/-- Where a member stands. -/
inductive MemberHost where
  | object
  | classBody
deriving DecidableEq, Repr

namespace MemberHost

/-- What stands between a key and a value. -/
def valueMark : MemberHost → Punctuator
  | .object => .colon
  | .classBody => .equals

/-- What ends a member. -/
def separator : MemberHost → Punctuator
  | .object => .comma
  | .classBody => .semicolon

end MemberHost

/-! ## Modifiers -/

/-- A word before a key. -/
inductive Modifier where
  | getter
  | setter
  | isAsync
deriving DecidableEq, Repr

def Modifier.ofKind? : Kind → Option Modifier
  | .word .getWord => some .getter
  | .word .setWord => some .setter
  | .word .asyncWord => some .isAsync
  | _ => none

/-- Whether the token before `t` is no modifier but the key itself. -/
def endsKey (host : MemberHost) (t : Token) : Bool :=
  [host.valueMark, host.separator, .openParenthesis, .closeBrace, .equals, .semicolon].any
    fun p => t.kind == .punctuator p

/-- The modifier of a member, if it has one. -/
def modifier (host : MemberHost) : Parse (Option Modifier) := do
  let place ← mark
  let first ← takeIf fun k => (Modifier.ofKind? k).isSome
  match first.bind fun t => Modifier.ofKind? t.kind with
  | none => return none
  | some m =>
    let after ← peek
    if endsKey host after || (m == .isAsync && after.afterNewline) then
      rewind place
      return none
    else return some m

/-- Whether a member of a class is static. The word can also be the key of the member. -/
def staticModifier : Parse Bool := do
  let place ← mark
  if ← tookWord .staticWord then
    match (← peek).kind with
    | .punctuator .openParenthesis | .punctuator .equals | .punctuator .semicolon
    | .punctuator .closeBrace =>
      rewind place
      return false
    | _ => return true
  else return false

/-! ## Values -/

def getter (rules : Rules) (f : Frame) : Parse (MemberValue Node) := do
  let _ ← expectPunctuator .openParenthesis
  let _ ← expectPunctuator .closeParenthesis
  let (body, _) ← functionBody rules (f.method false false)
  return .getter body

def setter (rules : Rules) (f : Frame) : Parse (MemberValue Node) := do
  let inner := f.method false false
  let _ ← expectPunctuator .openParenthesis
  let parameter ← rules.pattern inner.parameters .parameter
  let _ ← expectPunctuator .closeParenthesis
  let (body, strict) ← functionBody rules inner
  check (checkParameterNames f.strict strict true [] (boundNames parameter))
  return .setter parameter body

def method (rules : Rules) (f : Frame) (isAsync generator : Bool) : Parse (MemberValue Node) := do
  let parts ← functionParts rules f (f.method generator isAsync) true
  return .method isAsync generator parts.parameters parts.body

/-- Whether a member without a value ends before `t`. -/
def endsMember (host : MemberHost) (t : Token) : Bool :=
  t.kind == .punctuator .closeBrace || t.kind == .punctuator host.separator ||
    (host == .classBody && t.afterNewline)

/-- The value of a property with this key, whose first token is `first`. In an object a key alone is
the variable of that name. A field of a class is evaluated like the body of a method. -/
def property (rules : Rules) (f : Frame) (host : MemberHost) (first : Token) (key : Key Node) :
    Parse (MemberValue Node) := do
  let isBare ←
    match key with
    | .direct _ => pure (endsMember host (← peek))
    | .computed _ => pure false
  if isBare then
    if host == .object then
      if first.kind.isBindingName then check (checkReference f (.ofToken first))
      else unexpected (← peek)
    return .property none
  else
    let _ ← expectPunctuator host.valueMark
    let extent := Extent.single [host.separator, .closeBrace]
    match host with
    | .object => return .property (some (← rules.expression f extent).node)
    | .classBody =>
      let value ← rules.expression (f.method false false) { extent with mayInsert := true }
      return .property (some value.node)

/-- A member: its key and its value. -/
def member (rules : Rules) (f : Frame) (host : MemberHost) :
    Parse (Key Node × MemberValue Node) := do
  let modifier ← modifier host
  if modifier == some .getter || modifier == some .setter then
    if ← atPunctuator .asterisk then unexpected (← peek)
  let generator ← tookPunctuator .asterisk
  let first ← peek
  let key ← key rules f
  match modifier with
  | some .getter => return (key, ← getter rules f)
  | some .setter => return (key, ← setter rules f)
  | some .isAsync => return (key, ← method rules f true generator)
  | none =>
    let isMethod ← if generator then pure true else atPunctuator .openParenthesis
    if isMethod then
      return (key, ← method rules f false generator)
    else return (key, ← property rules f host first key)

/-! ## Classes -/

/-- The members of a class in braces, and the closing brace. -/
def classBody (rules : Rules) (f : Frame) : Parse (List (ClassMember Node) × Token) := do
  let _ ← expectPunctuator .openBrace
  let reversed ← iterate
    (fun (read : List (ClassMember Node)) => do
      if ← atPunctuator .closeBrace then return Round.done read
      else if ← tookPunctuator .semicolon then return .again read
      else
        let isStatic ← staticModifier
        let (key, value) ← member rules f .classBody
        let _ ← tookPunctuator .semicolon
        return .again (⟨key, isStatic, value⟩ :: read))
    rules.bound []
  return (reversed.reverse, ← expectPunctuator .closeBrace)

/-- A class from its first token on. All of it is strict code. -/
def classFrom (rules : Rules) (f : Frame) (needsName : Bool)
    (shape : Option Node → Option Node → List (ClassMember Node) → Shape Node) : Parse Node := do
  let first ← expectWord .classWord
  let f := f.classBody
  let name ← takeIf Kind.isBindingName
  match name with
  | some t => check (checkBinding f .declaration (.ofToken t))
  | none => if needsName then unexpected (← peek)
  let parent ←
    if ← tookWord .extendsWord then pure (some (← rules.whole f .openBrace)) else pure none
  let (members, close) ← classBody rules f
  return ⟨first.span.cover close.span, shape (name.map definitionNode) parent members⟩

def classExpression (rules : Rules) (f : Frame) : Parse Node :=
  classFrom rules f false .classExpression

def classDeclaration (rules : Rules) (f : Frame) (needsName : Bool) : Parse Node :=
  classFrom rules f needsName .classDeclaration

end ScriptMin.Grammar
