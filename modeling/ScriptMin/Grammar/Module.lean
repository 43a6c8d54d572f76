import ScriptMin.Grammar.Class
import ScriptMin.Grammar.Operand
import ScriptMin.Grammar.Variables

/-!
# Imports and exports

The declarations that tie a module to others. An import binds names and an export shows them; both
have the same lists of names in braces.
-/

namespace ScriptMin.Grammar

open Parse

/-- The value of a string that names a module. -/
def moduleSource : Parse String := do
  let t ← expect .string
  let (value, _) ← require .invalidEscape t (Literal.stringValue? t.text.toList)
  return String.ofList value

/-- A name that an import binds. -/
def importedName (f : Frame) : Parse Node := do
  let t ← expectIn Kind.isBindingName
  check (checkBinding f .declaration (.ofToken t))
  return bindingNode t

/-- An imported name, with the name it is bound to. Without one, it has to be a name that can be
bound. -/
def importName (f : Frame) : Parse (ModuleName Node) := do
  let target ← expectIn Kind.isName
  if ← tookWord .asWord then return ⟨target.text, ← importedName f⟩
  else if !target.kind.isBindingName then unexpected target
  else
    check (checkBinding f .declaration (.ofToken target))
    return ⟨target.text, bindingNode target⟩

/-- An exported name, with the name it is seen by. -/
def exportName : Parse (ModuleName Node) := do
  let target ← expectIn Kind.isName
  let asName ← if ← tookWord .asWord then expectIn Kind.isName else pure target
  return ⟨target.text, bindingNode asName⟩

/-- A list of names in braces. -/
def moduleNames (bound : Nat) (name : Parse (ModuleName Node)) :
    Parse (List (ModuleName Node)) := do
  let _ ← expectPunctuator .openBrace
  let reversed ← iterate
    (fun (read : List (ModuleName Node)) => do
      if ← tookPunctuator .closeBrace then return Round.done read
      else
        let read := (← name) :: read
        if ← tookPunctuator .comma then return .again read
        else
          let _ ← expectPunctuator .closeBrace
          return .done read)
    bound []
  return reversed.reverse

/-! ## Imports -/

/-- Whether an `import` at the next token is an expression. -/
def startsImportExpression : Parse Bool := do
  let second ← peekSecond
  return second.kind == .punctuator .openParenthesis || second.kind == .punctuator .dot

/-- The names of an import after its default name. -/
def importNames (rules : Rules) (f : Frame) : Parse (ModuleNames Node) := do
  if ← tookPunctuator .asterisk then
    let _ ← expectWord .asWord
    return .all (some (← importedName f))
  else return .listed (← moduleNames rules.bound (importName f))

/-- What an import binds, up to the word `from`. -/
def importBindings (rules : Rules) (f : Frame) :
    Parse (Option Node × Option (ModuleNames Node)) := do
  if (← peek).kind.isBindingName then
    let name ← importedName f
    if ← tookPunctuator .comma then return (some name, some (← importNames rules f))
    else return (some name, none)
  else return (none, some (← importNames rules f))

/-- An import. One that names only the module runs it. -/
def importDeclaration (rules : Rules) (f : Frame) : Parse Node := do
  let start ← mark
  let _ ← expectWord .importWord
  let (defaultName, names) ←
    if (← peek).kind == .string then pure (none, none)
    else
      let bindings ← importBindings rules f
      let _ ← expectWord .fromWord
      pure bindings
  let source ← moduleSource
  endStatement
  return ⟨← spanFrom start, .importDeclaration defaultName names source⟩

/-! ## Exports -/

/-- A list of exported names after the word `export`. -/
def exportNames (rules : Rules) : Parse (Shape Node) := do
  let names ← moduleNames rules.bound exportName
  let source ← if ← tookWord .fromWord then pure (some (← moduleSource)) else pure none
  endStatement
  return .exportList (.listed names) source

/-- An export of everything that another module exports, after its asterisk. -/
def exportAll : Parse (Shape Node) := do
  let asName ←
    if ← tookWord .asWord then pure (some (bindingNode (← expectIn Kind.isName))) else pure none
  let _ ← expectWord .fromWord
  let source ← moduleSource
  endStatement
  return .exportList (.all asName) (some source)

/-- A default export after the word `default`. Functions and classes are declarations here, and may
do without a name. -/
def exportDefault (rules : Rules) (f : Frame) : Parse (Shape Node) := do
  let t ← peek
  let isFunction ←
    if t.kind == .word .functionWord then pure true else startsAsyncFunction
  if isFunction then
    return .exportDeclaration (← functionDeclaration rules f false) true
  else if t.kind == .word .classWord then
    return .exportDeclaration (← classDeclaration rules f false) true
  else
    let value ← rules.expression f Extent.ofStatement.assignment
    if !value.inserted then endStatement
    return .exportDefault value.node

/-- Whether a declaration of `t` can be exported. -/
def startsExportable (t : Token) : Bool :=
  match t.kind with
  | .word .varWord | .word .letWord | .word .constWord | .word .functionWord | .word .asyncWord
  | .word .classWord => true
  | _ => false

/-- An exported declaration at the token `t`. -/
def exportDeclaration (rules : Rules) (f : Frame) (t : Token) : Parse (Shape Node) := do
  let declaration ← rules.statement f
  match declaration.shape with
  | .variableStatement _ | .functionDeclaration .. | .classDeclaration .. =>
    return .exportDeclaration declaration false
  | _ => unexpected t

/-- An export. -/
def exportStatement (rules : Rules) (f : Frame) : Parse Node := do
  let start ← mark
  let _ ← expectWord .exportWord
  let place ← mark
  let t ← next
  let shape ←
    match t.kind with
    | .punctuator .openBrace =>
      rewind place
      exportNames rules
    | .punctuator .asterisk => exportAll
    | .word .defaultWord => exportDefault rules f
    | _ =>
      if startsExportable t then
        rewind place
        exportDeclaration rules f t
      else unexpected t
  return ⟨← spanFrom start, shape⟩

end ScriptMin.Grammar
