import ScriptMin.Grammar.Loop
import ScriptMin.Grammar.Module

/-!
# Statements

A statement is known by its first token, but for labels, which need the second one as well. Each
statement reads its own end, be it written or inserted.
-/

namespace ScriptMin.Grammar

open Parse

/-! ## Simple statements -/

/-- An expression up to the semicolon after it, which may be inserted. -/
def statementValue (rules : Rules) (f : Frame) : Parse Node := do
  let value ← rules.expression f .ofStatement
  if !value.inserted then
    let _ ← expectPunctuator .semicolon
  return value.node

def expressionStatement (rules : Rules) (f : Frame) : Parse Node := do
  let value ← statementValue rules f
  return ⟨value.span, .expressionStatement value⟩

def variableStatement (rules : Rules) (f : Frame) : Parse Node := do
  let declaration ← variableDeclaration rules f .statement
  return ⟨declaration.span, .variableStatement declaration⟩

def emptyStatement : Parse Node := do
  let t ← expectPunctuator .semicolon
  return ⟨t.span, .emptyStatement⟩

def debuggerStatement : Parse Node := do
  let t ← expectWord .debuggerWord
  endStatement
  return ⟨t.span, .debuggerStatement⟩

/-- A `return`. Without a value it ends its line, its block or the input, or a semicolon follows. -/
def returnStatement (rules : Rules) (f : Frame) : Parse Node := do
  let first ← expectWord .returnWord
  if !f.inFunction then refuse (first.error .returnOutsideFunction)
  else
    let after ← peek
    let isBare ←
      if after.afterNewline || after.kind == .punctuator .closeBrace ||
          after.kind == .endOfInput then pure true
      else tookPunctuator .semicolon
    if isBare then
      return ⟨first.span, .returnStatement none⟩
    else
      let value ← statementValue rules f
      return ⟨first.span.cover value.span, .returnStatement (some value)⟩

/-- A `throw`, whose value stands on the same line. -/
def throwStatement (rules : Rules) (f : Frame) : Parse Node := do
  let first ← expectWord .throwWord
  if (← peek).afterNewline then refuse (first.error .lineTerminatorAfterThrow)
  else
    let value ← statementValue rules f
    return ⟨first.span.cover value.span, .throwStatement value⟩

/-! ## Labels and jumps -/

/-- The two statements that leave a loop or go on with it. -/
inductive Jump where
  | leave
  | again
deriving DecidableEq, Repr

namespace Jump

def word : Jump → Word
  | .leave => .breakWord
  | .again => .continueWord

def shape : Jump → Option String → Shape Node
  | .leave => .breakStatement
  | .again => .continueStatement

/-- Refuses a jump without a label, at the token `first`, where there is nothing to jump out of. -/
def checkPlain (j : Jump) (f : Frame) (first : Token) : Except SyntaxError Unit :=
  match j with
  | .leave =>
    if f.inLoop || f.inSwitch then .ok () else .error (first.error .breakOutsideLoopOrSwitch)
  | .again => if f.inLoop then .ok () else .error (first.error .continueOutsideLoop)

/-- Refuses a jump to a label that is not around it. Only a loop can be gone on with. -/
def checkLabelled (j : Jump) (f : Frame) (label : Token) : Except SyntaxError Unit := do
  checkLabel f label
  match f.findLabel? label.text with
  | none => .error (label.error (.undefinedLabel label.text))
  | some l =>
    if j == .again && !l.isLoop then .error (label.error (.continueLabelNotLoop label.text))

end Jump

/-- A `break` or `continue`. A label stands on the same line. -/
def jumpStatement (f : Frame) (j : Jump) : Parse Node := do
  let first ← expectWord j.word
  let after ← peek
  if after.kind.isBindingName && !after.afterNewline then
    skip
    check (j.checkLabelled f after)
    endStatement
    return ⟨first.span.cover after.span, j.shape (some after.text)⟩
  else
    check (j.checkPlain f first)
    endStatement
    return ⟨first.span, j.shape none⟩

/-- A label and the statement after it. -/
def labelledStatement (rules : Rules) (f : Frame) : Parse Node := do
  let label ← expectIn Kind.isBindingName
  check (checkLabel f label)
  if (f.findLabel? label.text).isSome then refuse (label.error (.duplicateLabel label.text))
  else
    let _ ← expectPunctuator .colon
    let statement ← rules.statement (f.labelled label.text)
    return ⟨label.span.cover statement.span, .labelledStatement label.text statement⟩

/-! ## Compound statements -/

def block (rules : Rules) (f : Frame) : Parse Node := do
  let first ← expectPunctuator .openBrace
  let (body, close) ← statements rules f
  return ⟨first.span.cover close.span, .block body⟩

def ifStatement (rules : Rules) (f : Frame) : Parse Node := do
  let first ← expectWord .ifWord
  let test ← rules.parenthesised f
  let consequent ← rules.statement f
  let alternate ←
    if ← tookWord .elseWord then pure (some (← rules.statement f)) else pure none
  return ⟨first.span.cover (alternate.getD consequent).span,
    .ifStatement test consequent alternate⟩

/-- The `catch` of a `try`, if there is one. -/
def catchClause (rules : Rules) (f : Frame) : Parse (Option Node) := do
  match ← takeIf (· == .word .catchWord) with
  | none => return none
  | some first =>
    let pattern ←
      if ← tookPunctuator .openParenthesis then
        let pattern ← rules.pattern f .declaration
        let _ ← expectPunctuator .closeParenthesis
        pure (some pattern)
      else pure none
    let body ← block rules f
    return some ⟨first.span.cover body.span, .catchClause pattern body⟩

def tryStatement (rules : Rules) (f : Frame) : Parse Node := do
  let first ← expectWord .tryWord
  let body ← block rules f
  let handler ← catchClause rules f
  let finalizer ← if ← tookWord .finallyWord then pure (some (← block rules f)) else pure none
  match finalizer.or handler with
  | none => refuse (first.error .tryWithoutCatchOrFinally)
  | some last => return ⟨first.span.cover last.span, .tryStatement body handler finalizer⟩

/-- A case of a `switch`, up to the next case or the closing brace. -/
def switchCase (rules : Rules) (f : Frame) : Parse Node := do
  let first ← peek
  let test ←
    if ← tookWord .caseWord then pure (some (← rules.whole f .colon))
    else
      let _ ← expectWord .defaultWord
      pure none
  let colon ← expectPunctuator .colon
  let body ← collect rules.bound do
    match (← peek).kind with
    | .word .caseWord | .word .defaultWord | .punctuator .closeBrace => return none
    | _ => return some (← rules.statement f)
  let span := body.foldl (fun s n => s.cover n.span) (first.span.cover colon.span)
  return ⟨span, .switchCase test body⟩

def switchStatement (rules : Rules) (f : Frame) : Parse Node := do
  let first ← expectWord .switchWord
  let subject ← rules.parenthesised f
  let _ ← expectPunctuator .openBrace
  let cases ← collect rules.bound do
    if ← atPunctuator .closeBrace then return none
    else return some (← switchCase rules f.switchBody)
  let close ← expectPunctuator .closeBrace
  return ⟨first.span.cover close.span, .switchStatement subject cases⟩

def withStatement (rules : Rules) (f : Frame) : Parse Node := do
  let first ← expectWord .withWord
  if f.strict then refuse (first.error .withInStrictMode)
  else
    let object ← rules.parenthesised f
    let body ← rules.statement f
    return ⟨first.span.cover body.span, .withStatement object body⟩

/-! ## All statements -/

/-- A statement that is no label and starts with the token `t`. -/
def plainStatement (rules : Rules) (f : Frame) (t : Token) : Parse Node := do
  match t.kind with
  | .punctuator .openBrace => block rules f
  | .punctuator .semicolon => emptyStatement
  | .word .breakWord => jumpStatement f .leave
  | .word .continueWord => jumpStatement f .again
  | .word .classWord => classDeclaration rules f true
  | .word .debuggerWord => debuggerStatement
  | .word .doWord => doWhileLoop rules f
  | .word .exportWord => exportStatement rules f
  | .word .forWord => forLoop rules f
  | .word .functionWord => functionDeclaration rules f true
  | .word .ifWord => ifStatement rules f
  | .word .importWord =>
    if ← startsImportExpression then expressionStatement rules f else importDeclaration rules f
  | .word .returnWord => returnStatement rules f
  | .word .switchWord => switchStatement rules f
  | .word .throwWord => throwStatement rules f
  | .word .tryWord => tryStatement rules f
  | .word .whileWord => whileLoop rules f
  | .word .withWord => withStatement rules f
  | _ =>
    if ← startsVariables then variableStatement rules f
    else if ← startsAsyncFunction then functionDeclaration rules f true
    else expressionStatement rules f

def startsLoop (t : Token) : Bool :=
  match t.kind with
  | .word .doWord | .word .forWord | .word .whileWord => true
  | _ => false

/-- A statement. -/
def statement (rules : Rules) (f : Frame) : Parse Node := do
  let t ← peek
  let isLabelled ←
    if t.kind.isBindingName then pure ((← peekSecond).kind == .punctuator .colon) else pure false
  if isLabelled then labelledStatement rules f
  else plainStatement rules (f.statement (startsLoop t)) t

end ScriptMin.Grammar
