import ScriptMin.Grammar.Statement
import ScriptMin.Proofs.InPlace.Expression

/-!
# Statements in place

Statements with one stack of frames. A loop and a `switch` set a flag for their bodies, and a label
is put on for the statement after it. A statement takes the labels before it for its own, so that
none is left for the next one: within a statement, no label stands before the next statement.
-/

namespace ScriptMin.Grammar.InPlace

open Parse

section

variable {rules : Rules} {rules' : Grammar.Rules} (hr : rules.Track rules') (f : Frame)

/-! ## Variables -/

/-- A declarator, and whether a semicolon was inserted after it. -/
def declarator (rules : Rules) (place : VariablesPlace) : InPlace (Declarator Node × Bool) := do
  let pattern ← rules.pattern .declaration
  if ← tookPunctuator .equals then
    let value ← rules.expression place.extent
    return (⟨pattern, some value.node⟩, value.inserted)
  else return (⟨pattern, none⟩, false)

include hr in
theorem tracks_declarator (place : VariablesPlace) :
    (declarator rules place).Tracks (Grammar.declarator rules' f place) f := by
  refine (hr.pattern f _).bind fun pattern => .step _ fun _ => ?_
  exact .ite (fun _ => (hr.expression f _).bind fun _ => .same _) fun _ => .same _

/-- A declaration of variables. -/
def variableDeclaration (rules : Rules) (place : VariablesPlace) : InPlace Node := do
  let first ← next
  match variableKind? first.kind with
  | none => unexpected first
  | some kind =>
    let reversed ← iterate
      (fun (read : List (Declarator Node)) => do
        let (d, inserted) ← declarator rules place
        if ← continuesVariables place inserted then return Round.again (d :: read)
        else return .done (d :: read))
      rules.bound []
    let declarators := reversed.reverse
    return ⟨declarators.foldl coverDeclarator first.span, .variableDeclaration kind declarators⟩

include hr in
theorem tracks_variableDeclaration (place : VariablesPlace) :
    (variableDeclaration rules place).Tracks (Grammar.variableDeclaration rules' f place) f := by
  unfold variableDeclaration
  rw [hr.bound]
  refine .step _ fun first => ?_
  cases variableKind? first.kind with
  | none => exact .lift (unexpected first)
  | some kind =>
    refine (Tracks.iterate (fun read => ?_) _ []).bind fun _ => .same _
    exact (tracks_declarator hr f place).bind fun _ => .step _ fun _ =>
      .ite (fun _ => .same _) fun _ => .same _

/-! ## Loops -/

def headStart (rules : Rules) : InPlace HeadStart := do
  if ← startsVariables then return .declaration (← variableDeclaration rules .loopHead)
  else if ← atPunctuator .semicolon then return .nothing
  else return .expression (← rules.expression ⟨commaPrecedence, loopHeadStops, false⟩).node

include hr in
theorem tracks_headStart : (headStart rules).Tracks (Grammar.headStart rules' f) f := by
  refine .step _ fun _ => .ite (fun _ => ?_) fun _ => .step _ fun _ => .ite (fun _ => .same _)
    fun _ => (hr.expression f _).bind fun _ => .same _
  exact (tracks_variableDeclaration hr f _).bind fun _ => .same _

/-- The head of a loop over elements or keys, from its word on. -/
def eachHead (rules : Rules) (awaits : Bool) (start : HeadStart) : InPlace (ForHead Node) := do
  let t ← next
  let isOf := t.kind == .word .ofWord
  if awaits && !isOf then unexpected t
  else
    let target ← forTarget t start
    let subject ← if isOf then rules.single [.closeParenthesis] else rules.whole .closeParenthesis
    let _ ← expectPunctuator .closeParenthesis
    return .each isOf awaits target subject

include hr in
theorem tracks_eachHead (awaits : Bool) (start : HeadStart) :
    (eachHead rules awaits start).Tracks (Grammar.eachHead rules' f awaits start) f := by
  refine .step _ fun t => .ite (fun _ => .lift _) fun _ => .step _ fun target => ?_
  extract_lets rest rest'
  have hrest (subject : Node) : (rest subject).Tracks (rest' subject) f :=
    .step _ fun _ => .same _
  exact .ite (fun _ => (hr.single f _).bind hrest) fun _ => (hr.whole f _).bind hrest

/-- A part of a head up to the punctuator that ends it, which is consumed. -/
def optionalPart (rules : Rules) (stop : Punctuator) : InPlace (Option Node) := do
  if ← tookPunctuator stop then return none
  else
    let value ← rules.whole stop
    let _ ← expectPunctuator stop
    return some value

include hr in
theorem tracks_optionalPart (stop : Punctuator) :
    (optionalPart rules stop).Tracks (Grammar.optionalPart rules' f stop) f := by
  refine .step _ fun _ => .ite (fun _ => .same _) fun _ => ?_
  exact (hr.whole f _).bind fun _ => .step _ fun _ => .same _

/-- The head of a loop with steps, from its first semicolon on. -/
def steppedHead (rules : Rules) (start : HeadStart) : InPlace (ForHead Node) := do
  let _ ← expectPunctuator .semicolon
  let init :=
    match start with
    | .declaration n => ForInit.declaration n
    | .expression n => .expression n
    | .nothing => .none
  let condition ← optionalPart rules .semicolon
  let post ← optionalPart rules .closeParenthesis
  return .stepped init condition post

include hr in
theorem tracks_steppedHead (start : HeadStart) :
    (steppedHead rules start).Tracks (Grammar.steppedHead rules' f start) f := by
  refine .step _ fun _ => (tracks_optionalPart hr f _).bind fun condition => ?_
  refine (tracks_optionalPart hr f _).bind fun post => ?_
  cases start <;> exact .same _

/-- The head of a `for` with its parentheses. -/
def forHead (rules : Rules) (awaits : Bool) : InPlace (ForHead Node) := do
  let _ ← expectPunctuator .openParenthesis
  let start ← headStart rules
  let t ← peek
  if t.kind == .word .ofWord || t.kind == .word .inWord then eachHead rules awaits start
  else if awaits then unexpected t
  else steppedHead rules start

include hr in
theorem tracks_forHead (awaits : Bool) :
    (forHead rules awaits).Tracks (Grammar.forHead rules' f awaits) f := by
  refine .step _ fun _ => (tracks_headStart hr f).bind fun start => .step _ fun t => ?_
  refine .ite (fun _ => tracks_eachHead hr f awaits start) fun _ => ?_
  exact .ite (fun _ => .lift _) fun _ => tracks_steppedHead hr f start

/-- The body of a loop. -/
def loopBody (rules : Rules) : InPlace Node := withFlag .loop rules.statement

include hr in
theorem tracks_loopBody {f : Frame} (hf : f.directLabels = 0) :
    (loopBody rules).Tracks (rules'.statement f.loopBody) f :=
  Tracks.withFlag (hr.plain (f := f.loopBody) hf)

def forLoop (rules : Rules) : InPlace Node := do
  let first ← expectWord .forWord
  let t ← peek
  let awaits := t.kind == .word .awaitWord
  if awaits then
    if !(← frame).isAsync then unexpected t
    skip
  let head ← forHead rules awaits
  let body ← loopBody rules
  return ⟨first.span.cover body.span, .forLoop head body⟩

include hr in
theorem tracks_forLoop {f : Frame} (hf : f.directLabels = 0) :
    (forLoop rules).Tracks (Grammar.forLoop rules' f) f := by
  refine .step _ fun first => .step _ fun t => ?_
  extract_lets awaits rest skipped rest' skipped'
  have hrest (u : Unit) : (rest u).Tracks (rest' u) f :=
    (tracks_forHead hr f awaits).bind fun _ => (tracks_loopBody hr hf).bind fun _ => .same _
  have hskipped (u : Unit) : (skipped u).Tracks (skipped' u) f := .step _ hrest
  refine .ite (fun _ => ?_) fun _ => hrest ()
  exact .frame (.ite (fun _ => .step _ hskipped) fun _ => hskipped ())

def whileLoop (rules : Rules) : InPlace Node := do
  let first ← expectWord .whileWord
  let condition ← rules.parenthesised
  let body ← loopBody rules
  return ⟨first.span.cover body.span, .whileLoop condition body⟩

include hr in
theorem tracks_whileLoop {f : Frame} (hf : f.directLabels = 0) :
    (whileLoop rules).Tracks (Grammar.whileLoop rules' f) f :=
  .step _ fun _ => (hr.parenthesised f).bind fun _ => (tracks_loopBody hr hf).bind fun _ => .same _

/-- A `do` loop. The semicolon after it may always be left out. -/
def doWhileLoop (rules : Rules) : InPlace Node := do
  let first ← expectWord .doWord
  let body ← loopBody rules
  let _ ← expectWord .whileWord
  let _ ← expectPunctuator .openParenthesis
  let condition ← rules.whole .closeParenthesis
  let close ← expectPunctuator .closeParenthesis
  let _ ← tookPunctuator .semicolon
  return ⟨first.span.cover close.span, .doWhileLoop body condition⟩

include hr in
theorem tracks_doWhileLoop {f : Frame} (hf : f.directLabels = 0) :
    (doWhileLoop rules).Tracks (Grammar.doWhileLoop rules' f) f :=
  .step _ fun _ => (tracks_loopBody hr hf).bind fun _ => .step _ fun _ => .step _ fun _ =>
    (hr.whole f _).bind fun _ => .step _ fun _ => .step _ fun _ => .same _

/-! ## Imports and exports -/

/-- A name that an import binds. -/
def importedName : InPlace Node := do
  Grammar.importedName (← frame)

theorem tracks_importedName : importedName.Tracks (Grammar.importedName f) f := .frame (.lift _)

/-- The names of an import after its default name. -/
def importNames (rules : Rules) : InPlace (ModuleNames Node) := do
  if ← tookPunctuator .asterisk then
    let _ ← expectWord .asWord
    return .all (some (← importedName))
  else
    let f ← frame
    return .listed (← moduleNames rules.bound (importName f))

include hr in
theorem tracks_importNames : (importNames rules).Tracks (Grammar.importNames rules' f) f := by
  unfold importNames
  rw [hr.bound]
  refine .step _ fun _ => .ite (fun _ => ?_) fun _ => .frame (.step _ fun _ => .same _)
  exact .step _ fun _ => (tracks_importedName f).bind fun _ => .same _

/-- What an import binds, up to the word `from`. -/
def importBindings (rules : Rules) : InPlace (Option Node × Option (ModuleNames Node)) := do
  if (← peek).kind.isBindingName then
    let name ← importedName
    if ← tookPunctuator .comma then return (some name, some (← importNames rules))
    else return (some name, none)
  else return (none, some (← importNames rules))

include hr in
theorem tracks_importBindings :
    (importBindings rules).Tracks (Grammar.importBindings rules' f) f := by
  refine .step _ fun _ => .ite (fun _ => ?_) fun _ => ?_
  · refine (tracks_importedName f).bind fun _ => .step _ fun _ => ?_
    refine .ite (fun _ => ?_) fun _ => .same _
    exact (tracks_importNames hr f).bind fun _ => .same _
  · exact (tracks_importNames hr f).bind fun _ => .same _

/-- An import. One that names only the module runs it. -/
def importDeclaration (rules : Rules) : InPlace Node := do
  let start ← mark
  let _ ← expectWord .importWord
  let (defaultName, names) ←
    if (← peek).kind == .string then pure (none, none)
    else
      let bindings ← importBindings rules
      let _ ← expectWord .fromWord
      pure bindings
  let source ← moduleSource
  endStatement
  return ⟨← spanFrom start, .importDeclaration defaultName names source⟩

include hr in
theorem tracks_importDeclaration :
    (importDeclaration rules).Tracks (Grammar.importDeclaration rules' f) f := by
  refine .step _ fun start => .step _ fun _ => .step _ fun t => ?_
  extract_lets rest rest'
  have hrest (bindings : Option Node × Option (ModuleNames Node)) :
      (rest bindings).Tracks (rest' bindings) f :=
    .step _ fun _ => .step _ fun _ => .step _ fun _ => .same _
  refine .ite (fun _ => hrest (none, none)) fun _ => ?_
  exact (tracks_importBindings hr f).bind fun bindings => .step _ fun _ => hrest bindings

/-- A list of exported names after the word `export`. -/
def exportNames (rules : Rules) : InPlace (Shape Node) := do
  let names ← moduleNames rules.bound exportName
  let source ← if ← tookWord .fromWord then pure (some (← moduleSource)) else pure none
  endStatement
  return .exportList (.listed names) source

include hr in
theorem tracks_exportNames : (exportNames rules).Tracks (Grammar.exportNames rules') f := by
  unfold exportNames
  rw [hr.bound]
  refine .step _ fun names => .step _ fun _ => ?_
  extract_lets rest rest'
  have hrest (source : Option String) : (rest source).Tracks (rest' source) f :=
    .step _ fun _ => .same _
  exact .ite (fun _ => .step _ fun _ => hrest (some _)) fun _ => hrest none

/-- A default export after the word `default`. -/
def exportDefault (rules : Rules) : InPlace (Shape Node) := do
  let t ← peek
  let isFunction ←
    if t.kind == .word .functionWord then pure true else startsAsyncFunction
  if isFunction then
    return .exportDeclaration (← functionDeclaration rules false) true
  else if t.kind == .word .classWord then
    return .exportDeclaration (← classDeclaration rules false) true
  else
    let value ← rules.expression Extent.ofStatement.assignment
    if !value.inserted then endStatement
    return .exportDefault value.node

include hr in
theorem tracks_exportDefault : (exportDefault rules).Tracks (Grammar.exportDefault rules' f) f := by
  refine .step _ fun t => ?_
  extract_lets rest rest'
  have hrest (isFunction : Bool) : (rest isFunction).Tracks (rest' isFunction) f := by
    refine .ite (fun _ => ?_) fun _ => .ite (fun _ => ?_) fun _ => ?_
    · exact (tracks_functionDeclaration hr f false).bind fun _ => .same _
    · exact (tracks_classDeclaration hr f false).bind fun _ => .same _
    · exact (hr.expression f _).bind fun _ => .ite (fun _ => .step _ fun _ => .same _) fun _ =>
        .same _
  exact .ite (fun _ => hrest true) fun _ => .step _ hrest

/-- An exported declaration at the token `t`. -/
def exportDeclaration (rules : Rules) (t : Token) : InPlace (Shape Node) := do
  let declaration ← rules.statement
  match declaration.shape with
  | .variableStatement _ | .functionDeclaration .. | .classDeclaration .. =>
    return .exportDeclaration declaration false
  | _ => unexpected t

include hr in
theorem tracks_exportDeclaration {f : Frame} (hf : f.directLabels = 0) (t : Token) :
    (exportDeclaration rules t).Tracks (Grammar.exportDeclaration rules' f t) f := by
  refine (hr.plain hf).bind fun declaration => ?_
  cases declaration.shape
  case variableStatement | functionDeclaration | classDeclaration => exact .same _
  all_goals exact .lift (unexpected t)

/-- An export. -/
def exportStatement (rules : Rules) : InPlace Node := do
  let start ← mark
  let _ ← expectWord .exportWord
  let place ← mark
  let t ← next
  let shape ←
    match t.kind with
    | .punctuator .openBrace =>
      rewind place
      exportNames rules
    | .punctuator .asterisk => exportAll
    | .word .defaultWord => exportDefault rules
    | _ =>
      if startsExportable t then
        rewind place
        exportDeclaration rules t
      else unexpected t
  return ⟨← spanFrom start, shape⟩

include hr in
theorem tracks_exportStatement {f : Frame} (hf : f.directLabels = 0) :
    (exportStatement rules).Tracks (Grammar.exportStatement rules' f) f := by
  refine .step _ fun start => .step _ fun _ => .step _ fun place => .step _ fun t => ?_
  extract_lets rest rest'
  have hrest (shape : Shape Node) : (rest shape).Tracks (rest' shape) f := .step _ fun _ => .same _
  generalize t.kind = kind
  split
  case h_1 => exact .step _ fun _ => (tracks_exportNames hr f).bind hrest
  case h_2 => exact .step _ hrest
  case h_3 => exact (tracks_exportDefault hr f).bind hrest
  case h_4 =>
    refine Follows.of_eq (.ite (fun _ => .step _ fun _ =>
      (tracks_exportDeclaration hr hf t).bind hrest) fun _ => .step _ hrest) ?_
    first
    | rfl
    | split <;> first | contradiction | rfl

/-! ## Simple statements -/

/-- An expression up to the semicolon after it, which may be inserted. -/
def statementValue (rules : Rules) : InPlace Node := do
  let value ← rules.expression .ofStatement
  if !value.inserted then
    let _ ← expectPunctuator .semicolon
  return value.node

include hr in
theorem tracks_statementValue :
    (statementValue rules).Tracks (Grammar.statementValue rules' f) f :=
  (hr.expression f _).bind fun _ => .ite (fun _ => .step _ fun _ => .same _) fun _ => .same _

def expressionStatement (rules : Rules) : InPlace Node := do
  let value ← statementValue rules
  return ⟨value.span, .expressionStatement value⟩

include hr in
theorem tracks_expressionStatement :
    (expressionStatement rules).Tracks (Grammar.expressionStatement rules' f) f :=
  (tracks_statementValue hr f).bind fun _ => .same _

def variableStatement (rules : Rules) : InPlace Node := do
  let declaration ← variableDeclaration rules .statement
  return ⟨declaration.span, .variableStatement declaration⟩

include hr in
theorem tracks_variableStatement :
    (variableStatement rules).Tracks (Grammar.variableStatement rules' f) f :=
  (tracks_variableDeclaration hr f _).bind fun _ => .same _

/-- A `return`. -/
def returnStatement (rules : Rules) : InPlace Node := do
  let first ← expectWord .returnWord
  if !(← frame).inFunction then refuse (first.error .returnOutsideFunction)
  else
    let after ← peek
    let isBare ←
      if after.afterNewline || after.kind == .punctuator .closeBrace ||
          after.kind == .endOfInput then pure true
      else tookPunctuator .semicolon
    if isBare then
      return ⟨first.span, .returnStatement none⟩
    else
      let value ← statementValue rules
      return ⟨first.span.cover value.span, .returnStatement (some value)⟩

include hr in
theorem tracks_returnStatement :
    (returnStatement rules).Tracks (Grammar.returnStatement rules' f) f := by
  refine .step _ fun first => .frame (.ite (fun _ => .lift _) fun _ => .step _ fun after => ?_)
  extract_lets rest rest'
  have hrest (isBare : Bool) : (rest isBare).Tracks (rest' isBare) f :=
    .ite (fun _ => .same _) fun _ => (tracks_statementValue hr f).bind fun _ => .same _
  exact .ite (fun _ => hrest true) fun _ => .step _ hrest

/-- A `throw`, whose value stands on the same line. -/
def throwStatement (rules : Rules) : InPlace Node := do
  let first ← expectWord .throwWord
  if (← peek).afterNewline then refuse (first.error .lineTerminatorAfterThrow)
  else
    let value ← statementValue rules
    return ⟨first.span.cover value.span, .throwStatement value⟩

include hr in
theorem tracks_throwStatement :
    (throwStatement rules).Tracks (Grammar.throwStatement rules' f) f :=
  .step _ fun _ => .step _ fun _ => .ite (fun _ => .lift _) fun _ =>
    (tracks_statementValue hr f).bind fun _ => .same _

/-! ## Labels and jumps -/

/-- A `break` or `continue`. -/
def jumpStatement (j : Jump) : InPlace Node := do
  Grammar.jumpStatement (← frame) j

theorem tracks_jumpStatement (j : Jump) :
    (jumpStatement j).Tracks (Grammar.jumpStatement f j) f := .frame (.lift _)

/-- A label and the statement after it. The label is taken off also if the statement is refused. -/
def labelledStatement (rules : Rules) : InPlace Node := do
  let label ← expectIn Kind.isBindingName
  check (checkLabel (← frame) label)
  if ((← frame).findLabel? label.text).isSome then
    refuse (label.error (.duplicateLabel label.text))
  else
    let _ ← expectPunctuator .colon
    let statement ← withLabel label.text rules.statement
    return ⟨label.span.cover statement.span, .labelledStatement label.text statement⟩

include hr in
theorem tracks_labelledStatement :
    (labelledStatement rules).TracksStatement (Grammar.labelledStatement rules' f) f := by
  refine .step _ fun label => .frame (.step _ fun _ => .frame ?_)
  refine .ite (fun _ => .refuse _) fun _ => ?_
  refine .step _ fun _ => ?_
  refine Follows.bind (TracksStatement.withLabel (hr.statement (f.labelled label.text))) ?_
  rintro statement _ _ ⟨rfl, h⟩
  exact .pure ⟨rfl, h⟩

/-! ## Compound statements -/

def block (rules : Rules) : InPlace Node := do
  let first ← expectPunctuator .openBrace
  let (body, close) ← statements rules
  return ⟨first.span.cover close.span, .block body⟩

include hr in
theorem tracks_block {f : Frame} (hf : f.directLabels = 0) :
    (block rules).Tracks (Grammar.block rules' f) f :=
  .step _ fun _ => (tracks_statements hr f hf).bind fun _ => .same _

def ifStatement (rules : Rules) : InPlace Node := do
  let first ← expectWord .ifWord
  let test ← rules.parenthesised
  let consequent ← rules.statement
  let alternate ←
    if ← tookWord .elseWord then pure (some (← rules.statement)) else pure none
  return ⟨first.span.cover (alternate.getD consequent).span,
    .ifStatement test consequent alternate⟩

include hr in
theorem tracks_ifStatement {f : Frame} (hf : f.directLabels = 0) :
    (ifStatement rules).Tracks (Grammar.ifStatement rules' f) f := by
  refine .step _ fun first => (hr.parenthesised f).bind fun test => (hr.plain hf).bind fun _ => ?_
  exact .step _ fun _ => .ite (fun _ => (hr.plain hf).bind fun _ => .same _) fun _ => .same _

/-- The `catch` of a `try`, if there is one. -/
def catchClause (rules : Rules) : InPlace (Option Node) := do
  match ← takeIf (· == .word .catchWord) with
  | none => return none
  | some first =>
    let pattern ←
      if ← tookPunctuator .openParenthesis then
        let pattern ← rules.pattern .declaration
        let _ ← expectPunctuator .closeParenthesis
        pure (some pattern)
      else pure none
    let body ← block rules
    return some ⟨first.span.cover body.span, .catchClause pattern body⟩

include hr in
theorem tracks_catchClause {f : Frame} (hf : f.directLabels = 0) :
    (catchClause rules).Tracks (Grammar.catchClause rules' f) f := by
  refine .step _ fun word => ?_
  cases word with
  | none => exact .same _
  | some first =>
    refine .step _ fun _ => .ite (fun _ => ?_) fun _ => ?_
    · exact (hr.pattern f _).bind fun _ => .step _ fun _ => (tracks_block hr hf).bind fun _ =>
        .same _
    · exact (tracks_block hr hf).bind fun _ => .same _

def tryStatement (rules : Rules) : InPlace Node := do
  let first ← expectWord .tryWord
  let body ← block rules
  let handler ← catchClause rules
  let finalizer ← if ← tookWord .finallyWord then pure (some (← block rules)) else pure none
  match finalizer.or handler with
  | none => refuse (first.error .tryWithoutCatchOrFinally)
  | some last => return ⟨first.span.cover last.span, .tryStatement body handler finalizer⟩

include hr in
theorem tracks_tryStatement {f : Frame} (hf : f.directLabels = 0) :
    (tryStatement rules).Tracks (Grammar.tryStatement rules' f) f := by
  refine .step _ fun first => (tracks_block hr hf).bind fun body => ?_
  refine (tracks_catchClause hr hf).bind fun handler => .step _ fun _ => ?_
  extract_lets rest rest'
  have hrest (finalizer : Option Node) : (rest finalizer).Tracks (rest' finalizer) f := by
    unfold rest rest'
    cases finalizer.or handler with
    | none => exact .lift (refuse _)
    | some last => exact .same _
  exact .ite (fun _ => (tracks_block hr hf).bind fun _ => hrest (some _)) fun _ => hrest none

/-- A case of a `switch`, up to the next case or the closing brace. -/
def switchCase (rules : Rules) : InPlace Node := do
  let first ← peek
  let test ←
    if ← tookWord .caseWord then pure (some (← rules.whole .colon))
    else
      let _ ← expectWord .defaultWord
      pure none
  let colon ← expectPunctuator .colon
  let body ← collect rules.bound do
    match (← peek).kind with
    | .word .caseWord | .word .defaultWord | .punctuator .closeBrace => return none
    | _ => return some (← rules.statement)
  let span := body.foldl (fun s n => s.cover n.span) (first.span.cover colon.span)
  return ⟨span, .switchCase test body⟩

include hr in
theorem tracks_switchCase {f : Frame} (hf : f.directLabels = 0) :
    (switchCase rules).Tracks (Grammar.switchCase rules' f) f := by
  unfold switchCase
  rw [hr.bound]
  refine .step _ fun first => .step _ fun _ => ?_
  extract_lets rest rest'
  have hrest (test : Option Node) : (rest test).Tracks (rest' test) f := by
    refine .step _ fun colon => (Tracks.collect (.step _ fun t => ?_) _).bind fun _ => .same _
    generalize t.kind = kind
    split
    case h_1 | h_2 | h_3 => exact .same _
    case h_4 =>
      refine Follows.of_eq ((hr.plain hf).bind fun _ => .same _) ?_
      first
      | rfl
      | split <;> first | contradiction | rfl
  exact .ite (fun _ => (hr.whole f _).bind fun _ => hrest (some _)) fun _ =>
    .step _ fun _ => hrest none

/-- A `switch`, with the flag that says so set for its cases. -/
def switchStatement (rules : Rules) : InPlace Node := do
  let first ← expectWord .switchWord
  let subject ← rules.parenthesised
  let _ ← expectPunctuator .openBrace
  let cases ← withFlag .switch <| collect rules.bound do
    if ← atPunctuator .closeBrace then return none
    else return some (← switchCase rules)
  let close ← expectPunctuator .closeBrace
  return ⟨first.span.cover close.span, .switchStatement subject cases⟩

include hr in
theorem tracks_switchStatement {f : Frame} (hf : f.directLabels = 0) :
    (switchStatement rules).Tracks (Grammar.switchStatement rules' f) f := by
  unfold switchStatement
  rw [hr.bound]
  refine .step _ fun first => (hr.parenthesised f).bind fun subject => .step _ fun _ => ?_
  refine (Tracks.withFlag (Tracks.collect (.step _ fun _ => ?_) _)).bind fun _ => .step _ fun _ =>
    .same _
  exact .ite (fun _ => .same _) fun _ =>
    (tracks_switchCase hr (f := f.switchBody) hf).bind fun _ => .same _

def withStatement (rules : Rules) : InPlace Node := do
  let first ← expectWord .withWord
  if (← frame).strict then refuse (first.error .withInStrictMode)
  else
    let object ← rules.parenthesised
    let body ← rules.statement
    return ⟨first.span.cover body.span, .withStatement object body⟩

include hr in
theorem tracks_withStatement {f : Frame} (hf : f.directLabels = 0) :
    (withStatement rules).Tracks (Grammar.withStatement rules' f) f :=
  .step _ fun _ => .frame (.ite (fun _ => .lift _) fun _ =>
    (hr.parenthesised f).bind fun _ => (hr.plain hf).bind fun _ => .same _)

/-! ## All statements -/

/-- A statement that is no label and starts with the token `t`. -/
def plainStatement (rules : Rules) (t : Token) : InPlace Node := do
  match t.kind with
  | .punctuator .openBrace => block rules
  | .punctuator .semicolon => emptyStatement
  | .word .breakWord => jumpStatement .leave
  | .word .continueWord => jumpStatement .again
  | .word .classWord => classDeclaration rules true
  | .word .debuggerWord => debuggerStatement
  | .word .doWord => doWhileLoop rules
  | .word .exportWord => exportStatement rules
  | .word .forWord => forLoop rules
  | .word .functionWord => functionDeclaration rules true
  | .word .ifWord => ifStatement rules
  | .word .importWord =>
    if ← startsImportExpression then expressionStatement rules else importDeclaration rules
  | .word .returnWord => returnStatement rules
  | .word .switchWord => switchStatement rules
  | .word .throwWord => throwStatement rules
  | .word .tryWord => tryStatement rules
  | .word .whileWord => whileLoop rules
  | .word .withWord => withStatement rules
  | _ =>
    if ← startsVariables then variableStatement rules
    else if ← startsAsyncFunction then functionDeclaration rules true
    else expressionStatement rules

include hr in
theorem tracks_plainStatement {f : Frame} (hf : f.directLabels = 0) (t : Token) :
    (plainStatement rules t).Tracks (Grammar.plainStatement rules' f t) f := by
  unfold plainStatement Grammar.plainStatement
  generalize t.kind = kind
  split
  case h_1 => exact tracks_block hr hf
  case h_2 | h_6 => exact .lift _
  case h_3 | h_4 => exact tracks_jumpStatement f _
  case h_5 => exact tracks_classDeclaration hr f true
  case h_7 => exact tracks_doWhileLoop hr hf
  case h_8 => exact tracks_exportStatement hr hf
  case h_9 => exact tracks_forLoop hr hf
  case h_10 => exact tracks_functionDeclaration hr f true
  case h_11 => exact tracks_ifStatement hr hf
  case h_12 =>
    exact .step _ fun _ => .ite (fun _ => tracks_expressionStatement hr f) fun _ =>
      tracks_importDeclaration hr f
  case h_13 => exact tracks_returnStatement hr f
  case h_14 => exact tracks_switchStatement hr hf
  case h_15 => exact tracks_throwStatement hr f
  case h_16 => exact tracks_tryStatement hr hf
  case h_17 => exact tracks_whileLoop hr hf
  case h_18 => exact tracks_withStatement hr hf
  case h_19 =>
    refine Follows.of_eq (.step _ fun _ => .ite (fun _ => tracks_variableStatement hr f) fun _ =>
      .step _ fun _ => .ite (fun _ => tracks_functionDeclaration hr f true) fun _ =>
      tracks_expressionStatement hr f) ?_
    first
    | rfl
    | split <;> first | contradiction | rfl

/-- A statement. One that is no label takes the labels before it, and makes them labels of a loop
if it is one. -/
def statement (rules : Rules) : InPlace Node := do
  let t ← peek
  let isLabelled ←
    if t.kind.isBindingName then pure ((← peekSecond).kind == .punctuator .colon) else pure false
  if isLabelled then labelledStatement rules
  else
    modifyFrame fun f => f.statement (startsLoop t)
    plainStatement rules t

include hr in
theorem tracks_statement :
    (statement rules).TracksStatement (Grammar.statement rules' f) f := by
  refine .step _ fun t => ?_
  extract_lets rest rest'
  have hrest (isLabelled : Bool) : (rest isLabelled).TracksStatement (rest' isLabelled) f := by
    refine .ite (fun _ => tracks_labelledStatement hr f) fun _ => .modifyFrame ?_
    exact Follows.mono (tracks_plainStatement hr (f := f.statement _) rfl t) fun _ _ _ h =>
      ⟨h.1, _, h.2⟩
  exact .ite (fun _ => .step _ fun second => hrest _) fun _ => hrest false

end

end ScriptMin.Grammar.InPlace
