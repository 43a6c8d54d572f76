import ScriptMin.Proofs.Behaviour.Outline
import ScriptMin.Proofs.Behaviour.Run

/-!
# What syntax does

The meaning of a node is put together from those of its children. Statements have the meaning that
the language gives them. Of the expressions this is so for literals, functions, `!`, `&&`, `||`,
conditionals and sequences; any other expression is an action, unless it is silent. An action is
told from others by the outline of its expression.

The world answers actions, and so decides what they do to variables, which do not occur here. A
declaration gives its values to names, and that is an action as well.
-/

namespace ScriptMin.Behaviour

/-- What a node does, as what it is: an expression, a statement, a case with its test, or the code
that handles an error. A statement is given the labels in front of it. -/
structure Meaning where
  evaluate : Run Value := return .undefined
  run : List String → Run Unit := fun _ => return
  test : Option (Run Value) := none
  handle : Value → Run Unit := fun _ => return

namespace Meaning

/-- An expression. In the place of the body of an arrow function it returns its value. -/
def expression (evaluate : Run Value) : Meaning where
  evaluate
  run _ := .returning evaluate

def statement (run : List String → Run Unit) : Meaning where
  run

end Meaning

/-! ## Expressions -/

section Expressions

variable (w : World) (own : Node)

/-- An expression that is not taken apart. -/
def whole : Run Value :=
  if w.isSilent own then .reading fun log => w.unseen log own else .perform w (.evaluate own)

/-- A new object. -/
def made : Run Value := .reading fun log => .object (w.identity log own)

/-- Expressions one after another. The value is the last one. -/
def inTurn : List (Run Value) → Run Value
  | [] => return .undefined
  | [last] => last
  | first :: rest => do
    let _ ← first
    inTurn rest

/-- Values are put into a literal. -/
def spreading (value : Run Value) : Run Unit := do
  .discard (.perform w (.spread (← value)))

def elementRun : ArrayElement (Node × Meaning) → Run Unit
  | .item value => .discard value.2.evaluate
  | .spread value => spreading w value.2.evaluate
  | .hole => return

def keyRun : Key (Node × Meaning) → Run Unit
  | .direct _ => return
  | .computed expression => do .discard (.perform w (.key (← expression.2.evaluate)))

/-- A member of an object literal. A shorthand reads a variable. -/
def memberRun : ObjectMember (Node × Meaning) → Run Unit
  | .valued key (.property (some value)) => do
    keyRun w key
    .discard value.2.evaluate
  | .valued key _ => keyRun w key
  | .shorthand _ => .discard (.perform w (.evaluate own))
  | .spread value => spreading w value.2.evaluate

end Expressions

/-! ## Statements -/

section Statements

variable (w : World)

/-- Statements in a row. The labels of a block are passed on, so that a loop has the same labels
with and without braces; only a loop that follows its label directly can tell, since no other
`continue` names a label. -/
def runAll (labels : List String) (body : List Meaning) : Run Unit :=
  forM body fun s => s.run labels

/-- A name without a value is `undefined`, but a `var` leaves it as it is. -/
def declare (kind : VariableKind) (d : Declarator (Node × Meaning)) : Run Unit :=
  match d.initializer with
  | some value => do .discard (.perform w (.bind d.pattern.1 (← value.2.evaluate)))
  | none => if kind = .hoisted then return else .discard (.perform w (.bind d.pattern.1 .undefined))

def initRun : ForInit (Node × Meaning) → Run Unit
  | .none => return
  | .expression value => .discard value.2.evaluate
  | .declaration value => value.2.run []

def loopRun (labels : List String) (body : Run Unit) : ForHead (Node × Meaning) → Run Unit
  | .stepped init condition post => do
    initRun init
    Run.loop labels (condition.elim (return true) fun c => .holds c.2.evaluate) body
      (post.elim (return) fun p => .discard p.2.evaluate)
  | .each isOf awaits target subject =>
    loopOver w labels isOf awaits target.child.1 subject.2.evaluate body

/-- The cases from the one on whose test gives the value. -/
def selected (value : Value) : List Meaning → Run (Option (List Meaning))
  | [] => return none
  | c :: rest =>
    match c.test with
    | none => selected value rest
    | some test => do
      if w.same value (← test) then return some (c :: rest) else selected value rest

/-- Where no test gives the value, a `switch` goes to its default. -/
def switchRun (subject : Run Value) (cases : List Meaning) : Run Unit := do
  let chosen ← selected w (← subject) cases
  (runAll [] (chosen.getD (cases.dropWhile (·.test.isSome)))).stoppingAt (·.isBreak)

end Statements

/-! ## All syntax -/

/-- The meaning of a node with this outline. Each of its children stands beside its meaning. -/
def Meaning.ofShape (w : World) (own : Node) :
    Shape (Node × Meaning) → Meaning
  | .nullLiteral => .expression (return .null)
  | .undefinedLiteral => .expression (return .undefined)
  | .booleanLiteral value => .expression (return .boolean value)
  | .numberLiteral value => .expression (return .number value)
  | .bigIntLiteral digits => .expression (return .bigInt digits)
  | .stringLiteral value none => .expression (return .string value)
  | .stringLiteral _ (some _) => .expression (.reading fun log => w.unseen log own)
  | .regexLiteral _ | .functionExpression .. | .arrowFunction .. => .expression (made w own)
  | .arrayLiteral elements => .expression do
    forM elements (elementRun w)
    made w own
  | .objectLiteral members => .expression do
    forM members fun m => m.2.run []
    made w own
  | .objectMember content => .statement fun _ => memberRun w own content
  | .unary .logicalNot operand => .expression do
    return .boolean (!(← operand.2.evaluate.holds))
  | .unary .void _ =>
    .expression (if w.isSilent own then return .undefined else .perform w (.evaluate own))
  | .binary .logicalAnd left right => .expression do
    let value ← left.2.evaluate
    if value.truth then right.2.evaluate else return value
  | .binary .logicalOr left right => .expression do
    let value ← left.2.evaluate
    if value.truth then return value else right.2.evaluate
  | .conditional test consequent alternate => .expression do
    if ← test.2.evaluate.holds then consequent.2.evaluate else alternate.2.evaluate
  | .sequence elements => .expression (inTurn (elements.map (·.2.evaluate)))
  | .program body | .block body => .statement fun labels => runAll labels (body.map (·.2))
  | .switchCase test body =>
    { run := fun labels => runAll labels (body.map (·.2)), test := test.map (·.2.evaluate) }
  | .catchClause pattern body =>
    { handle := fun error => do
        forM pattern fun p => .discard (.perform w (.bind p.1 error))
        body.2.run [] }
  | .expressionStatement value => .statement fun _ => .discard value.2.evaluate
  | .variableStatement declaration => declaration.2
  | .exportDeclaration declaration _ => declaration.2
  | .variableDeclaration kind declarators => .statement fun _ => forM declarators (declare w kind)
  | .classDeclaration .. => .statement fun _ => .discard (.perform w (.evaluate own))
  | .exportDefault value => .statement fun _ => do
    .discard (.perform w (.exportDefault (← value.2.evaluate)))
  | .labelledStatement label body => .statement fun labels =>
    (body.2.run (label :: labels)).stoppingAt (·.isBreakOf label)
  | .ifStatement test consequent alternate => .statement fun _ => do
    if ← test.2.evaluate.holds then consequent.2.run [] else forM alternate (·.2.run [])
  | .whileLoop condition body => .statement fun labels =>
    Run.loop labels condition.2.evaluate.holds (body.2.run []) (return)
  | .doWhileLoop body condition => .statement fun labels =>
    loopOnce labels (body.2.run []) condition.2.evaluate.holds
  | .forLoop head body => .statement fun labels => loopRun w labels (body.2.run []) head
  | .withStatement object body => .statement fun _ => do
    .discard (.perform w (.enter (← object.2.evaluate)))
    body.2.run []
  | .switchStatement subject cases => .statement fun _ =>
    switchRun w subject.2.evaluate (cases.map (·.2))
  | .tryStatement body handler finalizer => .statement fun _ =>
    ending (handling (body.2.run []) (handler.map (·.2.handle))) (finalizer.map (·.2.run []))
  | .returnStatement none => .statement fun _ => throw (.returned .undefined)
  | .returnStatement (some value) => .statement fun _ => .returning value.2.evaluate
  | .throwStatement value => .statement fun _ => do throw (.thrown (← value.2.evaluate))
  | .breakStatement label => .statement fun _ => throw (.broken label)
  | .continueStatement label => .statement fun _ => throw (.continued label)
  | .functionDeclaration .. | .importDeclaration .. | .exportList .. | .directive _
  | .emptyStatement | .debuggerStatement => .statement fun _ => return
  | _ => .expression (whole w own)

/-- What a node does. -/
def meaning (w : World) (n : Node) : Meaning :=
  n.fold fun n children =>
    .ofShape w n.outline (children.map fun c => (c.1.outline, c.2))

section Equations

variable {w : World}

theorem meaning_eq (n : Node) :
    meaning w n =
      .ofShape w n.outline (n.shape.map fun c => (c.outline, meaning w c)) := by
  rw [meaning, Node.fold_eq, Shape.map_map]
  rfl

theorem map_meanings (nodes : List Node) :
    (nodes.map fun c => (c.outline, meaning w c)).map (·.2) = nodes.map (meaning w) :=
  List.map_map

/-! The equations of the nodes that rewriting makes and takes apart. -/

variable (span : Source.Span)

@[simp]
theorem meaning_block (body : List Node) :
    meaning w ⟨span, .block body⟩ =
      .statement fun labels => runAll labels (body.map (meaning w)) := by
  rw [meaning_eq, ← map_meanings body]; rfl

@[simp]
theorem meaning_program (body : List Node) :
    meaning w ⟨span, .program body⟩ =
      .statement fun labels => runAll labels (body.map (meaning w)) := by
  rw [meaning_eq, ← map_meanings body]; rfl

@[simp]
theorem meaning_switchCase (test : Option Node) (body : List Node) :
    meaning w ⟨span, .switchCase test body⟩ =
      { run := fun labels => runAll labels (body.map (meaning w))
        test := test.map fun t => (meaning w t).evaluate } := by
  rw [meaning_eq, ← map_meanings body]
  cases test <;> rfl

@[simp]
theorem meaning_variableStatement (declaration : Node) :
    meaning w ⟨span, .variableStatement declaration⟩ = meaning w declaration := by
  rw [meaning_eq]; rfl

@[simp]
theorem meaning_variableDeclaration (kind : VariableKind) (declarators : List (Declarator Node)) :
    meaning w ⟨span, .variableDeclaration kind declarators⟩ =
      .statement fun _ =>
        forM (declarators.map (Declarator.map fun c => (c.outline, meaning w c)))
          (declare w kind) := by
  rw [meaning_eq]; rfl

@[simp]
theorem meaning_expressionStatement (value : Node) :
    meaning w ⟨span, .expressionStatement value⟩ =
      .statement fun _ => .discard (meaning w value).evaluate := by
  rw [meaning_eq]; rfl

@[simp]
theorem meaning_returnStatement (value : Node) :
    meaning w ⟨span, .returnStatement (some value)⟩ =
      .statement fun _ => .returning (meaning w value).evaluate := by
  rw [meaning_eq]; rfl

@[simp]
theorem meaning_throwStatement (value : Node) :
    meaning w ⟨span, .throwStatement value⟩ =
      .statement fun _ => (do throw (.thrown (← (meaning w value).evaluate))) := by
  rw [meaning_eq]; rfl

@[simp]
theorem meaning_ifStatement (test consequent : Node) (alternate : Option Node) :
    meaning w ⟨span, .ifStatement test consequent alternate⟩ =
      .statement fun _ => (do
        if ← (meaning w test).evaluate.holds then (meaning w consequent).run []
        else forM alternate fun a => (meaning w a).run []) := by
  rw [meaning_eq]
  cases alternate <;> rfl

@[simp]
theorem meaning_switchStatement (subject : Node) (cases : List Node) :
    meaning w ⟨span, .switchStatement subject cases⟩ =
      .statement fun _ =>
        switchRun w (meaning w subject).evaluate (cases.map (meaning w)) := by
  rw [meaning_eq, ← map_meanings cases]; rfl

@[simp]
theorem meaning_whileLoop (condition body : Node) :
    meaning w ⟨span, .whileLoop condition body⟩ =
      .statement fun labels =>
        Run.loop labels (meaning w condition).evaluate.holds
          ((meaning w body).run []) (return) := by
  rw [meaning_eq]; rfl

@[simp]
theorem meaning_doWhileLoop (body condition : Node) :
    meaning w ⟨span, .doWhileLoop body condition⟩ =
      .statement fun labels =>
        loopOnce labels ((meaning w body).run [])
          (meaning w condition).evaluate.holds := by
  rw [meaning_eq]; rfl

@[simp]
theorem meaning_forLoop (head : ForHead Node) (body : Node) :
    meaning w ⟨span, .forLoop head body⟩ =
      .statement fun labels =>
        loopRun w labels ((meaning w body).run [])
          (head.map fun c => (c.outline, meaning w c)) := by
  rw [meaning_eq]; rfl

@[simp]
theorem meaning_withStatement (object body : Node) :
    meaning w ⟨span, .withStatement object body⟩ =
      .statement fun _ => (do
        .discard (.perform w (.enter (← (meaning w object).evaluate)))
        (meaning w body).run []) := by
  rw [meaning_eq]; rfl

@[simp]
theorem meaning_labelledStatement (label : String) (body : Node) :
    meaning w ⟨span, .labelledStatement label body⟩ =
      .statement fun labels =>
        ((meaning w body).run (label :: labels)).stoppingAt (·.isBreakOf label) := by
  rw [meaning_eq]; rfl

@[simp]
theorem evaluate_logicalNot (operand : Node) :
    (meaning w ⟨span, .unary .logicalNot operand⟩).evaluate = (do
      return .boolean (!(← (meaning w operand).evaluate.holds))) := by
  rw [meaning_eq]; rfl

@[simp]
theorem evaluate_logicalAnd (left right : Node) :
    (meaning w ⟨span, .binary .logicalAnd left right⟩).evaluate = (do
      let value ← (meaning w left).evaluate
      if value.truth then (meaning w right).evaluate else return value) := by
  rw [meaning_eq]; rfl

@[simp]
theorem evaluate_logicalOr (left right : Node) :
    (meaning w ⟨span, .binary .logicalOr left right⟩).evaluate = (do
      let value ← (meaning w left).evaluate
      if value.truth then return value else (meaning w right).evaluate) := by
  rw [meaning_eq]; rfl

@[simp]
theorem evaluate_conditional (test consequent alternate : Node) :
    (meaning w ⟨span, .conditional test consequent alternate⟩).evaluate = (do
      if ← (meaning w test).evaluate.holds then (meaning w consequent).evaluate
      else (meaning w alternate).evaluate) := by
  rw [meaning_eq]; rfl

@[simp]
theorem evaluate_sequence (elements : List Node) :
    (meaning w ⟨span, .sequence elements⟩).evaluate =
      inTurn (elements.map fun e => (meaning w e).evaluate) := by
  rw [meaning_eq]
  exact congrArg inTurn List.map_map

end Equations

end ScriptMin.Behaviour
