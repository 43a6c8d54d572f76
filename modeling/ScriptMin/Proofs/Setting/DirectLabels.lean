import ScriptMin.Grammar.Program

/-!
# The count of direct labels

A frame counts how many of its labels stand directly before the statement that comes next. That
there are so many, no type says. So the rules are diverted: in a frame that counts more labels than
it has, they read whatever else they like. A construct reads the same with them, since it hands no
such frame on, and so does a whole program.
-/

namespace ScriptMin.Grammar

/-! ## Frames -/

/-- All labels that are counted are there. -/
def Frame.CountsLabels (f : Frame) : Prop := f.directLabels ≤ f.labels.length

namespace Frame

instance (f : Frame) : Decidable f.CountsLabels :=
  inferInstanceAs (Decidable (f.directLabels ≤ f.labels.length))

variable {f : Frame}

@[simp] theorem countsLabels_topLevel (strict : Bool) : (topLevel strict).CountsLabels :=
  Nat.zero_le _

@[simp] theorem countsLabels_function (generator isAsync : Bool) :
    (f.function generator isAsync).CountsLabels := Nat.zero_le _

@[simp] theorem countsLabels_method (generator isAsync : Bool) :
    (f.method generator isAsync).CountsLabels := Nat.zero_le _

@[simp] theorem countsLabels_arrow (isAsync : Bool) : (f.arrow isAsync).CountsLabels :=
  Nat.zero_le _

@[simp] theorem countsLabels_classBody : f.classBody.CountsLabels := Nat.zero_le _

@[simp] theorem countsLabels_statement (isLoop : Bool) : (f.statement isLoop).CountsLabels :=
  Nat.zero_le _

@[simp] theorem countsLabels_withStrict (strict : Bool) :
    { f with strict }.CountsLabels ↔ f.CountsLabels := Iff.rfl

@[simp] theorem countsLabels_withGenerator (generator : Bool) :
    { f with generator }.CountsLabels ↔ f.CountsLabels := Iff.rfl

@[simp] theorem countsLabels_parameters : f.parameters.CountsLabels ↔ f.CountsLabels := Iff.rfl

@[simp] theorem countsLabels_loopBody : f.loopBody.CountsLabels ↔ f.CountsLabels := Iff.rfl

@[simp] theorem countsLabels_switchBody : f.switchBody.CountsLabels ↔ f.CountsLabels := Iff.rfl

/-- A label is added and counted. -/
@[simp] theorem countsLabels_labelled (name : String) :
    (f.labelled name).CountsLabels ↔ f.CountsLabels := Nat.succ_le_succ_iff

end Frame

/-! ## Rules -/

namespace Rules

/-- The same rules, but for frames that count labels they do not have: there, other rules read. -/
def diverted (rules other : Rules) : Rules where
  bound := rules.bound
  expression f e := if f.CountsLabels then rules.expression f e else other.expression f e
  statement f := if f.CountsLabels then rules.statement f else other.statement f
  pattern f kind := if f.CountsLabels then rules.pattern f kind else other.pattern f kind
  construct f t := if f.CountsLabels then rules.construct f t else other.construct f t

/-- The constructs, read with these rules one level further down. -/
def above (rules : Rules) : Rules where
  bound := rules.bound
  expression := Grammar.expression rules
  statement := Grammar.statement rules
  pattern := Grammar.pattern rules
  construct := Grammar.construct rules

end Rules

variable {rules other : Rules} {f : Frame}

namespace Rules

@[simp] theorem bound_diverted : (rules.diverted other).bound = rules.bound := rfl

variable (hf : f.CountsLabels)

include hf

@[simp] theorem expression_diverted (e : Extent) :
    (rules.diverted other).expression f e = rules.expression f e := if_pos hf

@[simp] theorem statement_diverted :
    (rules.diverted other).statement f = rules.statement f := if_pos hf

@[simp] theorem pattern_diverted (kind : Binding) :
    (rules.diverted other).pattern f kind = rules.pattern f kind := if_pos hf

@[simp] theorem construct_diverted (t : Token) :
    (rules.diverted other).construct f t = rules.construct f t := if_pos hf

@[simp] theorem whole_diverted (stop : Punctuator) :
    (rules.diverted other).whole f stop = rules.whole f stop := by
  simp [whole, hf]

@[simp] theorem single_diverted (stops : List Punctuator) :
    (rules.diverted other).single f stops = rules.single f stops := by
  simp [single, hf]

@[simp] theorem fallback_diverted (stop : Punctuator) :
    (rules.diverted other).fallback f stop = rules.fallback f stop := by
  simp [fallback, hf]

@[simp] theorem parenthesised_diverted :
    (rules.diverted other).parenthesised f = rules.parenthesised f := by
  simp [parenthesised, hf]

end Rules

/-! ## Patterns -/

@[simp] theorem key_diverted (hf : f.CountsLabels) :
    key (rules.diverted other) f = key rules f := by
  simp [key, hf]

@[simp] theorem patternProperty_diverted (hf : f.CountsLabels) (kind : Binding) (first : Token) :
    patternProperty (rules.diverted other) f kind first = patternProperty rules f kind first := by
  simp [patternProperty, hf]

@[simp] theorem patternProperties_diverted (hf : f.CountsLabels) (kind : Binding) :
    patternProperties (rules.diverted other) f kind = patternProperties rules f kind := by
  simp [patternProperties, hf]

@[simp] theorem patternElements_diverted (hf : f.CountsLabels) (kind : Binding) :
    patternElements (rules.diverted other) f kind = patternElements rules f kind := by
  simp [patternElements, hf]

@[simp] theorem pattern_diverted (hf : f.CountsLabels) (kind : Binding) :
    pattern (rules.diverted other) f kind = pattern rules f kind := by
  simp [pattern, hf]

/-! ## Functions

The parts of a function have a frame of their own, whatever the frame around it. -/

@[simp] theorem signature_diverted (hf : f.CountsLabels) :
    signature (rules.diverted other) f = signature rules f := by
  simp [signature, hf]

@[simp] theorem statements_diverted (hf : f.CountsLabels) :
    statements (rules.diverted other) f = statements rules f := by
  simp [statements, hf]

@[simp] theorem functionBody_diverted (hf : f.CountsLabels) :
    functionBody (rules.diverted other) f = functionBody rules f := by
  simp [functionBody, hf]

@[simp] theorem functionParts_diverted (hf : f.CountsLabels) (outer : Frame) (unique : Bool) :
    functionParts (rules.diverted other) outer f unique = functionParts rules outer f unique := by
  simp [functionParts, hf]

@[simp] theorem functionFrom_diverted (checkName : Bool → Option Token → Parse Unit)
    (shape : Bool → Bool → Option Node → Node → Node → Shape Node) :
    functionFrom (rules.diverted other) f checkName shape =
      functionFrom rules f checkName shape := by
  simp [functionFrom]

@[simp] theorem functionExpression_diverted :
    functionExpression (rules.diverted other) f = functionExpression rules f := by
  simp [functionExpression]

@[simp] theorem functionDeclaration_diverted (needsName : Bool) :
    functionDeclaration (rules.diverted other) f needsName =
      functionDeclaration rules f needsName := by
  simp [functionDeclaration]

/-! ## Members and classes -/

@[simp] theorem getter_diverted : getter (rules.diverted other) f = getter rules f := by
  simp [getter]

@[simp] theorem setter_diverted : setter (rules.diverted other) f = setter rules f := by
  simp [setter]

@[simp] theorem method_diverted (isAsync generator : Bool) :
    method (rules.diverted other) f isAsync generator = method rules f isAsync generator := by
  simp [method]

@[simp] theorem property_diverted (hf : f.CountsLabels) (host : MemberHost) (first : Token)
    (key : Key Node) :
    property (rules.diverted other) f host first key = property rules f host first key := by
  simp [property, hf]

@[simp] theorem member_diverted (hf : f.CountsLabels) (host : MemberHost) :
    member (rules.diverted other) f host = member rules f host := by
  simp [member, hf]

@[simp] theorem classBody_diverted (hf : f.CountsLabels) :
    classBody (rules.diverted other) f = classBody rules f := by
  simp [classBody, hf]

@[simp] theorem classFrom_diverted (needsName : Bool)
    (shape : Option Node → Option Node → List (ClassMember Node) → Shape Node) :
    classFrom (rules.diverted other) f needsName shape = classFrom rules f needsName shape := by
  simp [classFrom]

@[simp] theorem classExpression_diverted :
    classExpression (rules.diverted other) f = classExpression rules f := by
  simp [classExpression]

@[simp] theorem classDeclaration_diverted (needsName : Bool) :
    classDeclaration (rules.diverted other) f needsName = classDeclaration rules f needsName := by
  simp [classDeclaration]

/-! ## Arrow functions -/

@[simp] theorem arrowBody_diverted (hf : f.CountsLabels) (e : Extent) :
    arrowBody (rules.diverted other) f e = arrowBody rules f e := by
  simp [arrowBody, hf]

@[simp] theorem arrowFunction_diverted (e : Extent) (isAsync : Bool) (start : Source.Span)
    (parameters : Node) :
    arrowFunction (rules.diverted other) f e isAsync start parameters =
      arrowFunction rules f e isAsync start parameters := by
  simp [arrowFunction]

@[simp] theorem singleParameterArrow_diverted (e : Extent) (isAsync : Bool) (start : Source.Span)
    (name : Token) :
    singleParameterArrow (rules.diverted other) f e isAsync start name =
      singleParameterArrow rules f e isAsync start name := by
  simp [singleParameterArrow]

@[simp] theorem parenthesisedArrow_diverted (e : Extent) (isAsync : Bool)
    (start : Option Source.Span) :
    parenthesisedArrow? (rules.diverted other) f e isAsync start =
      parenthesisedArrow? rules f e isAsync start := by
  simp [parenthesisedArrow?]

/-! ## Expressions -/

@[simp] theorem arguments_diverted (hf : f.CountsLabels) :
    arguments (rules.diverted other) f = arguments rules f := by
  simp [arguments, hf]

@[simp] theorem arrayLiteral_diverted (hf : f.CountsLabels) (first : Token) :
    arrayLiteral (rules.diverted other) f first = arrayLiteral rules f first := by
  simp [arrayLiteral, hf]

@[simp] theorem objectLiteral_diverted (hf : f.CountsLabels) (first : Token) :
    objectLiteral (rules.diverted other) f first = objectLiteral rules f first := by
  simp [objectLiteral, hf]

@[simp] theorem templateParts_diverted (hf : f.CountsLabels) (head : Token) :
    templateParts (rules.diverted other) f head = templateParts rules f head := by
  simp [templateParts, hf]

@[simp] theorem subscript_diverted (hf : f.CountsLabels) :
    subscript (rules.diverted other) f = subscript rules f := by
  simp [subscript, hf]

@[simp] theorem importExpression_diverted (hf : f.CountsLabels) (first : Token) :
    importExpression (rules.diverted other) f first = importExpression rules f first := by
  simp [importExpression, hf]

@[simp] theorem constructorAccesses_diverted (hf : f.CountsLabels) (callee : Node) :
    constructorAccesses (rules.diverted other) f callee = constructorAccesses rules f callee := by
  simp [constructorAccesses, hf]

@[simp] theorem yieldOperand_diverted (hf : f.CountsLabels) (e : Extent) (t : Token) :
    yieldOperand (rules.diverted other) f e t = yieldOperand rules f e t := by
  simp [yieldOperand, hf]

@[simp] theorem unaryOperand_diverted (hf : f.CountsLabels) (e : Extent) (t : Token)
    (operator : UnaryOperator) :
    unaryOperand (rules.diverted other) f e t operator = unaryOperand rules f e t operator := by
  simp [unaryOperand, hf]

@[simp] theorem parenthesisedOperand_diverted (hf : f.CountsLabels) (e : Extent) :
    parenthesisedOperand (rules.diverted other) f e = parenthesisedOperand rules f e := by
  simp [parenthesisedOperand, hf]

@[simp] theorem asyncOperand_diverted (e : Extent) (place : Cursor) (t : Token) :
    asyncOperand (rules.diverted other) f e place t = asyncOperand rules f e place t := by
  simp [asyncOperand]

@[simp] theorem nameOperand_diverted (e : Extent) (t : Token) :
    nameOperand (rules.diverted other) f e t = nameOperand rules f e t := by
  simp [nameOperand]

@[simp] theorem operand_diverted (hf : f.CountsLabels) (e : Extent) :
    operand (rules.diverted other) f e = operand rules f e := by
  simp [operand, hf]

@[simp] theorem construct_diverted (hf : f.CountsLabels) (first : Token) :
    construct (rules.diverted other) f first = construct rules f first := by
  simp [construct, hf]

@[simp] theorem rightOf_diverted (hf : f.CountsLabels) (e : Extent) (p : Progress)
    (operator : Operator) (t : Token) :
    rightOf (rules.diverted other) f e p operator t = rightOf rules f e p operator t := by
  simp [rightOf, hf]

@[simp] theorem operation_diverted (hf : f.CountsLabels) (e : Extent) :
    operation (rules.diverted other) f e = operation rules f e := by
  funext p
  simp [operation, hf]

@[simp] theorem expression_diverted (hf : f.CountsLabels) (e : Extent) :
    expression (rules.diverted other) f e = expression rules f e := by
  simp [expression, hf]

/-! ## Variables and loops -/

@[simp] theorem declarator_diverted (hf : f.CountsLabels) (place : VariablesPlace) :
    declarator (rules.diverted other) f place = declarator rules f place := by
  simp [declarator, hf]

@[simp] theorem variableDeclaration_diverted (hf : f.CountsLabels) (place : VariablesPlace) :
    variableDeclaration (rules.diverted other) f place = variableDeclaration rules f place := by
  simp [variableDeclaration, hf]

@[simp] theorem headStart_diverted (hf : f.CountsLabels) :
    headStart (rules.diverted other) f = headStart rules f := by
  simp [headStart, hf]

@[simp] theorem eachHead_diverted (hf : f.CountsLabels) (awaits : Bool) (start : HeadStart) :
    eachHead (rules.diverted other) f awaits start = eachHead rules f awaits start := by
  simp [eachHead, hf]

@[simp] theorem optionalPart_diverted (hf : f.CountsLabels) (stop : Punctuator) :
    optionalPart (rules.diverted other) f stop = optionalPart rules f stop := by
  simp [optionalPart, hf]

@[simp] theorem steppedHead_diverted (hf : f.CountsLabels) (start : HeadStart) :
    steppedHead (rules.diverted other) f start = steppedHead rules f start := by
  simp [steppedHead, hf]

@[simp] theorem forHead_diverted (hf : f.CountsLabels) (awaits : Bool) :
    forHead (rules.diverted other) f awaits = forHead rules f awaits := by
  simp [forHead, hf]

@[simp] theorem forLoop_diverted (hf : f.CountsLabels) :
    forLoop (rules.diverted other) f = forLoop rules f := by
  simp [forLoop, hf]

@[simp] theorem whileLoop_diverted (hf : f.CountsLabels) :
    whileLoop (rules.diverted other) f = whileLoop rules f := by
  simp [whileLoop, hf]

@[simp] theorem doWhileLoop_diverted (hf : f.CountsLabels) :
    doWhileLoop (rules.diverted other) f = doWhileLoop rules f := by
  simp [doWhileLoop, hf]

/-! ## Imports and exports -/

@[simp] theorem importNames_diverted :
    importNames (rules.diverted other) f = importNames rules f := by
  simp [importNames]

@[simp] theorem importBindings_diverted :
    importBindings (rules.diverted other) f = importBindings rules f := by
  simp [importBindings]

@[simp] theorem importDeclaration_diverted :
    importDeclaration (rules.diverted other) f = importDeclaration rules f := by
  simp [importDeclaration]

@[simp] theorem exportNames_diverted : exportNames (rules.diverted other) = exportNames rules := by
  simp [exportNames]

@[simp] theorem exportDefault_diverted (hf : f.CountsLabels) :
    exportDefault (rules.diverted other) f = exportDefault rules f := by
  simp [exportDefault, hf]

@[simp] theorem exportDeclaration_diverted (hf : f.CountsLabels) (t : Token) :
    exportDeclaration (rules.diverted other) f t = exportDeclaration rules f t := by
  simp [exportDeclaration, hf]

@[simp] theorem exportStatement_diverted (hf : f.CountsLabels) :
    exportStatement (rules.diverted other) f = exportStatement rules f := by
  simp [exportStatement, hf]

/-! ## Statements -/

@[simp] theorem statementValue_diverted (hf : f.CountsLabels) :
    statementValue (rules.diverted other) f = statementValue rules f := by
  simp [statementValue, hf]

@[simp] theorem expressionStatement_diverted (hf : f.CountsLabels) :
    expressionStatement (rules.diverted other) f = expressionStatement rules f := by
  simp [expressionStatement, hf]

@[simp] theorem variableStatement_diverted (hf : f.CountsLabels) :
    variableStatement (rules.diverted other) f = variableStatement rules f := by
  simp [variableStatement, hf]

@[simp] theorem returnStatement_diverted (hf : f.CountsLabels) :
    returnStatement (rules.diverted other) f = returnStatement rules f := by
  simp [returnStatement, hf]

@[simp] theorem throwStatement_diverted (hf : f.CountsLabels) :
    throwStatement (rules.diverted other) f = throwStatement rules f := by
  simp [throwStatement, hf]

@[simp] theorem labelledStatement_diverted (hf : f.CountsLabels) :
    labelledStatement (rules.diverted other) f = labelledStatement rules f := by
  simp [labelledStatement, hf]

@[simp] theorem block_diverted (hf : f.CountsLabels) :
    block (rules.diverted other) f = block rules f := by
  simp [block, hf]

@[simp] theorem ifStatement_diverted (hf : f.CountsLabels) :
    ifStatement (rules.diverted other) f = ifStatement rules f := by
  simp [ifStatement, hf]

@[simp] theorem catchClause_diverted (hf : f.CountsLabels) :
    catchClause (rules.diverted other) f = catchClause rules f := by
  simp [catchClause, hf]

@[simp] theorem tryStatement_diverted (hf : f.CountsLabels) :
    tryStatement (rules.diverted other) f = tryStatement rules f := by
  simp [tryStatement, hf]

@[simp] theorem switchCase_diverted (hf : f.CountsLabels) :
    switchCase (rules.diverted other) f = switchCase rules f := by
  simp [switchCase, hf]

@[simp] theorem switchStatement_diverted (hf : f.CountsLabels) :
    switchStatement (rules.diverted other) f = switchStatement rules f := by
  simp [switchStatement, hf]

@[simp] theorem withStatement_diverted (hf : f.CountsLabels) :
    withStatement (rules.diverted other) f = withStatement rules f := by
  simp [withStatement, hf]

@[simp] theorem plainStatement_diverted (hf : f.CountsLabels) (t : Token) :
    plainStatement (rules.diverted other) f t = plainStatement rules f t := by
  simp [plainStatement, hf]

@[simp] theorem statement_diverted (hf : f.CountsLabels) :
    statement (rules.diverted other) f = statement rules f := by
  simp [statement, hf]

/-! ## Programs -/

/-- Rules that agree where no label is missing are the same when they are diverted. -/
theorem Rules.diverted_congr {rules rules' other : Rules} (hbound : rules.bound = rules'.bound)
    (hexpression : ∀ f e, f.CountsLabels → rules.expression f e = rules'.expression f e)
    (hstatement : ∀ f, f.CountsLabels → rules.statement f = rules'.statement f)
    (hpattern : ∀ f kind, f.CountsLabels → rules.pattern f kind = rules'.pattern f kind)
    (hconstruct : ∀ f t, f.CountsLabels → rules.construct f t = rules'.construct f t) :
    rules.diverted other = rules'.diverted other := by
  simp only [diverted, mk.injEq]
  refine ⟨hbound, ?_, ?_, ?_, ?_⟩
  · funext f e
    exact ite_congr rfl (hexpression f e) fun _ => rfl
  · funext f
    exact ite_congr rfl (hstatement f) fun _ => rfl
  · funext f kind
    exact ite_congr rfl (hpattern f kind) fun _ => rfl
  · funext f t
    exact ite_congr rfl (hconstruct f t) fun _ => rfl

/-- One level further up, the constructs make nothing of what is diverted below. -/
theorem above_diverted (rules other : Rules) :
    (rules.diverted other).above.diverted other = rules.above.diverted other :=
  Rules.diverted_congr rfl (fun _ e hf => expression_diverted hf e)
    (fun _ hf => statement_diverted hf) (fun _ kind hf => pattern_diverted hf kind)
    fun _ t hf => construct_diverted hf t

theorem rules_succ (bound depth : Nat) :
    Grammar.rules bound (depth + 1) = (Grammar.rules bound depth).above := by
  rw [Grammar.rules, Rules.above, bound_rules]

/-- The rules of each level of nesting, diverted at every one of them. -/
def divertedRules (other : Rules) (bound : Nat) : Nat → Rules
  | 0 => (Grammar.rules bound 0).diverted other
  | depth + 1 => (divertedRules other bound depth).above.diverted other

theorem divertedRules_eq (other : Rules) (bound depth : Nat) :
    divertedRules other bound depth = (Grammar.rules bound depth).diverted other := by
  induction depth with
  | zero => rfl
  | succ depth ih => rw [divertedRules, ih, above_diverted, rules_succ]

end ScriptMin.Grammar

namespace ScriptMin.Program

open Grammar

/-- A program is read alike, whatever is read in frames that count labels they do not have. -/
theorem read_divertedRules (mode : Mode) (stop : Nat) (other : Rules) (bound depth : Nat) :
    read mode stop (divertedRules other bound depth) = read mode stop (rules bound depth) := by
  simp [divertedRules_eq, read]

end ScriptMin.Program
