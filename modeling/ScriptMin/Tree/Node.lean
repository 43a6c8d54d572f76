import ScriptMin.Tree.Children

/-!
# Syntax trees and walks

A node is a shape over nodes, with the span that it takes in the source. `Node.fold` is the one
recursion over trees: it computes a value at each node from the node and from its shape with each
child paired with the child's value, and `fold_eq` is its equation. The walks at the end of the
module, and those of other modules, are folds.
-/

namespace ScriptMin

open Source

/-- A node of the syntax tree. -/
structure Node where
  span : Span
  shape : Shape Node

namespace Node

/-- The same place in the source with another shape. -/
def withShape (n : Node) (shape : Shape Node) : Node :=
  { n with shape }

variable {β : Type} (step : Node → Shape (Node × β) → β)

mutual

private def foldChild : Node → Node × β
  | ⟨span, shape⟩ => (⟨span, shape⟩, step ⟨span, shape⟩ (foldShape shape))

private def foldOption : Option Node → Option (Node × β)
  | none => none
  | some n => some (foldChild n)

private def foldList : List Node → List (Node × β)
  | [] => []
  | n :: rest => foldChild n :: foldList rest

private def foldArrayElement : ArrayElement Node → ArrayElement (Node × β)
  | .item value => .item (foldChild value)
  | .spread value => .spread (foldChild value)
  | .hole => .hole

private def foldArrayElements :
    List (ArrayElement Node) → List (ArrayElement (Node × β))
  | [] => []
  | x :: rest => foldArrayElement x :: foldArrayElements rest

private def foldDefaulted : Defaulted Node → Defaulted (Node × β)
  | ⟨target, fallback⟩ => ⟨foldChild target, foldOption fallback⟩

private def foldPatternElement : Option (Defaulted Node) → Option (Defaulted (Node × β))
  | none => none
  | some d => some (foldDefaulted d)

private def foldPatternElements :
    List (Option (Defaulted Node)) → List (Option (Defaulted (Node × β)))
  | [] => []
  | x :: rest => foldPatternElement x :: foldPatternElements rest

private def foldKey : Key Node → Key (Node × β)
  | .direct text => .direct text
  | .computed expression => .computed (foldChild expression)

private def foldMemberValue : MemberValue Node → MemberValue (Node × β)
  | .getter body => .getter (foldChild body)
  | .method isAsync generator parameters body =>
    .method isAsync generator (foldChild parameters) (foldChild body)
  | .property initializer => .property (foldOption initializer)
  | .setter parameter body => .setter (foldChild parameter) (foldChild body)

private def foldClassMember : ClassMember Node → ClassMember (Node × β)
  | ⟨key, isStatic, value⟩ => ⟨foldKey key, isStatic, foldMemberValue value⟩

private def foldClassMembers :
    List (ClassMember Node) → List (ClassMember (Node × β))
  | [] => []
  | x :: rest => foldClassMember x :: foldClassMembers rest

private def foldObjectMember : ObjectMember Node → ObjectMember (Node × β)
  | .valued key value => .valued (foldKey key) (foldMemberValue value)
  | .shorthand name => .shorthand name
  | .spread value => .spread (foldChild value)

private def foldModuleName : ModuleName Node → ModuleName (Node × β)
  | ⟨target, asName⟩ => ⟨target, foldChild asName⟩

private def foldModuleNameList :
    List (ModuleName Node) → List (ModuleName (Node × β))
  | [] => []
  | x :: rest => foldModuleName x :: foldModuleNameList rest

private def foldModuleNames : ModuleNames Node → ModuleNames (Node × β)
  | .all asName => .all (foldOption asName)
  | .listed names => .listed (foldModuleNameList names)

private def foldModuleNamesOption : Option (ModuleNames Node) → Option (ModuleNames (Node × β))
  | none => none
  | some names => some (foldModuleNames names)

private def foldDeclarator : Declarator Node → Declarator (Node × β)
  | ⟨pattern, initializer⟩ => ⟨foldChild pattern, foldOption initializer⟩

private def foldDeclarators :
    List (Declarator Node) → List (Declarator (Node × β))
  | [] => []
  | x :: rest => foldDeclarator x :: foldDeclarators rest

private def foldForInit : ForInit Node → ForInit (Node × β)
  | .none => .none
  | .expression value => .expression (foldChild value)
  | .declaration value => .declaration (foldChild value)

private def foldForTarget : ForTarget Node → ForTarget (Node × β)
  | .declaration value => .declaration (foldChild value)
  | .pattern value => .pattern (foldChild value)

private def foldForHead : ForHead Node → ForHead (Node × β)
  | .stepped init condition post =>
    .stepped (foldForInit init) (foldOption condition) (foldOption post)
  | .each isOf awaits target subject =>
    .each isOf awaits (foldForTarget target) (foldChild subject)

private def foldTemplatePart : TemplatePart Node → TemplatePart (Node × β)
  | .text raw => .text raw
  | .substitution expression => .substitution (foldChild expression)

private def foldTemplateParts :
    List (TemplatePart Node) → List (TemplatePart (Node × β))
  | [] => []
  | x :: rest => foldTemplatePart x :: foldTemplateParts rest

private def foldShape : Shape Node → Shape (Node × β)
  | .bindingName name => .bindingName name
  | .arrayPattern elements rest => .arrayPattern (foldPatternElements elements) (foldOption rest)
  | .objectPattern properties rest => .objectPattern (foldList properties) (foldOption rest)
  | .patternProperty key target fallback shorthand =>
    .patternProperty (foldKey key) (foldChild target) (foldOption fallback) shorthand
  | .definitionName name => .definitionName name
  | .signature parameters => .signature (foldList parameters)
  | .parameter isRest pattern fallback =>
    .parameter isRest (foldChild pattern) (foldOption fallback)
  | .functionDeclaration isAsync generator name parameters body =>
    .functionDeclaration isAsync generator (foldOption name) (foldChild parameters) (foldChild body)
  | .functionExpression isAsync generator name parameters body =>
    .functionExpression isAsync generator (foldOption name) (foldChild parameters) (foldChild body)
  | .arrowFunction isAsync parameters body =>
    .arrowFunction isAsync (foldChild parameters) (foldChild body)
  | .classDeclaration name parent members =>
    .classDeclaration (foldOption name) (foldOption parent) (foldClassMembers members)
  | .classExpression name parent members =>
    .classExpression (foldOption name) (foldOption parent) (foldClassMembers members)
  | .variableDeclaration kind declarators => .variableDeclaration kind (foldDeclarators declarators)
  | .identifier name => .identifier name
  | .binary operator left right => .binary operator (foldChild left) (foldChild right)
  | .assignment operator target value => .assignment operator (foldChild target) (foldChild value)
  | .unary operator operand => .unary operator (foldChild operand)
  | .postfixed operator operand => .postfixed operator (foldChild operand)
  | .conditional test consequent alternate =>
    .conditional (foldChild test) (foldChild consequent) (foldChild alternate)
  | .sequence elements => .sequence (foldList elements)
  | .call isOptional parenthesised callee arguments =>
    .call isOptional parenthesised (foldChild callee) (foldList arguments)
  | .index isOptional parenthesised object subscript =>
    .index isOptional parenthesised (foldChild object) (foldChild subscript)
  | .member isOptional parenthesised object name =>
    .member isOptional parenthesised (foldChild object) name
  | .construct callee arguments => .construct (foldChild callee) (foldList arguments)
  | .argument isSpread value => .argument isSpread (foldChild value)
  | .importCall specifier => .importCall (foldChild specifier)
  | .importMeta => .importMeta
  | .newTarget => .newTarget
  | .superExpression => .superExpression
  | .thisExpression => .thisExpression
  | .yieldExpression delegates operand => .yieldExpression delegates (foldOption operand)
  | .arrayLiteral elements => .arrayLiteral (foldArrayElements elements)
  | .bigIntLiteral digits => .bigIntLiteral digits
  | .booleanLiteral value => .booleanLiteral value
  | .nullLiteral => .nullLiteral
  | .numberLiteral value => .numberLiteral value
  | .objectLiteral members => .objectLiteral (foldList members)
  | .objectMember content => .objectMember (foldObjectMember content)
  | .regexLiteral text => .regexLiteral text
  | .stringLiteral value raw => .stringLiteral value raw
  | .templateLiteral parts => .templateLiteral (foldTemplateParts parts)
  | .taggedTemplate tag parts => .taggedTemplate (foldChild tag) (foldTemplateParts parts)
  | .undefinedLiteral => .undefinedLiteral
  | .block body => .block (foldList body)
  | .breakStatement label => .breakStatement label
  | .continueStatement label => .continueStatement label
  | .debuggerStatement => .debuggerStatement
  | .directive raw => .directive raw
  | .doWhileLoop body condition => .doWhileLoop (foldChild body) (foldChild condition)
  | .emptyStatement => .emptyStatement
  | .exportDeclaration declaration isDefault =>
    .exportDeclaration (foldChild declaration) isDefault
  | .exportDefault expression => .exportDefault (foldChild expression)
  | .exportList names source => .exportList (foldModuleNames names) source
  | .expressionStatement expression => .expressionStatement (foldChild expression)
  | .forLoop head body => .forLoop (foldForHead head) (foldChild body)
  | .ifStatement test consequent alternate =>
    .ifStatement (foldChild test) (foldChild consequent) (foldOption alternate)
  | .importDeclaration defaultName names source =>
    .importDeclaration (foldOption defaultName) (foldModuleNamesOption names) source
  | .labelledStatement label statement => .labelledStatement label (foldChild statement)
  | .returnStatement value => .returnStatement (foldOption value)
  | .switchStatement subject cases => .switchStatement (foldChild subject) (foldList cases)
  | .switchCase test body => .switchCase (foldOption test) (foldList body)
  | .throwStatement value => .throwStatement (foldChild value)
  | .tryStatement body handler finalizer =>
    .tryStatement (foldChild body) (foldOption handler) (foldOption finalizer)
  | .catchClause pattern body => .catchClause (foldOption pattern) (foldChild body)
  | .variableStatement declaration => .variableStatement (foldChild declaration)
  | .whileLoop condition body => .whileLoop (foldChild condition) (foldChild body)
  | .withStatement object body => .withStatement (foldChild object) (foldChild body)
  | .program body => .program (foldList body)

end

/-- The value of a walk at a node. The value at each node is made by `step` from the node and its
shape, in which each child stands beside its own value. -/
def fold (n : Node) : β :=
  (foldChild step n).2

/-- A child beside its value. -/
private theorem foldChild_eq (n : Node) : foldChild step n = (n, n.fold step) := by
  cases n; rfl

private theorem foldOption_eq (o : Option Node) :
    foldOption step o = o.map fun c => (c, c.fold step) := by
  cases o <;> simp [foldOption, foldChild_eq]

private theorem foldList_eq (ns : List Node) :
    foldList step ns = ns.map fun c => (c, c.fold step) := by
  induction ns with
  | nil => rfl
  | cons n rest ih => simp [foldList, foldChild_eq, ih]

private theorem foldArrayElements_eq (xs : List (ArrayElement Node)) :
    foldArrayElements step xs = xs.map (·.map fun c => (c, c.fold step)) := by
  induction xs with
  | nil => rfl
  | cons x rest ih =>
    cases x <;> simp [foldArrayElements, foldArrayElement, ArrayElement.map, foldChild_eq, ih]

private theorem foldPatternElements_eq (xs : List (Option (Defaulted Node))) :
    foldPatternElements step xs = xs.map (·.map (·.map fun c => (c, c.fold step))) := by
  induction xs with
  | nil => rfl
  | cons x rest ih =>
    rcases x with _ | ⟨_, _⟩ <;>
      simp [foldPatternElements, foldPatternElement, foldDefaulted, Defaulted.map, foldChild_eq,
        foldOption_eq, ih]

private theorem foldKey_eq (k : Key Node) :
    foldKey step k = k.map fun c => (c, c.fold step) := by
  cases k <;> simp [foldKey, Key.map, foldChild_eq]

private theorem foldMemberValue_eq (v : MemberValue Node) :
    foldMemberValue step v = v.map fun c => (c, c.fold step) := by
  cases v <;> simp [foldMemberValue, MemberValue.map, foldChild_eq, foldOption_eq]

private theorem foldClassMembers_eq (xs : List (ClassMember Node)) :
    foldClassMembers step xs = xs.map (·.map fun c => (c, c.fold step)) := by
  induction xs with
  | nil => rfl
  | cons x rest ih =>
    obtain ⟨_, _, _⟩ := x
    simp [foldClassMembers, foldClassMember, ClassMember.map, foldKey_eq, foldMemberValue_eq, ih]

private theorem foldObjectMember_eq (x : ObjectMember Node) :
    foldObjectMember step x = x.map fun c => (c, c.fold step) := by
  cases x <;>
    simp [foldObjectMember, ObjectMember.map, foldChild_eq, foldKey_eq, foldMemberValue_eq]

private theorem foldModuleNameList_eq (xs : List (ModuleName Node)) :
    foldModuleNameList step xs = xs.map (·.map fun c => (c, c.fold step)) := by
  induction xs with
  | nil => rfl
  | cons x rest ih =>
    obtain ⟨_, _⟩ := x
    simp [foldModuleNameList, foldModuleName, ModuleName.map, foldChild_eq, ih]

private theorem foldModuleNames_eq (x : ModuleNames Node) :
    foldModuleNames step x = x.map fun c => (c, c.fold step) := by
  cases x <;> simp [foldModuleNames, ModuleNames.map, foldOption_eq, foldModuleNameList_eq]

private theorem foldModuleNamesOption_eq (x : Option (ModuleNames Node)) :
    foldModuleNamesOption step x = x.map (·.map fun c => (c, c.fold step)) := by
  cases x <;> simp [foldModuleNamesOption, foldModuleNames_eq]

private theorem foldDeclarators_eq (xs : List (Declarator Node)) :
    foldDeclarators step xs = xs.map (·.map fun c => (c, c.fold step)) := by
  induction xs with
  | nil => rfl
  | cons x rest ih =>
    obtain ⟨_, _⟩ := x
    simp [foldDeclarators, foldDeclarator, Declarator.map, foldChild_eq, foldOption_eq, ih]

private theorem foldForHead_eq (x : ForHead Node) :
    foldForHead step x = x.map fun c => (c, c.fold step) := by
  cases x with
  | stepped init _ _ =>
    cases init <;>
      simp [foldForHead, foldForInit, ForHead.map, ForInit.map, foldChild_eq, foldOption_eq]
  | each _ _ target _ =>
    cases target <;> simp [foldForHead, foldForTarget, ForHead.map, ForTarget.map, foldChild_eq]

private theorem foldTemplateParts_eq (xs : List (TemplatePart Node)) :
    foldTemplateParts step xs = xs.map (·.map fun c => (c, c.fold step)) := by
  induction xs with
  | nil => rfl
  | cons x rest ih =>
    cases x <;> simp [foldTemplateParts, foldTemplatePart, TemplatePart.map, foldChild_eq, ih]

/-- The equation of a walk. -/
theorem fold_eq (n : Node) :
    n.fold step = step n (n.shape.map fun c => (c, c.fold step)) := by
  obtain ⟨span, shape⟩ := n
  show step ⟨span, shape⟩ (foldShape step shape) = _
  congr 1
  cases shape
  case importDeclaration =>
    simp only [Shape.map, ← foldOption_eq, ← foldModuleNamesOption_eq]
    rfl
  -- The walk over a shape is unfolded by `rfl`: its equations take long to derive.
  all_goals
    simp only [Shape.map, ← foldOption_eq, ← foldList_eq, ← foldArrayElements_eq,
      ← foldPatternElements_eq, ← foldKey_eq, ← foldClassMembers_eq, ← foldObjectMember_eq,
      ← foldModuleNames_eq, ← foldDeclarators_eq, ← foldForHead_eq, ← foldTemplateParts_eq]
    try simp only [← foldChild_eq]
    rfl

/-- A node and all nodes below it, each before its children. -/
def nodes (n : Node) : List Node :=
  n.fold fun n children => n :: children.children.flatMap (·.2)

/-- Whether a node or one below it satisfies `p`. -/
def any (p : Node → Bool) (n : Node) : Bool :=
  n.fold fun n children => p n || children.children.any (·.2)

/-- The elements of a sequence, with or without parentheses, or else the one expression. There is
always one. -/
def elements (n : Node) : List Node :=
  match n.shape with
  | .sequence (first :: rest) => first :: rest
  | _ => [n]

/-- A walk comes to a node before its children and leaves it after them. -/
inductive Visit where
  | enter (n : Node)
  | leave (n : Node)

/-- The steps of a walk that does not go below the nodes that satisfy `skips`. -/
def visits (skips : Node → Bool) (n : Node) : List Visit :=
  n.fold fun n children =>
    .enter n :: (if skips n then [] else children.children.flatMap (·.2)) ++ [.leave n]

end Node

end ScriptMin
