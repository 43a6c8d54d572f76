import ScriptMin.Tree.Shape

/-!
# The children of a shape

`children` lists the children in the order of the source and `map` replaces each of them.
`children_map` says that `map` replaces just the children.
-/

namespace ScriptMin

variable {α β : Type}

theorem toList_optionMap (f : α → β) (o : Option α) : (o.map f).toList = o.toList.map f := by
  cases o <;> rfl

namespace ArrayElement

def children : ArrayElement α → List α
  | .item value | .spread value => [value]
  | .hole => []

def map (f : α → β) : ArrayElement α → ArrayElement β
  | .item value => .item (f value)
  | .spread value => .spread (f value)
  | .hole => .hole

theorem children_map (f : α → β) (x : ArrayElement α) :
    (x.map f).children = x.children.map f := by
  cases x <;> simp [map, children]

end ArrayElement

namespace Defaulted

def children (d : Defaulted α) : List α :=
  d.target :: d.fallback.toList

def map (f : α → β) (d : Defaulted α) : Defaulted β :=
  ⟨f d.target, d.fallback.map f⟩

theorem children_map (f : α → β) (x : Defaulted α) :
    (x.map f).children = x.children.map f := by
  simp [map, children, toList_optionMap]

end Defaulted

namespace Key

def children : Key α → List α
  | .direct _ => []
  | .computed expression => [expression]

def map (f : α → β) : Key α → Key β
  | .direct text => .direct text
  | .computed expression => .computed (f expression)

theorem children_map (f : α → β) (x : Key α) :
    (x.map f).children = x.children.map f := by
  cases x <;> simp [map, children]

end Key

namespace MemberValue

def children : MemberValue α → List α
  | .getter body => [body]
  | .method _ _ parameters body => [parameters, body]
  | .property initializer => initializer.toList
  | .setter parameter body => [parameter, body]

def map (f : α → β) : MemberValue α → MemberValue β
  | .getter body => .getter (f body)
  | .method isAsync generator parameters body => .method isAsync generator (f parameters) (f body)
  | .property initializer => .property (initializer.map f)
  | .setter parameter body => .setter (f parameter) (f body)

theorem children_map (f : α → β) (x : MemberValue α) :
    (x.map f).children = x.children.map f := by
  cases x <;> simp [map, children, toList_optionMap]

end MemberValue

namespace ClassMember

def children (m : ClassMember α) : List α :=
  m.key.children ++ m.value.children

def map (f : α → β) (m : ClassMember α) : ClassMember β :=
  ⟨m.key.map f, m.isStatic, m.value.map f⟩

theorem children_map (f : α → β) (x : ClassMember α) :
    (x.map f).children = x.children.map f := by
  simp [map, children, Key.children_map, MemberValue.children_map]

end ClassMember

namespace ObjectMember

def children : ObjectMember α → List α
  | .valued key value => key.children ++ value.children
  | .shorthand _ => []
  | .spread value => [value]

def map (f : α → β) : ObjectMember α → ObjectMember β
  | .valued key value => .valued (key.map f) (value.map f)
  | .shorthand name => .shorthand name
  | .spread value => .spread (f value)

theorem children_map (f : α → β) (x : ObjectMember α) :
    (x.map f).children = x.children.map f := by
  cases x <;> simp [map, children, Key.children_map, MemberValue.children_map]

end ObjectMember

namespace ModuleName

def map (f : α → β) (n : ModuleName α) : ModuleName β :=
  ⟨n.target, f n.asName⟩

end ModuleName

namespace ModuleNames

def children : ModuleNames α → List α
  | .all asName => asName.toList
  | .listed names => names.map ModuleName.asName

def map (f : α → β) : ModuleNames α → ModuleNames β
  | .all asName => .all (asName.map f)
  | .listed names => .listed (names.map (·.map f))

theorem children_map (f : α → β) (x : ModuleNames α) :
    (x.map f).children = x.children.map f := by
  cases x <;> simp [map, children, ModuleName.map, toList_optionMap]

end ModuleNames

namespace Declarator

def children (d : Declarator α) : List α :=
  d.pattern :: d.initializer.toList

def map (f : α → β) (d : Declarator α) : Declarator β :=
  ⟨f d.pattern, d.initializer.map f⟩

theorem children_map (f : α → β) (x : Declarator α) :
    (x.map f).children = x.children.map f := by
  simp [map, children, toList_optionMap]

end Declarator

namespace ForInit

def children : ForInit α → List α
  | .none => []
  | .expression value | .declaration value => [value]

def map (f : α → β) : ForInit α → ForInit β
  | .none => .none
  | .expression value => .expression (f value)
  | .declaration value => .declaration (f value)

theorem children_map (f : α → β) (x : ForInit α) :
    (x.map f).children = x.children.map f := by
  cases x <;> simp [map, children]

end ForInit

namespace ForTarget

def child : ForTarget α → α
  | .declaration value | .pattern value => value

def map (f : α → β) : ForTarget α → ForTarget β
  | .declaration value => .declaration (f value)
  | .pattern value => .pattern (f value)

theorem child_map (f : α → β) (x : ForTarget α) : (x.map f).child = f x.child := by
  cases x <;> rfl

end ForTarget

namespace ForHead

def children : ForHead α → List α
  | .stepped init condition post => init.children ++ condition.toList ++ post.toList
  | .each _ _ target subject => [target.child, subject]

def map (f : α → β) : ForHead α → ForHead β
  | .stepped init condition post => .stepped (init.map f) (condition.map f) (post.map f)
  | .each isOf awaits target subject => .each isOf awaits (target.map f) (f subject)

theorem children_map (f : α → β) (x : ForHead α) : (x.map f).children = x.children.map f := by
  cases x <;>
    simp [map, children, ForInit.children_map, ForTarget.child_map, toList_optionMap]

end ForHead

namespace TemplatePart

def children : TemplatePart α → List α
  | .text _ => []
  | .substitution expression => [expression]

def map (f : α → β) : TemplatePart α → TemplatePart β
  | .text raw => .text raw
  | .substitution expression => .substitution (f expression)

theorem children_map (f : α → β) (x : TemplatePart α) :
    (x.map f).children = x.children.map f := by
  cases x <;> simp [map, children]

end TemplatePart

namespace Shape

/-- The children of a node, in the order of the source. -/
def children : Shape α → List α
  | .arrayPattern elements rest =>
    (elements.flatMap fun e => e.toList.flatMap Defaulted.children) ++ rest.toList
  | .objectPattern properties rest => properties ++ rest.toList
  | .patternProperty key target fallback _ => key.children ++ [target] ++ fallback.toList
  | .signature parameters => parameters
  | .parameter _ pattern fallback => pattern :: fallback.toList
  | .functionDeclaration _ _ name parameters body => name.toList ++ [parameters, body]
  | .functionExpression _ _ name parameters body => name.toList ++ [parameters, body]
  | .arrowFunction _ parameters body => [parameters, body]
  | .classDeclaration name parent members =>
    name.toList ++ parent.toList ++ members.flatMap ClassMember.children
  | .classExpression name parent members =>
    name.toList ++ parent.toList ++ members.flatMap ClassMember.children
  | .variableDeclaration _ declarators => declarators.flatMap Declarator.children
  | .binary _ left right => [left, right]
  | .assignment _ target value => [target, value]
  | .unary _ operand => [operand]
  | .postfixed _ operand => [operand]
  | .conditional test consequent alternate => [test, consequent, alternate]
  | .sequence elements => elements
  | .call _ _ callee arguments => callee :: arguments
  | .index _ _ object subscript => [object, subscript]
  | .member _ _ object _ => [object]
  | .construct callee arguments => callee :: arguments
  | .argument _ value => [value]
  | .importCall specifier => [specifier]
  | .yieldExpression _ operand => operand.toList
  | .arrayLiteral elements => elements.flatMap ArrayElement.children
  | .objectLiteral members => members
  | .objectMember content => content.children
  | .templateLiteral parts => parts.flatMap TemplatePart.children
  | .taggedTemplate tag parts => [tag] ++ parts.flatMap TemplatePart.children
  | .block body => body
  | .doWhileLoop body condition => [body, condition]
  | .exportDeclaration declaration _ => [declaration]
  | .exportDefault expression => [expression]
  | .exportList names _ => names.children
  | .expressionStatement expression => [expression]
  | .forLoop head body => head.children ++ [body]
  | .ifStatement test consequent alternate => [test, consequent] ++ alternate.toList
  | .importDeclaration defaultName names _ =>
    defaultName.toList ++ names.toList.flatMap ModuleNames.children
  | .labelledStatement _ statement => [statement]
  | .returnStatement value => value.toList
  | .switchStatement subject cases => subject :: cases
  | .switchCase test body => test.toList ++ body
  | .throwStatement value => [value]
  | .tryStatement body handler finalizer => [body] ++ handler.toList ++ finalizer.toList
  | .catchClause pattern body => pattern.toList ++ [body]
  | .variableStatement declaration => [declaration]
  | .whileLoop condition body => [condition, body]
  | .withStatement object body => [object, body]
  | .program body => body
  | .bindingName _ | .definitionName _ | .identifier _ | .importMeta | .newTarget
  | .superExpression | .thisExpression | .bigIntLiteral _ | .booleanLiteral _ | .nullLiteral
  | .numberLiteral _ | .regexLiteral _ | .stringLiteral _ _ | .undefinedLiteral
  | .breakStatement _ | .continueStatement _ | .debuggerStatement | .directive _
  | .emptyStatement => []

/-- The node with each child replaced. -/
def map (f : α → β) : Shape α → Shape β
  | .bindingName name => .bindingName name
  | .arrayPattern elements rest => .arrayPattern (elements.map (·.map (·.map f))) (rest.map f)
  | .objectPattern properties rest => .objectPattern (properties.map f) (rest.map f)
  | .patternProperty key target fallback shorthand =>
    .patternProperty (key.map f) (f target) (fallback.map f) shorthand
  | .definitionName name => .definitionName name
  | .signature parameters => .signature (parameters.map f)
  | .parameter isRest pattern fallback => .parameter isRest (f pattern) (fallback.map f)
  | .functionDeclaration isAsync generator name parameters body =>
    .functionDeclaration isAsync generator (name.map f) (f parameters) (f body)
  | .functionExpression isAsync generator name parameters body =>
    .functionExpression isAsync generator (name.map f) (f parameters) (f body)
  | .arrowFunction isAsync parameters body => .arrowFunction isAsync (f parameters) (f body)
  | .classDeclaration name parent members =>
    .classDeclaration (name.map f) (parent.map f) (members.map (·.map f))
  | .classExpression name parent members =>
    .classExpression (name.map f) (parent.map f) (members.map (·.map f))
  | .variableDeclaration kind declarators => .variableDeclaration kind (declarators.map (·.map f))
  | .identifier name => .identifier name
  | .binary operator left right => .binary operator (f left) (f right)
  | .assignment operator target value => .assignment operator (f target) (f value)
  | .unary operator operand => .unary operator (f operand)
  | .postfixed operator operand => .postfixed operator (f operand)
  | .conditional test consequent alternate => .conditional (f test) (f consequent) (f alternate)
  | .sequence elements => .sequence (elements.map f)
  | .call isOptional parenthesised callee arguments =>
    .call isOptional parenthesised (f callee) (arguments.map f)
  | .index isOptional parenthesised object subscript =>
    .index isOptional parenthesised (f object) (f subscript)
  | .member isOptional parenthesised object name =>
    .member isOptional parenthesised (f object) name
  | .construct callee arguments => .construct (f callee) (arguments.map f)
  | .argument isSpread value => .argument isSpread (f value)
  | .importCall specifier => .importCall (f specifier)
  | .importMeta => .importMeta
  | .newTarget => .newTarget
  | .superExpression => .superExpression
  | .thisExpression => .thisExpression
  | .yieldExpression delegates operand => .yieldExpression delegates (operand.map f)
  | .arrayLiteral elements => .arrayLiteral (elements.map (·.map f))
  | .bigIntLiteral digits => .bigIntLiteral digits
  | .booleanLiteral value => .booleanLiteral value
  | .nullLiteral => .nullLiteral
  | .numberLiteral value => .numberLiteral value
  | .objectLiteral members => .objectLiteral (members.map f)
  | .objectMember content => .objectMember (content.map f)
  | .regexLiteral text => .regexLiteral text
  | .stringLiteral value raw => .stringLiteral value raw
  | .templateLiteral parts => .templateLiteral (parts.map (·.map f))
  | .taggedTemplate tag parts => .taggedTemplate (f tag) (parts.map (·.map f))
  | .undefinedLiteral => .undefinedLiteral
  | .block body => .block (body.map f)
  | .breakStatement label => .breakStatement label
  | .continueStatement label => .continueStatement label
  | .debuggerStatement => .debuggerStatement
  | .directive raw => .directive raw
  | .doWhileLoop body condition => .doWhileLoop (f body) (f condition)
  | .emptyStatement => .emptyStatement
  | .exportDeclaration declaration isDefault => .exportDeclaration (f declaration) isDefault
  | .exportDefault expression => .exportDefault (f expression)
  | .exportList names source => .exportList (names.map f) source
  | .expressionStatement expression => .expressionStatement (f expression)
  | .forLoop head body => .forLoop (head.map f) (f body)
  | .ifStatement test consequent alternate =>
    .ifStatement (f test) (f consequent) (alternate.map f)
  | .importDeclaration defaultName names source =>
    .importDeclaration (defaultName.map f) (names.map (·.map f)) source
  | .labelledStatement label statement => .labelledStatement label (f statement)
  | .returnStatement value => .returnStatement (value.map f)
  | .switchStatement subject cases => .switchStatement (f subject) (cases.map f)
  | .switchCase test body => .switchCase (test.map f) (body.map f)
  | .throwStatement value => .throwStatement (f value)
  | .tryStatement body handler finalizer =>
    .tryStatement (f body) (handler.map f) (finalizer.map f)
  | .catchClause pattern body => .catchClause (pattern.map f) (f body)
  | .variableStatement declaration => .variableStatement (f declaration)
  | .whileLoop condition body => .whileLoop (f condition) (f body)
  | .withStatement object body => .withStatement (f object) (f body)
  | .program body => .program (body.map f)

end Shape

/-- A list of parts is mapped part by part. -/
private theorem flatMap_children {γ δ : Type} (before : γ → List α) (after : δ → List β)
    (f : α → β) (g : γ → δ) (h : ∀ x, after (g x) = (before x).map f) (parts : List γ) :
    (parts.map g).flatMap after = (parts.flatMap before).map f := by
  induction parts with
  | nil => rfl
  | cons x rest ih => simp [h, ih]

/-- The children of the mapped node are the mapped children. -/
theorem Shape.children_map (f : α → β) (s : Shape α) :
    (s.map f).children = s.children.map f := by
  have elements (parts : List (Option (Defaulted α))) :=
    flatMap_children (fun e => e.toList.flatMap Defaulted.children)
      (fun e => e.toList.flatMap Defaulted.children) f (·.map (·.map f))
      (by intro e; cases e <;> simp [Defaulted.children_map]) parts
  cases s <;>
    simp only [Shape.map, Shape.children, List.map_append, List.map_cons, List.map_nil,
      toList_optionMap, elements, Key.children_map, ObjectMember.children_map,
      ModuleNames.children_map, ForHead.children_map,
      flatMap_children _ _ f _ (ArrayElement.children_map f),
      flatMap_children _ _ f _ (ClassMember.children_map f),
      flatMap_children _ _ f _ (Declarator.children_map f),
      flatMap_children _ _ f _ (ModuleNames.children_map f),
      flatMap_children _ _ f _ (TemplatePart.children_map f)]

end ScriptMin
