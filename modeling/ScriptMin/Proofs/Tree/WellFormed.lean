import ScriptMin.Proofs.Tree.Bodies
import ScriptMin.Proofs.Tree.Induction
import ScriptMin.Proofs.Tree.Map

/-!
# Well-formed trees

`Shape` lets any node stand in any place. The language does not: what is added is an expression, and
what a loop repeats is a statement. Each place in a shape has a role, and a tree is well formed if
every node in it fits the role of its place.
-/

namespace ScriptMin

/-! ## Roles -/

/-- What a node is for in its place. -/
inductive Role where
  | expression
  | statement
  /-- Statements in braces, as of a function. -/
  | body
  /-- The body of an arrow function: statements in braces or an expression. -/
  | arrowBody
  /-- The variables of a statement or of the head of a loop. -/
  | variables
  /-- A declaration after the word `export`. -/
  | exportable
  /-- A name that an import binds or an export shows. -/
  | binding
  /-- The name of a function or a class. -/
  | definition
  /-- What is declared or assigned to. -/
  | target
  | property
  | signature
  | parameter
  | argument
  | member
  | branch
  | handler
deriving DecidableEq, Repr

namespace Shape

variable {α β : Type}

def isExpression : Shape α → Bool
  | .functionExpression .. | .arrowFunction .. | .classExpression .. | .identifier _ | .binary ..
  | .assignment .. | .unary .. | .postfixed .. | .conditional .. | .sequence _ | .call ..
  | .index .. | .member .. | .construct .. | .importCall _ | .importMeta | .newTarget
  | .superExpression | .thisExpression | .yieldExpression .. | .arrayLiteral _ | .bigIntLiteral _
  | .booleanLiteral _ | .nullLiteral | .numberLiteral _ | .objectLiteral _ | .regexLiteral _
  | .stringLiteral .. | .templateLiteral _ | .taggedTemplate .. | .undefinedLiteral => true
  | _ => false

def isStatement : Shape α → Bool
  | .functionDeclaration .. | .classDeclaration .. | .block _ | .breakStatement _
  | .continueStatement _ | .debuggerStatement | .directive _ | .doWhileLoop .. | .emptyStatement
  | .exportDeclaration .. | .exportDefault _ | .exportList .. | .expressionStatement _
  | .forLoop .. | .ifStatement .. | .importDeclaration .. | .labelledStatement ..
  | .returnStatement _ | .switchStatement .. | .throwStatement _ | .tryStatement ..
  | .variableStatement _ | .whileLoop .. | .withStatement .. => true
  | _ => false

end Shape

/-- The shapes that a role takes. -/
def Role.accepts {α : Type} (role : Role) (s : Shape α) : Bool :=
  match role with
  | .expression => s.isExpression
  | .statement => s.isStatement
  | .body => (s matches .block _)
  | .arrowBody => s.isExpression || (s matches .block _)
  | .variables => (s matches .variableDeclaration ..)
  | .exportable =>
    (s matches .variableStatement _ | .functionDeclaration .. | .classDeclaration ..)
  | .binding => (s matches .bindingName _)
  | .definition => (s matches .definitionName _)
  | .target =>
    (s matches .bindingName _ | .arrayPattern .. | .objectPattern .. | .member .. | .index ..)
  | .property => (s matches .patternProperty ..)
  | .signature => (s matches .signature _)
  | .parameter => (s matches .parameter ..)
  | .argument => (s matches .argument ..)
  | .member => (s matches .objectMember _)
  | .branch => (s matches .switchCase ..)
  | .handler => (s matches .catchClause ..)

/-! ## Places -/

section Places

variable {α β : Type}

/-- Children in places of one role. -/
def Role.each (role : Role) (cs : List α) : List (Role × α) := cs.map (role, ·)

@[simp] theorem Role.each_map (role : Role) (f : α → β) (cs : List α) :
    role.each (cs.map f) = (role.each cs).map (Prod.map id f) := by
  simp [each, Function.comp_def]

def ArrayElement.places (e : ArrayElement α) : List (Role × α) :=
  Role.expression.each e.children

def Defaulted.places (d : Defaulted α) : List (Role × α) :=
  (.target, d.target) :: Role.expression.each d.fallback.toList

def Key.places (k : Key α) : List (Role × α) :=
  Role.expression.each k.children

def MemberValue.places : MemberValue α → List (Role × α)
  | .getter body => [(.body, body)]
  | .method _ _ parameters body => [(.signature, parameters), (.body, body)]
  | .property initializer => Role.expression.each initializer.toList
  | .setter parameter body => [(.target, parameter), (.body, body)]

def ClassMember.places (m : ClassMember α) : List (Role × α) :=
  m.key.places ++ m.value.places

def ObjectMember.places : ObjectMember α → List (Role × α)
  | .valued key value => key.places ++ value.places
  | .shorthand _ => []
  | .spread value => [(.expression, value)]

def ModuleNames.places (n : ModuleNames α) : List (Role × α) :=
  Role.binding.each n.children

def Declarator.places (d : Declarator α) : List (Role × α) :=
  (.target, d.pattern) :: Role.expression.each d.initializer.toList

def ForInit.places : ForInit α → List (Role × α)
  | .none => []
  | .expression value => [(.expression, value)]
  | .declaration value => [(.variables, value)]

def ForTarget.place : ForTarget α → Role × α
  | .declaration value => (.variables, value)
  | .pattern value => (.target, value)

def ForHead.places : ForHead α → List (Role × α)
  | .stepped init condition post =>
    init.places ++ Role.expression.each condition.toList ++ Role.expression.each post.toList
  | .each _ _ target subject => [target.place, (.expression, subject)]

def TemplatePart.places (p : TemplatePart α) : List (Role × α) :=
  Role.expression.each p.children

/-- The children of a node with the roles of their places. -/
def Shape.places : Shape α → List (Role × α)
  | .arrayPattern elements rest =>
    (elements.flatMap fun e => e.toList.flatMap Defaulted.places) ++ Role.target.each rest.toList
  | .objectPattern properties rest =>
    Role.property.each properties ++ Role.target.each rest.toList
  | .patternProperty key target fallback _ =>
    key.places ++ [(.target, target)] ++ Role.expression.each fallback.toList
  | .signature parameters => Role.parameter.each parameters
  | .parameter _ pattern fallback => (.target, pattern) :: Role.expression.each fallback.toList
  | .functionDeclaration _ _ name parameters body | .functionExpression _ _ name parameters body =>
    Role.definition.each name.toList ++ [(.signature, parameters), (.body, body)]
  | .arrowFunction _ parameters body => [(.signature, parameters), (.arrowBody, body)]
  | .classDeclaration name parent members | .classExpression name parent members =>
    Role.definition.each name.toList ++ Role.expression.each parent.toList ++
      members.flatMap ClassMember.places
  | .variableDeclaration _ declarators => declarators.flatMap Declarator.places
  | .binary _ left right => [(.expression, left), (.expression, right)]
  | .assignment _ target value => [(.target, target), (.expression, value)]
  | .unary _ operand | .postfixed _ operand => [(.expression, operand)]
  | .conditional test consequent alternate =>
    [(.expression, test), (.expression, consequent), (.expression, alternate)]
  | .sequence elements => Role.expression.each elements
  | .call _ _ callee arguments | .construct callee arguments =>
    (.expression, callee) :: Role.argument.each arguments
  | .index _ _ object subscript => [(.expression, object), (.expression, subscript)]
  | .member _ _ object _ => [(.expression, object)]
  | .argument _ value | .importCall value => [(.expression, value)]
  | .yieldExpression _ operand => Role.expression.each operand.toList
  | .arrayLiteral elements => elements.flatMap ArrayElement.places
  | .objectLiteral members => Role.member.each members
  | .objectMember content => content.places
  | .templateLiteral parts => parts.flatMap TemplatePart.places
  | .taggedTemplate tag parts => (.expression, tag) :: parts.flatMap TemplatePart.places
  | .block body | .program body => Role.statement.each body
  | .doWhileLoop body condition => [(.statement, body), (.expression, condition)]
  | .exportDeclaration declaration _ => [(.exportable, declaration)]
  | .exportDefault expression | .expressionStatement expression | .throwStatement expression =>
    [(.expression, expression)]
  | .exportList names _ => names.places
  | .forLoop head body => head.places ++ [(.statement, body)]
  | .ifStatement test consequent alternate =>
    [(.expression, test), (.statement, consequent)] ++ Role.statement.each alternate.toList
  | .importDeclaration defaultName names _ =>
    Role.binding.each defaultName.toList ++ names.toList.flatMap ModuleNames.places
  | .labelledStatement _ statement => [(.statement, statement)]
  | .returnStatement value => Role.expression.each value.toList
  | .switchStatement subject cases => (.expression, subject) :: Role.branch.each cases
  | .switchCase test body => Role.expression.each test.toList ++ Role.statement.each body
  | .tryStatement body handler finalizer =>
    [(.body, body)] ++ Role.handler.each handler.toList ++ Role.body.each finalizer.toList
  | .catchClause pattern body => Role.target.each pattern.toList ++ [(.body, body)]
  | .variableStatement declaration => [(.variables, declaration)]
  | .whileLoop condition body | .withStatement condition body =>
    [(.expression, condition), (.statement, body)]
  | .bindingName _ | .definitionName _ | .identifier _ | .importMeta | .newTarget
  | .superExpression | .thisExpression | .bigIntLiteral _ | .booleanLiteral _ | .nullLiteral
  | .numberLiteral _ | .regexLiteral _ | .stringLiteral _ _ | .undefinedLiteral
  | .breakStatement _ | .continueStatement _ | .debuggerStatement | .directive _
  | .emptyStatement => []

/-! ### The roles of the children -/

theorem Key.places_map (f : α → β) (k : Key α) :
    (k.map f).places = k.places.map (Prod.map id f) := by
  simp [places, Key.children_map]

theorem MemberValue.places_map (f : α → β) (v : MemberValue α) :
    (v.map f).places = v.places.map (Prod.map id f) := by
  cases v <;> simp [places, map, toList_optionMap]

theorem ClassMember.places_map (f : α → β) (m : ClassMember α) :
    (m.map f).places = m.places.map (Prod.map id f) := by
  simp [places, map, Key.places_map, MemberValue.places_map]

theorem ForHead.places_map (f : α → β) (h : ForHead α) :
    (h.map f).places = h.places.map (Prod.map id f) := by
  cases h with
  | stepped init condition post =>
    cases init <;> simp [places, map, ForInit.map, ForInit.places, toList_optionMap]
  | each isOf awaits target subject =>
    cases target <;> simp [places, map, ForTarget.map, ForTarget.place]

/-- A map keeps the roles. -/
theorem Shape.places_map (f : α → β) (s : Shape α) :
    (s.map f).places = s.places.map (Prod.map id f) := by
  cases s
  case objectMember content =>
    cases content <;>
      simp [places, map, ObjectMember.map, ObjectMember.places, Key.places_map,
        MemberValue.places_map]
  all_goals
    simp [places, map, toList_optionMap, Defaulted.places, Defaulted.map,
      ArrayElement.places, ArrayElement.children_map, Key.places_map, ClassMember.places_map,
      Declarator.places, Declarator.map, TemplatePart.places, TemplatePart.children_map,
      ModuleNames.places, ModuleNames.children_map, ForHead.places_map, List.map_flatMap,
      List.flatMap_map]

/-! ### Each child has a place -/

@[simp] theorem Role.snd_each (role : Role) (cs : List α) : (role.each cs).map Prod.snd = cs := by
  simp [each, Function.comp_def]

theorem Defaulted.snd_places (d : Defaulted α) : d.places.map Prod.snd = d.children := by
  simp [places, children]

theorem ArrayElement.snd_places (e : ArrayElement α) : e.places.map Prod.snd = e.children := by
  simp [places]

theorem Declarator.snd_places (d : Declarator α) : d.places.map Prod.snd = d.children := by
  simp [places, children]

theorem TemplatePart.snd_places (p : TemplatePart α) : p.places.map Prod.snd = p.children := by
  simp [places]

theorem ModuleNames.snd_places (n : ModuleNames α) : n.places.map Prod.snd = n.children := by
  simp [places]

theorem MemberValue.snd_places (v : MemberValue α) : v.places.map Prod.snd = v.children := by
  cases v <;> simp [places, children]

theorem ClassMember.snd_places (m : ClassMember α) : m.places.map Prod.snd = m.children := by
  simp [places, children, Key.places, MemberValue.snd_places]

theorem ForHead.snd_places (h : ForHead α) : h.places.map Prod.snd = h.children := by
  cases h with
  | stepped init condition post =>
    cases init <;> simp [places, children, ForInit.places, ForInit.children]
  | each isOf awaits target subject =>
    cases target <;> simp [places, children, ForTarget.place, ForTarget.child]

/-- The places are those of the children. -/
theorem Shape.snd_places (s : Shape α) : s.places.map Prod.snd = s.children := by
  cases s
  case objectMember content =>
    cases content <;>
      simp [places, children, ObjectMember.places, ObjectMember.children, Key.places,
        MemberValue.snd_places]
  all_goals
    simp [places, children, Defaulted.snd_places, ArrayElement.snd_places, Key.places,
      ClassMember.snd_places, Declarator.snd_places, TemplatePart.snd_places,
      ModuleNames.snd_places, ForHead.snd_places, List.map_flatMap]

theorem Shape.mem_children_of_mem_places {s : Shape α} {p : Role × α} (h : p ∈ s.places) :
    p.2 ∈ s.children := by
  rw [← s.snd_places]
  exact List.mem_map_of_mem h

theorem Shape.exists_mem_places {s : Shape α} {c : α} (h : c ∈ s.children) :
    ∃ role, (role, c) ∈ s.places := by
  rw [← s.snd_places] at h
  obtain ⟨⟨role, _⟩, hp, rfl⟩ := List.mem_map.1 h
  exact ⟨role, hp⟩

/-- What a role takes depends on the outermost constructor alone. -/
theorem Role.accepts_map (role : Role) (f : α → β) (s : Shape α) :
    role.accepts (s.map f) = role.accepts s := by
  cases role <;> cases s <;> rfl

end Places

/-! ## Trees -/

namespace Node

/-- Every node fits the role of its place. -/
def WellFormed (root : Node) : Prop :=
  ∀ n ∈ root.nodes, ∀ p ∈ n.shape.places, p.1.accepts p.2.shape

instance (root : Node) : Decidable root.WellFormed :=
  inferInstanceAs (Decidable (∀ n ∈ root.nodes, ∀ p ∈ n.shape.places, p.1.accepts p.2.shape))

/-- A well-formed tree that fits a role. -/
structure Fits (role : Role) (n : Node) : Prop where
  accepted : role.accepts n.shape
  wellFormed : n.WellFormed

/-- What stands in each place fits its role. -/
def Filled (places : List (Role × Node)) : Prop := ∀ p ∈ places, p.2.Fits p.1

theorem wellFormed_iff {n : Node} : n.WellFormed ↔ Filled n.shape.places := by
  have hnodes : n.WellFormed ↔ (∀ p ∈ n.shape.places, p.1.accepts p.2.shape) ∧
      ∀ c ∈ n.shape.children, c.WellFormed := by
    simp only [WellFormed]
    rw [nodes_eq, List.forall_mem_cons]
    simp only [List.forall_mem_flatMap]
  rw [hnodes]
  refine ⟨fun h p hp => ⟨h.1 p hp, h.2 p.2 (Shape.mem_children_of_mem_places hp)⟩,
    fun h => ⟨fun p hp => (h p hp).accepted, fun c hc => ?_⟩⟩
  obtain ⟨role, hp⟩ := Shape.exists_mem_places hc
  exact (h _ hp).wellFormed

theorem WellFormed.fits {n : Node} {p : Role × Node} (h : n.WellFormed) (hp : p ∈ n.shape.places) :
    p.2.Fits p.1 :=
  wellFormed_iff.1 h p hp

theorem WellFormed.child {n c : Node} (h : n.WellFormed) (hc : c ∈ n.shape.children) :
    c.WellFormed := by
  obtain ⟨role, hp⟩ := Shape.exists_mem_places hc
  exact (h.fits hp).wellFormed

theorem WellFormed.of_mem_nodes {root n : Node} (h : root.WellFormed) (hn : n ∈ root.nodes) :
    n.WellFormed := by
  induction root using Node.induction with
  | h root ih =>
    rw [nodes_eq] at hn
    obtain rfl | hn := List.mem_cons.1 hn
    · exact h
    · obtain ⟨c, hc, hn⟩ := List.mem_flatMap.1 hn
      exact ih c hc (h.child hc) hn

/-- A node fits a role if its shape does and its places are filled. -/
theorem fits_iff {role : Role} {n : Node} :
    n.Fits role ↔ role.accepts n.shape ∧ Filled n.shape.places :=
  ⟨fun h => ⟨h.accepted, wellFormed_iff.1 h.wellFormed⟩, fun h => ⟨h.1, wellFormed_iff.2 h.2⟩⟩

theorem fits_mk {role : Role} {span : Source.Span} {shape : Shape Node}
    (haccepted : role.accepts shape) (hplaces : Filled shape.places) : Fits role ⟨span, shape⟩ :=
  fits_iff.2 ⟨haccepted, hplaces⟩

/-! ### Places that are filled -/

section Filled

variable {ps qs : List (Role × Node)} {role : Role} {n : Node} {ns : List Node}

@[simp] theorem filled_nil : Filled [] := nofun

@[simp] theorem filled_cons : Filled ((role, n) :: ps) ↔ n.Fits role ∧ Filled ps :=
  List.forall_mem_cons

@[simp] theorem filled_append : Filled (ps ++ qs) ↔ Filled ps ∧ Filled qs :=
  List.forall_mem_append

@[simp] theorem filled_each : Filled (role.each ns) ↔ ∀ n ∈ ns, n.Fits role := by
  simp [Filled, Role.each]

@[simp] theorem filled_flatMap {α : Type} {f : α → List (Role × Node)} {xs : List α} :
    Filled (xs.flatMap f) ↔ ∀ x ∈ xs, Filled (f x) :=
  List.forall_mem_flatMap

end Filled

end Node

end ScriptMin
