import ScriptMin.Rename.Walk

/-!
# Strict code and its checks

A frame says whether the code that is read in it is strict, and names are checked by what it says.
`Node.ReadAs strict n` is what a reader leaves of that in the tree: `n` is read in a frame of this
strictness, each node below it in a frame of the strictness that the nodes above hand on, and the
names that a node binds have passed their checks. Only classes and the directives of functions
change the strictness. What a directive says of the names before it is checked behind the body.
-/

namespace ScriptMin

/-- The patterns of the parameters in a list. -/
def Node.parameterPatterns (n : Node) : List Node :=
  match n.shape with
  | .signature parameters =>
    parameters.flatMap fun p =>
      match p.shape with
      | .parameter _ pattern _ => [pattern]
      | _ => []
  | _ => []

namespace Grammar

open Rename (isStrictBody)

/-! ## Checks of names -/

/-- What a name is known to be that passed the check of names in strict code or in other code. -/
def Binding.Passes (kind : Binding) (strict : Bool) (name : String) : Prop :=
  strict → name ≠ "yield" ∧ (kind = .declaration → isEvalOrArguments name = false)

/-- What the name of a parameter is known to be that passed the check behind a body. -/
def PassesLate (outer strict : Bool) (name : String) : Prop :=
  strict → (outer = false → name ≠ "yield") ∧ isEvalOrArguments name = false

/-- The names of a pattern have passed the check for what they are bound as. -/
def NamesPass (kind : Binding) (strict : Bool) (pattern : Node) : Prop :=
  ∀ name ∈ pattern.boundNames, kind.Passes strict name.1

/-- The names of a pattern have passed the check behind the body. -/
def NamesPassLate (outer : Bool) (body pattern : Node) : Prop :=
  ∀ name ∈ pattern.boundNames, PassesLate outer (outer || isStrictBody body) name.1

/-- The names of parameters have passed both checks. -/
structure ParametersPass (outer : Bool) (body : Node) (patterns : List Node) : Prop where
  early : ∀ n ∈ patterns, NamesPass .parameter outer n
  late : ∀ n ∈ patterns, NamesPassLate outer body n

/-- What is known of a name that defines something. -/
def Defines (n : Node) (passes : String → Prop) : Prop :=
  ∀ name, n.shape = .definitionName name → passes name

/-- The names in a function have passed their checks. The check of the function's own name is handed
over, and is made again for `yield` if the body makes the function strict. -/
structure FunctionPasses (outer : Bool) (passes : String → Prop) (name : Option Node)
    (parameters body : Node) : Prop where
  early : ∀ n ∈ name, Defines n passes
  late : ∀ n ∈ name, Defines n fun name => outer = false → isStrictBody body → name ≠ "yield"
  parameters : ParametersPass outer body parameters.parameterPatterns

end Grammar

open Grammar

open Rename (isStrictBody)

/-! ## What a node is checked for -/

def MemberValue.Checked (strict : Bool) : MemberValue Node → Prop
  | .method _ _ parameters body => ParametersPass strict body parameters.parameterPatterns
  | .setter parameter body => ParametersPass strict body [parameter]
  | _ => True

/-- The names that a node binds have passed their checks. A function binds its name and those of its
parameters. The name of a function expression is checked for `yield` alone. -/
def Shape.Checked (strict : Bool) : Shape Node → Prop
  | .variableDeclaration _ declarators => ∀ d ∈ declarators, NamesPass .declaration strict d.pattern
  | .catchClause pattern _ => ∀ n ∈ pattern, NamesPass .declaration strict n
  | .importDeclaration defaultName names _ =>
    ∀ n ∈ defaultName.toList ++ names.toList.flatMap ModuleNames.children,
      NamesPass .declaration strict n
  | .functionDeclaration _ _ name parameters body =>
    FunctionPasses strict (Binding.declaration.Passes strict) name parameters body
  | .functionExpression _ _ name parameters body =>
    FunctionPasses strict (fun name => strict → name ≠ "yield") name parameters body
  | .arrowFunction _ parameters body =>
    ParametersPass strict body parameters.parameterPatterns
  | .classDeclaration name _ members | .classExpression name _ members =>
    (∀ n ∈ name, Defines n (Binding.declaration.Passes true)) ∧ ∀ m ∈ members, m.value.Checked true
  | .objectMember (.valued _ value) => value.Checked strict
  | _ => True

/-! ## The strictness of the parts -/

namespace Grammar

/-- Parts that are read alike. -/
def each (strict : Bool) (ns : List Node) : List (Bool × Node) := ns.map (strict, ·)

/-- A body is strict code too if it has a directive. -/
def bodyPart (strict : Bool) (body : Node) : Bool × Node := (strict || isStrictBody body, body)

end Grammar

/-- The parts of a member, with the strictness they are read with. -/
def MemberValue.readParts (strict : Bool) : MemberValue Node → List (Bool × Node)
  | .getter body => [bodyPart strict body]
  | .method _ _ parameters body => [(strict, parameters), bodyPart strict body]
  | .property initializer => each strict initializer.toList
  | .setter parameter body => [(strict, parameter), bodyPart strict body]

/-- The parts of a node, with the strictness they are read with. -/
def Shape.readParts (strict : Bool) : Shape Node → List (Bool × Node)
  | .functionDeclaration _ _ name parameters body | .functionExpression _ _ name parameters body =>
    each strict name.toList ++ [(strict, parameters), bodyPart strict body]
  | .arrowFunction _ parameters body => [(strict, parameters), bodyPart strict body]
  | .classDeclaration name parent members | .classExpression name parent members =>
    each true name.toList ++ each true parent.toList ++
      members.flatMap fun m => each true m.key.children ++ m.value.readParts true
  | .objectMember (.valued key value) => each strict key.children ++ value.readParts strict
  | shape => each strict shape.children

/-- Nodes that bind no names and hand their strictness on. -/
def Shape.isUniform {α : Type} : Shape α → Bool
  | .functionDeclaration .. | .functionExpression .. | .arrowFunction .. | .classDeclaration ..
  | .classExpression .. | .objectMember (.valued ..) | .variableDeclaration .. | .catchClause ..
  | .importDeclaration .. => false
  | _ => true

theorem Shape.checked_uniform {shape : Shape Node} (h : shape.isUniform) (strict : Bool) :
    shape.Checked strict := by
  cases shape
  case objectMember content =>
    cases content <;> first | trivial | cases h
  all_goals first | trivial | cases h

theorem Shape.readParts_uniform {shape : Shape Node} (h : shape.isUniform) (strict : Bool) :
    shape.readParts strict = each strict shape.children := by
  cases shape
  case objectMember content =>
    cases content <;> first | rfl | cases h
  all_goals first | rfl | cases h

/-! ## Trees -/

def Shape.isFunctionDeclaration {α : Type} : Shape α → Bool
  | .functionDeclaration .. => true
  | _ => false

/-- The reader of function declarations gives this node in a frame of this strictness. -/
def Grammar.WasDeclared (strict : Bool) (n : Node) : Prop :=
  ∃ bound depth f needsName r r',
    f.strict = strict ∧ functionDeclaration (rules bound depth) f needsName r = .ok (n, r')

namespace Node

/-- A tree as it is read in a frame of this strictness. -/
inductive ReadAs : Bool → Node → Prop where
  | mk {strict : Bool} {span : Source.Span} {shape : Shape Node} (checked : shape.Checked strict)
      (parts : ∀ p ∈ shape.readParts strict, ReadAs p.1 p.2)
      (declared : shape.isFunctionDeclaration → WasDeclared strict ⟨span, shape⟩) :
      ReadAs strict ⟨span, shape⟩

theorem readAs_each {strict : Bool} {ns : List Node} :
    (∀ p ∈ each strict ns, p.2.ReadAs p.1) ↔ ∀ n ∈ ns, n.ReadAs strict :=
  List.forall_mem_map

namespace ReadAs

variable {strict : Bool} {n c : Node} {span : Source.Span} {shape : Shape Node}

theorem checked (h : n.ReadAs strict) : n.shape.Checked strict := by
  cases h
  assumption

theorem parts (h : n.ReadAs strict) : ∀ p ∈ n.shape.readParts strict, p.2.ReadAs p.1 := by
  cases h
  assumption

theorem declared (h : n.ReadAs strict) :
    n.shape.isFunctionDeclaration → WasDeclared strict n := by
  cases h
  assumption

/-- A node that hands its strictness on is read as its parts are. -/
theorem uniform (h : shape.isUniform) (hparts : ∀ c ∈ shape.children, c.ReadAs strict) :
    ReadAs strict ⟨span, shape⟩ := by
  refine mk (Shape.checked_uniform h strict) ?_ fun hdeclaration => ?_
  · rw [Shape.readParts_uniform h]
    exact readAs_each.2 hparts
  · cases shape <;> first | cases hdeclaration; done | cases h

theorem child (h : n.ReadAs strict) (huniform : n.shape.isUniform) (hc : c ∈ n.shape.children) :
    c.ReadAs strict := by
  have hparts := h.parts
  rw [Shape.readParts_uniform huniform] at hparts
  exact readAs_each.1 hparts c hc

end ReadAs

end Node

end ScriptMin
