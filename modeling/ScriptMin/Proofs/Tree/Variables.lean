import ScriptMin.Proofs.Tree.Bodies
import ScriptMin.Proofs.Tree.Induction
import ScriptMin.Proofs.Tree.Map
import ScriptMin.Tree.Binding

/-!
# Variables of functions

The names that the statements of a function declare with `var`, and the names that stand in a `var`
anywhere below them. The first are the variables that the function has. The second are more where an
object literal has methods, since these are looked into.
-/

namespace ScriptMin

open Source

/-! ## Statements in statements, patterns in patterns -/

/-- The declaration in the head of a `for` loop. -/
def ForHead.declarations {α : Type} : ForHead α → List α
  | .stepped (.declaration value) _ _ | .each _ _ (.declaration value) _ => [value]
  | _ => []

/-- The children of a statement that are statements or declarations. -/
def Shape.statements {α : Type} : Shape α → List α
  | .block body | .program body | .switchCase _ body | .switchStatement _ body => body
  | .ifStatement _ consequent alternate => consequent :: alternate.toList
  | .whileLoop _ body | .doWhileLoop body _ | .withStatement _ body | .labelledStatement _ body
  | .catchClause _ body | .variableStatement body | .exportDeclaration body _ => [body]
  | .forLoop head body => head.declarations ++ [body]
  | .tryStatement body handler finalizer => body :: (handler.toList ++ finalizer.toList)
  | _ => []

/-- The children of a pattern that are patterns. -/
def Shape.patterns {α : Type} : Shape α → List α
  | .arrayPattern elements rest =>
    (elements.flatMap fun e => e.toList.map Defaulted.target) ++ rest.toList
  | .objectPattern properties rest => properties ++ rest.toList
  | .patternProperty _ target _ _ => [target]
  | _ => []

section Map

variable {α β : Type} (f : α → β)

theorem Shape.statements_map (s : Shape α) : (s.map f).statements = s.statements.map f := by
  cases s
  case forLoop head body =>
    rcases head with ⟨_ | _ | _, _, _⟩ | ⟨_, _, _ | _, _⟩ <;> rfl
  case ifStatement => simp [map, statements, toList_optionMap]
  case tryStatement => simp [map, statements, toList_optionMap]
  all_goals rfl

theorem Shape.patterns_map (s : Shape α) : (s.map f).patterns = s.patterns.map f := by
  cases s
  case arrayPattern =>
    simp [map, patterns, toList_optionMap, List.map_flatMap, List.flatMap_map, Defaulted.map,
      Function.comp_def]
  case objectPattern => simp [map, patterns, toList_optionMap]
  all_goals rfl

theorem Shape.mem_children_of_mem_statements {s : Shape α} {c : α} (h : c ∈ s.statements) :
    c ∈ s.children := by
  cases s
  case forLoop head body =>
    rcases head with ⟨_ | _ | _, _, _⟩ | ⟨_, _, _ | _, _⟩ <;>
      simp_all [statements, children, ForHead.declarations, ForHead.children, ForInit.children,
        ForTarget.child]
    all_goals tauto
  all_goals simp_all [statements, children]

theorem Shape.mem_children_of_mem_patterns {s : Shape α} {c : α} (h : c ∈ s.patterns) :
    c ∈ s.children := by
  cases s
  case arrayPattern elements rest =>
    simp only [patterns, List.mem_append, List.mem_flatMap, List.mem_map] at h
    simp only [children, List.mem_append, List.mem_flatMap]
    obtain ⟨e, he, d, hd, rfl⟩ | h := h
    · exact .inl ⟨e, he, d, hd, List.mem_cons_self⟩
    · exact .inr h
  all_goals simp_all [patterns, children]

end Map

/-- Whether a node is a function or a class, whose variables are its own. -/
def Shape.isFunction {α : Type} : Shape α → Bool
  | .functionDeclaration .. | .functionExpression .. | .arrowFunction .. | .classDeclaration ..
  | .classExpression .. => true
  | _ => false

namespace Node

/-! ## Names -/

/-- The names that `own` finds in some code, outside functions and classes in it. Where it finds any
at a node, it does not go below. -/
def collect (own : Shape Node → Option (List String)) (code : Node) : List String :=
  code.fold fun n s =>
    if n.shape.isFunction then [] else (own n.shape).getD (s.children.flatMap (·.2))

/-- The names of all bindings. -/
def namesBelow : Node → List String :=
  collect fun
    | .bindingName name => some [name]
    | _ => none

/-- The names in the patterns of each `var`. -/
def varNamesBelow : Node → List String :=
  collect fun
    | .variableDeclaration .hoisted declarators =>
      some (declarators.flatMap fun d => d.pattern.namesBelow)
    | _ => none

/-- The names that the statements in some code declare with `var`. -/
def varNames (code : Node) : List String :=
  code.fold fun _ s =>
    match s with
    | .variableDeclaration .hoisted declarators =>
      declarators.flatMap fun d => d.pattern.1.boundNames.map (·.1)
    | s => s.statements.flatMap (·.2)

theorem collect_eq (own : Shape Node → Option (List String)) (n : Node) :
    n.collect own =
      if n.shape.isFunction then []
      else (own n.shape).getD (n.shape.children.flatMap (collect own)) := by
  rw [collect, fold_eq, Shape.children_map, List.flatMap_map]
  rfl

/-- The names that a `var` declares. -/
def hoistedAt : Shape Node → Option (List String)
  | .variableDeclaration .hoisted declarators =>
    some (declarators.flatMap fun d => d.pattern.boundNames.map (·.1))
  | _ => none

theorem hoistedNames_eq (n : Node) : n.hoistedNames = n.collect hoistedAt := by
  induction n using Node.induction with
  | h n ih =>
    obtain ⟨span, shape⟩ := n
    -- The walk sees each child beside its names.
    have hchildren : ((shape.map fun c => (c, c.hoistedNames)).children.flatMap (·.2)) =
        shape.children.flatMap (collect hoistedAt) := by
      rw [Shape.children_map, List.flatMap_map]
      exact List.flatMap_congr ih
    rw [hoistedNames, fold_eq, collect_eq]
    cases shape
    case variableDeclaration kind declarators =>
      cases kind
      case hoisted =>
        simp [Shape.map, Shape.isFunction, hoistedAt, List.flatMap_map, Declarator.map]
      all_goals exact hchildren
    all_goals first | exact hchildren | rfl

/-- A pattern with parts binds the names of the parts, and what is no pattern binds none. -/
theorem boundNames_eq {n : Node} (h : ∀ name, n.shape ≠ .bindingName name) :
    n.boundNames = n.shape.patterns.flatMap boundNames := by
  obtain ⟨span, shape⟩ := n
  rw [boundNames, fold_eq]
  cases shape
  case bindingName name => exact absurd rfl (h name)
  case arrayPattern elements rest =>
    simp [Shape.map, Shape.patterns, Defaulted.map, toList_optionMap, List.flatMap_map,
      List.flatMap_assoc]
    rfl
  case objectPattern properties rest =>
    simp [Shape.map, Shape.patterns, toList_optionMap, List.flatMap_map]
    rfl
  case patternProperty => simp [Shape.map, Shape.patterns]; rfl
  all_goals rfl

theorem varNames_variables (span : Span) (declarators : List (Declarator Node)) :
    varNames ⟨span, .variableDeclaration .hoisted declarators⟩ =
      declarators.flatMap fun d => d.pattern.boundNames.map (·.1) := by
  rw [varNames, fold_eq]
  simp [Shape.map, List.flatMap_map, Declarator.map]

/-- Any other statement declares what the statements in it declare. -/
theorem varNames_eq {n : Node} (h : ∀ ds, n.shape ≠ .variableDeclaration .hoisted ds) :
    n.varNames = n.shape.statements.flatMap varNames := by
  obtain ⟨span, shape⟩ := n
  have hstatements : ((shape.map fun c => (c, c.varNames)).statements.flatMap (·.2)) =
      shape.statements.flatMap varNames := by
    rw [Shape.statements_map, List.flatMap_map]
  rw [varNames, fold_eq]
  cases shape
  case variableDeclaration kind declarators =>
    cases kind
    case hoisted => exact absurd rfl (h declarators)
    all_goals rfl
  all_goals exact hstatements

/-! ## One kind of names among another -/

theorem flatMap_subset {α β : Type} {f g : α → List β} {xs ys : List α} (hxs : xs ⊆ ys)
    (h : ∀ x ∈ xs, f x ⊆ g x) : xs.flatMap f ⊆ ys.flatMap g := by
  intro y hy
  obtain ⟨x, hx, hy⟩ := List.mem_flatMap.1 hy
  exact List.mem_flatMap.2 ⟨x, hxs hx, h x hx hy⟩

theorem boundNames_subset_namesBelow (n : Node) : n.boundNames.map (·.1) ⊆ n.namesBelow := by
  induction n using Node.induction with
  | h n ih =>
    have hchildren : (n.shape.patterns.flatMap boundNames).map (·.1) ⊆
        n.shape.children.flatMap namesBelow := by
      rw [List.map_flatMap]
      exact flatMap_subset (fun _ => Shape.mem_children_of_mem_patterns) fun c hc =>
        ih c (Shape.mem_children_of_mem_patterns hc)
    obtain ⟨span, shape⟩ := n
    rw [namesBelow, collect_eq]
    cases shape
    case bindingName name => exact List.Subset.refl _
    all_goals
      rw [boundNames_eq (by simp)]
      first | exact hchildren | exact List.nil_subset _

/-- Names are found where others are, if they are at each node. -/
theorem collect_subset {own own' : Shape Node → Option (List String)}
    (h : ∀ s, own s = none ∧ own' s = none ∨
      ∃ names names', own s = some names ∧ own' s = some names' ∧ names ⊆ names') (n : Node) :
    n.collect own ⊆ n.collect own' := by
  induction n using Node.induction with
  | h n ih =>
    rw [collect_eq, collect_eq own']
    split
    · exact List.Subset.refl _
    · obtain ⟨hown, hown'⟩ | ⟨names, names', hown, hown', hnames⟩ := h n.shape
      · rw [hown, hown']
        exact flatMap_subset (List.Subset.refl _) ih
      · rw [hown, hown']
        exact hnames

theorem hoistedNames_subset_varNamesBelow (n : Node) : n.hoistedNames ⊆ n.varNamesBelow := by
  rw [hoistedNames_eq]
  refine collect_subset (fun s => ?_) n
  cases s
  case variableDeclaration kind declarators =>
    cases kind
    case hoisted =>
      exact .inr ⟨_, _, rfl, rfl, flatMap_subset (List.Subset.refl _) fun d _ =>
        boundNames_subset_namesBelow d.pattern⟩
    all_goals exact .inl ⟨rfl, rfl⟩
  all_goals exact .inl ⟨rfl, rfl⟩

theorem varNamesBelow_subset_namesBelow (n : Node) : n.varNamesBelow ⊆ n.namesBelow := by
  induction n using Node.induction with
  | h n ih =>
    have hchildren : n.shape.children.flatMap varNamesBelow ⊆ n.shape.children.flatMap namesBelow :=
      flatMap_subset (List.Subset.refl _) ih
    obtain ⟨span, shape⟩ := n
    rw [varNamesBelow, namesBelow, collect_eq, collect_eq]
    cases shape
    case variableDeclaration kind declarators =>
      cases kind
      case hoisted =>
        show declarators.flatMap (fun d => d.pattern.namesBelow) ⊆
          (declarators.flatMap Declarator.children).flatMap namesBelow
        rw [List.flatMap_assoc]
        exact flatMap_subset (List.Subset.refl _) fun d _ => List.subset_append_left _ _
      all_goals exact hchildren
    all_goals first | exact hchildren | exact List.nil_subset _

theorem varNames_subset_hoistedNames (n : Node) : n.varNames ⊆ n.hoistedNames := by
  induction n using Node.induction with
  | h n ih =>
    have hchildren : n.shape.statements.flatMap varNames ⊆ n.shape.children.flatMap hoistedNames :=
      flatMap_subset (fun _ => Shape.mem_children_of_mem_statements) fun c hc =>
        ih c (Shape.mem_children_of_mem_statements hc)
    obtain ⟨span, shape⟩ := n
    rw [hoistedNames_eq, collect_eq, funext fun c : Node => (hoistedNames_eq c).symm]
    cases shape
    case variableDeclaration kind declarators =>
      cases kind
      case hoisted =>
        rw [varNames_variables]
        exact List.Subset.refl _
      all_goals exact List.nil_subset _
    all_goals
      rw [varNames_eq (by simp)]
      first | exact hchildren | exact List.nil_subset _

end Node

end ScriptMin
