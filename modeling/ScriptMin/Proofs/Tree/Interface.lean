import ScriptMin.Proofs.Tree.Variables
import ScriptMin.Proofs.Tree.WellFormed

/-!
# What a module imports and exports

A link is a statement that imports or exports something, with the names that it declares in the
place of its children. Links take effect wherever they stand. The interface of a program are those
at its top; a reader of programs also takes links that stand deeper.
-/

namespace ScriptMin

open Source

/-! ## Declared names -/

/-- The name that a node declares itself. -/
def Shape.declaredName? {α : Type} : Shape α → Option String
  | .bindingName name | .definitionName name => some name
  | _ => none

/-- The children of a pattern or a declaration that declare something around it. -/
def Shape.declaring {α : Type} : Shape α → List α
  | .variableStatement declaration => [declaration]
  | .variableDeclaration _ declarators => declarators.map (·.pattern)
  | .functionDeclaration _ _ name _ _ | .classDeclaration name _ _ => name.toList
  | s => s.patterns

/-- Whether a node is found where something is declared: a pattern, a declaration or, since what
is assigned to has the places of what is declared, an expression. -/
def Shape.mayDeclare {α : Type} (s : Shape α) : Bool :=
  s.isExpression || s matches .bindingName _ | .definitionName _ | .arrayPattern .. |
    .objectPattern .. | .patternProperty .. | .variableStatement _ | .variableDeclaration .. |
    .functionDeclaration .. | .classDeclaration ..

/-- The roles of places where something is declared, and of expressions. -/
def Role.declares : Role → Bool
  | .expression | .variables | .exportable | .binding | .definition | .target | .property => true
  | _ => false

theorem Role.mayDeclare_of_accepts {α : Type} {role : Role} {s : Shape α} (hrole : role.declares)
    (h : role.accepts s) : s.mayDeclare := by
  cases role <;> first | (cases hrole; done) | (cases s <;> first | rfl | cases h)

/-- What declares something stands in places where that is done. -/
theorem Shape.exists_role_of_mem_declaring {α : Type} {s : Shape α} {c : α}
    (h : c ∈ s.declaring) : ∃ role : Role, role.declares ∧ (role, c) ∈ s.places := by
  cases s
  case arrayPattern elements rest =>
    simp only [declaring, patterns, List.mem_append, List.mem_flatMap, List.mem_map] at h
    refine ⟨.target, rfl, ?_⟩
    simp only [places, List.mem_append, List.mem_flatMap]
    obtain ⟨e, he, d, hd, rfl⟩ | h := h
    · exact .inl ⟨e, he, d, hd, List.mem_cons_self⟩
    · exact .inr (List.mem_map_of_mem h)
  case objectPattern properties rest =>
    obtain h | h := List.mem_append.1 h
    · exact ⟨.property, rfl, List.mem_append_left _ (List.mem_map_of_mem h)⟩
    · exact ⟨.target, rfl, List.mem_append_right _ (List.mem_map_of_mem h)⟩
  case patternProperty key target fallback shorthand =>
    rw [List.mem_singleton.1 h]
    exact ⟨.target, rfl, by simp [places]⟩
  case functionDeclaration =>
    exact ⟨.definition, rfl, List.mem_append_left _ (List.mem_map_of_mem h)⟩
  case classDeclaration =>
    refine ⟨.definition, rfl, List.mem_append_left _ ?_⟩
    exact List.mem_append_left _ (List.mem_map_of_mem h)
  case variableDeclaration kind declarators =>
    obtain ⟨d, hd, rfl⟩ := List.mem_map.1 h
    exact ⟨.target, rfl, List.mem_flatMap.2 ⟨d, hd, List.mem_cons_self⟩⟩
  case variableStatement declaration =>
    rw [List.mem_singleton.1 h]
    exact ⟨.variables, rfl, List.mem_cons_self⟩
  all_goals cases h

theorem Shape.declaring_map {α β : Type} (f : α → β) (s : Shape α) :
    (s.map f).declaring = s.declaring.map f := by
  cases s
  case functionDeclaration => exact toList_optionMap f _
  case classDeclaration => exact toList_optionMap f _
  case variableDeclaration => simp [map, declaring, Declarator.map, Function.comp_def]
  case arrayPattern elements rest => exact patterns_map f (.arrayPattern elements rest)
  case objectPattern properties rest => exact patterns_map f (.objectPattern properties rest)
  all_goals rfl

namespace Node

/-- The names that a pattern or a declaration declares for the code around it. -/
def declaredNames (n : Node) : List String :=
  n.fold fun _ s => s.declaredName?.toList ++ s.declaring.flatMap (·.2)

theorem declaredNames_eq (n : Node) :
    n.declaredNames = n.shape.declaredName?.toList ++ n.shape.declaring.flatMap declaredNames := by
  have hname : (n.shape.map fun c => (c, c.declaredNames)).declaredName? =
      n.shape.declaredName? := by
    obtain ⟨span, shape⟩ := n
    cases shape <;> rfl
  rw [declaredNames, fold_eq, ← hname, Shape.declaring_map, List.flatMap_map]
  rfl

/-- An expression declares nothing. -/
theorem declaredNames_eq_nil {n : Node} (h : n.shape.isExpression) : n.declaredNames = [] := by
  rw [declaredNames_eq]
  obtain ⟨span, shape⟩ := n
  cases shape <;> first | rfl | cases h

/-! ## Links -/

end Node

def Shape.isLink {α : Type} (s : Shape α) : Bool :=
  s matches .importDeclaration .. | .exportDeclaration .. | .exportDefault _ | .exportList ..

theorem Role.fst_of_mem_each {α : Type} {role : Role} {cs : List α} {p : Role × α}
    (h : p ∈ role.each cs) : p.1 = role := by
  obtain ⟨c, -, rfl⟩ := List.mem_map.1 h
  rfl

/-- All children of a link stand where something is declared. -/
theorem Shape.declares_of_mem_places {α : Type} {s : Shape α} {p : Role × α} (hs : s.isLink)
    (hp : p ∈ s.places) : p.1.declares := by
  cases s
  case importDeclaration defaultName names source =>
    obtain hp | hp := List.mem_append.1 hp
    · rw [Role.fst_of_mem_each hp]
      rfl
    · obtain ⟨names, -, hp⟩ := List.mem_flatMap.1 hp
      rw [Role.fst_of_mem_each hp]
      rfl
  case exportList names source =>
    rw [Role.fst_of_mem_each hp]
    rfl
  case exportDeclaration | exportDefault =>
    rw [List.mem_singleton.1 hp]
    rfl
  all_goals cases hs

namespace Node

/-- The link that a statement is, if it is one. -/
def link? (n : Node) : Option (Shape (List String)) :=
  if n.shape.isLink then some (n.shape.map declaredNames) else none

/-- The links in some code, outside functions and classes in it. -/
def links (code : Node) : List (Shape (List String)) :=
  code.fold fun n s => n.link?.toList ++ s.statements.flatMap (·.2)

/-- The links in the statements of some code. -/
def linksBelow (code : Node) : List (Shape (List String)) := code.shape.statements.flatMap links

theorem links_eq (n : Node) : n.links = n.link?.toList ++ n.linksBelow := by
  rw [links, fold_eq, Shape.statements_map, List.flatMap_map]
  rfl

/-- What is no link itself has those of its statements. -/
theorem links_eq_linksBelow {n : Node} (h : n.link? = none) : n.links = n.linksBelow := by
  rw [links_eq, h]
  rfl

theorem linksBelow_eq_nil {n : Node} (h : n.links = []) : n.linksBelow = [] := by
  rw [links_eq] at h
  exact (List.append_eq_nil_iff.1 h).2

/-- The links at the top of a program. -/
def interface (root : Node) : List (Shape (List String)) := root.shape.statements.filterMap link?

/-- The links of a program that stand deeper. -/
def deepLinks (root : Node) : List (Shape (List String)) :=
  root.shape.statements.flatMap linksBelow

/-- A program without deep links has those of its interface. -/
theorem links_program {n : Node} (hprogram : (n.shape matches .program _)) (h : n.deepLinks = []) :
    n.links = n.interface := by
  have hlink : n.link? = none := by
    obtain ⟨span, shape⟩ := n
    cases shape <;> first | rfl | cases hprogram
  have hbelow := List.flatMap_eq_nil_iff.1 h
  rw [links_eq_linksBelow hlink, linksBelow, interface, List.filterMap_eq_flatMap_toList]
  refine List.flatMap_congr fun c hc => ?_
  rw [links_eq, hbelow c hc, List.append_nil]

end Node

end ScriptMin
