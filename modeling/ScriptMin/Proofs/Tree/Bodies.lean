import ScriptMin.Tree.Node

/-!
# Function bodies

The bodies of the functions, methods and accessors in a tree. A body is a child of its function, or
of the class or the member that holds it.
-/

namespace ScriptMin

/-- The body of a method or an accessor. -/
def MemberValue.body? {α : Type} : MemberValue α → Option α
  | .getter body | .method _ _ _ body | .setter _ body => some body
  | .property _ => none

/-- The children that are bodies of functions. -/
def Shape.bodies {α : Type} : Shape α → List α
  | .functionDeclaration _ _ _ _ body | .functionExpression _ _ _ _ body
  | .arrowFunction _ _ body => [body]
  | .classDeclaration _ _ members | .classExpression _ _ members =>
    members.filterMap (·.value.body?)
  | .objectMember (.valued _ value) => value.body?.toList
  | _ => []

/-- The bodies of all functions in a tree, also of those in others. -/
def Node.functionBodies (n : Node) : List Node := n.nodes.flatMap (·.shape.bodies)

section Bodies

variable {α β : Type} (f : α → β)

theorem MemberValue.body?_map (v : MemberValue α) : (v.map f).body? = v.body?.map f := by
  cases v <;> rfl

theorem Shape.bodies_map (s : Shape α) : (s.map f).bodies = s.bodies.map f := by
  cases s
  case classDeclaration | classExpression =>
    simp only [Shape.map, bodies, List.filterMap_map, List.map_filterMap]
    congr 1
    exact funext fun m => m.value.body?_map f
  case objectMember content =>
    cases content <;> simp [Shape.map, bodies, ObjectMember.map, MemberValue.body?_map,
      toList_optionMap]
  all_goals rfl

theorem MemberValue.body?_mem {v : MemberValue α} {b : α} (h : v.body? = some b) :
    b ∈ v.children := by
  cases v <;> simp_all [body?, children]

/-- The bodies are children. -/
theorem Shape.mem_children_of_mem_bodies {s : Shape α} {b : α} (h : b ∈ s.bodies) :
    b ∈ s.children := by
  cases s
  case classDeclaration | classExpression =>
    simp only [bodies, List.mem_filterMap] at h
    obtain ⟨m, hm, hb⟩ := h
    refine List.mem_append_right _ (List.mem_flatMap.2 ⟨m, hm, ?_⟩)
    exact List.mem_append_right _ (MemberValue.body?_mem hb)
  case objectMember content =>
    cases content with
    | valued key value =>
      exact List.mem_append_right _ (MemberValue.body?_mem (Option.mem_toList.1 h))
    | _ => cases h
  all_goals simp_all [bodies, children]

end Bodies

theorem Node.nodes_eq (n : Node) : n.nodes = n :: n.shape.children.flatMap Node.nodes := by
  rw [Node.nodes, Node.fold_eq, Shape.children_map, List.flatMap_map]
  rfl

theorem Node.functionBodies_eq (n : Node) :
    n.functionBodies = n.shape.bodies ++ n.shape.children.flatMap Node.functionBodies := by
  rw [Node.functionBodies, Node.nodes_eq, List.flatMap_cons, List.flatMap_assoc]
  rfl

end ScriptMin
