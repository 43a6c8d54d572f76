import Mathlib.Algebra.GroupWithZero.Nat
import Mathlib.Algebra.Order.BigOperators.Group.List
import Mathlib.Algebra.Order.Group.Nat
import ScriptMin.Tree.Node

/-!
# Induction over trees

A property of trees that passes from the children of a node to the node holds of every tree. The
size of a tree, a walk that counts the nodes, goes down from a node to its children.
-/

namespace ScriptMin.Node

/-- The number of nodes of a tree. -/
def size (n : Node) : Nat :=
  n.fold fun _ children => (children.children.map (·.2)).sum + 1

theorem size_eq (n : Node) : n.size = (n.shape.children.map size).sum + 1 := by
  unfold size
  rw [fold_eq, Shape.children_map, List.map_map]
  rfl

theorem size_lt_of_mem_children {n c : Node} (h : c ∈ n.shape.children) : c.size < n.size := by
  have hle := List.le_sum_of_mem (List.mem_map_of_mem (f := size) h)
  rw [size_eq n]
  omega

/-- To show a property of all trees, it may be assumed of the children of a node. -/
theorem induction {p : Node → Prop} (h : ∀ n, (∀ c ∈ n.shape.children, p c) → p n) (n : Node) :
    p n := by
  induction hn : n.size using Nat.strongRecOn generalizing n with
  | ind size ih => exact h n fun c hc => ih c.size (hn ▸ size_lt_of_mem_children hc) c rfl

end ScriptMin.Node
