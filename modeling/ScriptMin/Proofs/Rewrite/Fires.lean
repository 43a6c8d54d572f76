import Mathlib.Logic.Relation
import ScriptMin.Proofs.Rewrite.WellFormed

/-!
# Rules at any node

`Fires` is one application of one rule somewhere in a tree, in an order that nobody has fixed. A pass
applies rules in one such order. What is shown of all firings holds whatever the walk over the tree
is, and whatever the rules are told about the program around the node.
-/

namespace ScriptMin.Rewrite

open Node

/-- A node beside itself. -/
def unchanged (n : Node) : Node × Node := (n, n)

/-- One of the rules applied at the root of a tree or at a node below it. In `child`, each child of
`s` stands beside what it is afterwards. -/
inductive Fires (rules : List Rule) : Node → Node → Prop
  | here {rule : Rule} (context : Context) {n n' : Node} (hrule : rule ∈ rules)
      (h : rule context n = some n') : Fires rules n n'
  | child (span : Source.Span) (s : Shape (Node × Node)) {before after : List Node} {c c' : Node}
      (hs : s.children = before.map unchanged ++ (c, c') :: after.map unchanged)
      (h : Fires rules c c') : Fires rules ⟨span, s.map Prod.fst⟩ ⟨span, s.map Prod.snd⟩

/-- No rule applies to a node. -/
def Settled (rules : List Rule) (context : Context) (n : Node) : Prop :=
  ∀ rule ∈ rules, rule context n = none

variable {rules : List Rule} {n n' : Node}

/-- Options enable some of all rules. -/
theorem rules_subset_all (o : RewriteOptions) : o.rules ⊆ RewriteOptions.all.rules := by
  intro rule hrule
  obtain ⟨-, rfl⟩ | ⟨-, rfl⟩ | ⟨-, rfl⟩ | ⟨-, rfl⟩ | ⟨-, rfl⟩ | ⟨-, rfl⟩ | ⟨-, rfl⟩ | ⟨-, rfl⟩ |
    ⟨-, rfl⟩ | ⟨-, rfl⟩ | ⟨-, rfl⟩ | ⟨-, rfl⟩ | ⟨-, rfl⟩ | ⟨-, rfl⟩ | ⟨-, rfl⟩ | ⟨-, rfl⟩ :=
    mem_rules hrule
  all_goals simp [RewriteOptions.rules, RewriteOptions.all, RewriteOptions.uniform]

/-- What holds of a child that changes and of those that stay holds of all children. -/
theorem forall_mem_children_of_child {s : Shape (Node × Node)} {before after : List Node}
    {c c' : Node} {P : Node × Node → Prop}
    (hs : s.children = before.map unchanged ++ (c, c') :: after.map unchanged)
    (hsame : ∀ n, P (n, n)) (hchild : P (c, c')) : ∀ p ∈ s.children, P p := by
  rw [hs, List.forall_mem_append, List.forall_mem_cons, List.forall_mem_map, List.forall_mem_map]
  exact ⟨fun n _ => hsame n, hchild, fun n _ => hsame n⟩

theorem Fires.keepsForm (hrules : rules ⊆ RewriteOptions.all.rules) (h : Fires rules n n')
    (hn : n.WellFormed) : KeepsForm n n' := by
  induction h with
  | here context hrule h => exact keepsForm_of_mem_rules (hrules hrule) hn h
  | child span s hs h ih =>
    refine .children span span hn ?_
    exact forall_mem_children_of_child (P := fun p => p.1.WellFormed → KeepsForm p.1 p.2) hs
      (fun n => KeepsForm.refl) ih

end ScriptMin.Rewrite
