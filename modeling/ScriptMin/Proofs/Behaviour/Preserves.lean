import Mathlib.Algebra.BigOperators.Group.Multiset.Basic
import Mathlib.Algebra.Order.BigOperators.Group.Multiset
import Mathlib.Data.Multiset.AddSub
import ScriptMin.Proofs.Behaviour.Silent
import ScriptMin.Proofs.Rewrite.Kept
import ScriptMin.Proofs.Tree.Bodies

/-!
# What rewriting keeps

A rewritten node has the outline and the meaning that it had, and each function body in it is one
that was there before, with the same meaning. Some may be gone, in a condition that was dropped.
`Preserves` passes from the children of a node to the node.
-/

namespace ScriptMin.Behaviour

open Rewrite

/-! ## The relation -/

section Relation

variable (w : World)

/-- A function body by where it is and by what it does. -/
def bodySense (n : Node) : Node × Run Unit := (n.outline, (meaning w n).run [])

/-- What the function bodies in a tree do. -/
def bodySenses (n : Node) : Multiset (Node × Run Unit) := n.functionBodies.map (bodySense w)

/-- What is there after is what was there before, but some of it may be dropped. -/
structure Within {α : Type} (drops : Bool) (after before : Multiset α) : Prop where
  le : after ≤ before
  eq : drops = false → after = before

namespace Within

variable {α : Type} {drops : Bool} {a b c d : Multiset α}

theorem of_eq (h : a = b) : Within drops a b := ⟨h.le, fun _ => h⟩

theorem of_le (h : a ≤ b) : Within true a b := ⟨h, nofun⟩

theorem refl (a : Multiset α) : Within drops a a := of_eq rfl

theorem trans (h : Within drops a b) (h' : Within drops b c) : Within drops a c :=
  ⟨h.le.trans h'.le, fun hd => (h.eq hd).trans (h'.eq hd)⟩

theorem add (h : Within drops a b) (h' : Within drops c d) : Within drops (a + c) (b + d) :=
  ⟨add_le_add h.le h'.le, fun hd => by rw [h.eq hd, h'.eq hd]⟩

theorem sum {β : Type} {f g : β → Multiset α} {xs : List β} (h : ∀ x ∈ xs, Within drops (f x) (g x)) :
    Within drops (xs.map f).sum (xs.map g).sum := by
  induction xs with
  | nil => exact refl 0
  | cons x rest ih =>
    rw [List.forall_mem_cons] at h
    simp only [List.map_cons, List.sum_cons]
    exact h.1.add (ih h.2)

end Within

variable (drops : Bool)

/-- What rewriting keeps of a node. -/
structure Preserves (n n' : Node) : Prop where
  outline : n'.outline = n.outline
  meaning : meaning w n' = meaning w n
  bodies : Within drops (bodySenses w n') (bodySenses w n)

variable {w drops}

theorem bodySenses_eq (n : Node) :
    bodySenses w n =
      (n.shape.bodies.map (bodySense w) : List _) + (n.shape.children.map (bodySenses w)).sum := by
  have hchildren (ns : List Node) :
      ((ns.flatMap Node.functionBodies).map (bodySense w) : Multiset _) =
        (ns.map (bodySenses w)).sum := by
    induction ns with
    | nil => rfl
    | cons n rest ih =>
      rw [List.flatMap_cons, List.map_append, ← Multiset.coe_add, ih, List.map_cons, List.sum_cons]
      rfl
  rw [bodySenses, Node.functionBodies_eq, List.map_append, ← Multiset.coe_add, hchildren]

theorem bodySenses_mk (span : Source.Span) (shape : Shape Node) :
    bodySenses w ⟨span, shape⟩ =
      (shape.bodies.map (bodySense w) : List _) + (shape.children.map (bodySenses w)).sum :=
  bodySenses_eq _

theorem Preserves.bodySense {n n' : Node} (h : Preserves w drops n n') :
    bodySense w n' = bodySense w n := by
  rw [Behaviour.bodySense, Behaviour.bodySense, h.outline, h.meaning]

theorem preserves_congr (n : Node) (g : Node → Node)
    (h : ∀ c ∈ n.shape.children, Preserves w drops c (g c)) :
    Preserves w drops n (n.withShape (n.shape.map g)) where
  outline := outline_congr fun c hc => (h c hc).outline
  meaning := by
    rw [meaning_eq, meaning_eq n, outline_congr fun c hc => (h c hc).outline, Node.withShape,
      Shape.map_map]
    congr 1
    exact Shape.map_congr fun c hc => by simp [(h c hc).outline, (h c hc).meaning]
  bodies := by
    rw [bodySenses_eq, bodySenses_eq n]
    simp only [Node.withShape, Shape.bodies_map, Shape.children_map, List.map_map]
    -- The bodies at this node are children of it, and each keeps its place and its meaning.
    refine (Within.of_eq ?_).add (.sum fun c hc => (h c hc).bodies)
    congr 1
    refine List.map_congr_left fun b hb => ?_
    exact (h b (Shape.mem_children_of_mem_bodies hb)).bodySense

variable (w drops) in
theorem kept_preserves : Kept (Preserves w drops) where
  refl _ := ⟨rfl, rfl, .refl _⟩
  trans h h' :=
    ⟨h'.outline.trans h.outline, h'.meaning.trans h.meaning, h'.bodies.trans h.bodies⟩
  congr := preserves_congr

end Relation

end ScriptMin.Behaviour
