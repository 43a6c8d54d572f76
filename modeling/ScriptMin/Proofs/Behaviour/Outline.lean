import ScriptMin.Proofs.Tree.Induction
import ScriptMin.Proofs.Tree.Map
import ScriptMin.Rewrite.Basic
import ScriptMin.Rewrite.Effects

/-!
# Outlines

Two expressions do the same if they differ only inside the bodies of the functions in them, as far
as those bodies do the same. The outline of an expression is the expression with these bodies
emptied. Each node keeps its span, so that the outline still tells which expression of the source it
is.
-/

namespace ScriptMin.Behaviour

open Rewrite

/-- Whether a node is a statement or a part of one. Declarations of functions, classes and
variables, which also stand elsewhere, are left out, and so are blocks, which are bodies. -/
def isStatement {α : Type} : Shape α → Bool
  | .breakStatement _ | .continueStatement _ | .debuggerStatement | .directive _ | .doWhileLoop ..
  | .emptyStatement | .exportDeclaration .. | .exportDefault _ | .exportList .. | .forLoop ..
  | .expressionStatement _ | .ifStatement .. | .importDeclaration .. | .labelledStatement ..
  | .returnStatement _ | .switchStatement .. | .switchCase .. | .throwStatement _
  | .tryStatement .. | .catchClause .. | .variableStatement _ | .whileLoop .. | .withStatement ..
  | .program _ => true
  | _ => false

/-- What stands for a statement in an outline. No expression holds one but in a body. -/
def blank : Node := ⟨⟨0, 0⟩, .emptyStatement⟩

/-- The outline of a node whose children are outlines. -/
def outlineOf (n : Node) : Node :=
  match n.shape with
  | .block _ => n.withShape (.block [])
  | shape => if isStatement shape then blank else n

end Behaviour

open Behaviour in
/-- An expression with the bodies of functions in it emptied. -/
def Node.outline (n : Node) : Node :=
  n.fold fun n children => outlineOf (n.withShape (children.map (·.2)))

namespace Behaviour

open Rewrite

theorem outline_eq (n : Node) : n.outline = outlineOf (n.withShape (n.shape.map Node.outline)) := by
  rw [Node.outline, Node.fold_eq, Shape.map_map]
  rfl

/-- The outline does not tell the children of a node from others with the same outlines. -/
theorem outline_congr {n : Node} {g : Node → Node}
    (h : ∀ c ∈ n.shape.children, (g c).outline = c.outline) :
    (n.withShape (n.shape.map g)).outline = n.outline := by
  -- An outline is made from the outlines of the children alone.
  rw [outline_eq, outline_eq n]
  simp only [Node.withShape, Shape.map_map]
  rw [Shape.map_congr (f := Node.outline ∘ g) h]

/-- All statements have one outline. -/
theorem outline_eq_blank {n : Node} (h : isStatement n.shape) : n.outline = blank := by
  obtain ⟨span, shape⟩ := n
  rw [outline_eq]
  cases shape <;> first | rfl | cases h

theorem outline_block {n : Node} {body : List Node} (h : n.shape = .block body) :
    n.outline = n.withShape (.block []) := by
  rw [outline_eq, h]
  rfl

theorem outline_withStatements (n : Node) (body : List Node) :
    (withStatements n body).outline = n.outline := by
  unfold withStatements
  split
  case h_1 h => rw [outline_block h, outline_block rfl]; rfl
  case h_2 h => rw [outline_eq_blank (n := n) (by rw [h]; rfl)]; exact outline_eq_blank rfl
  case h_3 h => rw [outline_eq_blank (n := n) (by rw [h]; rfl)]; exact outline_eq_blank rfl
  case h_4 => rfl

/-! ## Pure expressions -/

@[simp]
theorem isPrimitive_outline (n : Node) : isPrimitive n.outline = isPrimitive n := by
  obtain ⟨span, shape⟩ := n
  rw [outline_eq]
  cases shape <;> rfl

@[simp]
theorem isPlainPrimitive_outline (n : Node) : isPlainPrimitive n.outline = isPlainPrimitive n := by
  obtain ⟨span, shape⟩ := n
  rw [outline_eq]
  cases shape <;> rfl

@[simp]
theorem isPlainTemplate_outline (parts : List (TemplatePart Node)) :
    isPlainTemplate (parts.map (·.map Node.outline)) = isPlainTemplate parts := by
  rw [isPlainTemplate, isPlainTemplate, List.all_map]
  congr 1
  funext part
  cases part with
  | text => rfl
  | substitution value => exact isPrimitive_outline value

theorem arePure_outline {ns : List Node} (h : ∀ n ∈ ns, isPure n.outline = isPure n) :
    arePure (ns.map Node.outline) = arePure ns := by
  induction ns with
  | nil => rfl
  | cons n rest ih =>
    rw [List.forall_mem_cons] at h
    simp only [List.map_cons, arePure, h.1, ih h.2]

theorem areElementsPure_outline {xs : List (ArrayElement Node)}
    (h : ∀ n ∈ xs.flatMap ArrayElement.children, isPure n.outline = isPure n) :
    areElementsPure (xs.map (ArrayElement.map Node.outline)) = areElementsPure xs := by
  induction xs with
  | nil => rfl
  | cons x rest ih =>
    simp only [List.flatMap_cons, List.forall_mem_append] at h
    cases x with
    | item value =>
      have hvalue := h.1 value List.mem_cons_self
      rw [List.map_cons, ArrayElement.map, areElementsPure, areElementsPure, hvalue, ih h.2]
    | spread => rfl
    | hole => exact ih h.2

theorem areMembersPure_cons (m : Node) (rest : List Node) :
    areMembersPure (m :: rest) = (areMembersPure [m] && areMembersPure rest) := by
  rw [areMembersPure.eq_def, areMembersPure.eq_def [m]]
  grind [areMembersPure]

theorem areMembersPure_outline {ms : List Node}
    (h : ∀ m ∈ ms, areMembersPure [m.outline] = areMembersPure [m]) :
    areMembersPure (ms.map Node.outline) = areMembersPure ms := by
  induction ms with
  | nil => rfl
  | cons m rest ih =>
    rw [List.forall_mem_cons] at h
    rw [List.map_cons, areMembersPure_cons, areMembersPure_cons m, h.1, ih h.2]

/-- An expression by itself and a member of an object literal are pure if their outlines are. -/
theorem isPure_outline_and_member (n : Node) :
    isPure n.outline = isPure n ∧ areMembersPure [n.outline] = areMembersPure [n] := by
  -- Both at once: an object literal has members for children, and a member an expression.
  induction n using Node.induction with
  | h n ih =>
    obtain ⟨span, shape⟩ := n
    rw [outline_eq]
    constructor
    · cases shape
      case unary operator operand =>
        have hoperand := (ih operand (by simp [Shape.children])).1
        show isPure ⟨span, .unary operator operand.outline⟩ = _
        cases operator <;> simp [isPure, hoperand]
      case binary operator left right =>
        have hleft := (ih left (by simp [Shape.children])).1
        have hright := (ih right (by simp [Shape.children])).1
        show isPure ⟨span, .binary operator left.outline right.outline⟩ = _
        simp [isPure, hleft, hright]
      case conditional test consequent alternate =>
        have htest := (ih test (by simp [Shape.children])).1
        have hconsequent := (ih consequent (by simp [Shape.children])).1
        have halternate := (ih alternate (by simp [Shape.children])).1
        show isPure ⟨span, .conditional test.outline consequent.outline alternate.outline⟩ = _
        simp [isPure, htest, hconsequent, halternate]
      case sequence elements => exact arePure_outline fun e he => (ih e he).1
      case arrayLiteral elements => exact areElementsPure_outline fun e he => (ih e he).1
      case objectLiteral members => exact areMembersPure_outline fun m hm => (ih m hm).2
      case templateLiteral parts => exact isPlainTemplate_outline parts
      -- All others are told by their shape alone, which an outline has in common with its node.
      all_goals rfl
    · cases shape
      case objectMember content =>
        rcases content with ⟨⟨⟩ | ⟨⟩, ⟨⟩ | ⟨⟩ | ⟨_ | value⟩ | ⟨⟩⟩ | ⟨⟩ | ⟨⟩
        case valued.direct.property.some =>
          have hvalue := (ih value (by simp [Shape.children, ObjectMember.children,
            MemberValue.children])).1
          show (isPure value.outline && areMembersPure []) = (isPure value && areMembersPure [])
          rw [hvalue]
        all_goals rfl
      all_goals rfl

theorem isPure_outline (n : Node) : isPure n.outline = isPure n :=
  (isPure_outline_and_member n).1

end Behaviour

end ScriptMin
