import Mathlib.Algebra.BigOperators.Ring.List
import Mathlib.Algebra.Ring.Nat
import ScriptMin.Proofs.Rewrite.Kept
import ScriptMin.Proofs.Rewrite.Rules
import ScriptMin.Proofs.Tree.Variables

/-!
# Rules make trees lighter

No rule gives a tree with more nodes than the one that it is applied to. Some give as many: `void 0`
for `undefined`, `a[0]` for `a["0"]`, `a && b` for `if (a) b`. Each of these takes away a node of a
kind that no rule makes out of others. The weight of a tree counts such nodes a second time, and goes
down with every rule.
-/

namespace ScriptMin

open Source

/-- What a node counts beyond itself, where some nodes count `k` more times. -/
def Shape.surplus {α : Type} (k : Nat) : Shape α → Nat
  | .debuggerStatement | .identifier _ | .stringLiteral .. | .ifStatement ..
  | .expressionStatement _ => k
  | .unary operator _ => if operator = .negation then 0 else k
  | .objectMember (.valued (.direct raw) _) =>
    if (Rewrite.unquotedKey? raw.toList).isSome then k else 0
  | _ => 0

theorem Shape.surplus_map {α β : Type} (k : Nat) (f : α → β) (s : Shape α) :
    (s.map f).surplus k = s.surplus k := by
  cases s
  case objectMember content =>
    obtain ⟨key, value⟩ | _ | _ := content
    · cases key <;> rfl
    all_goals rfl
  all_goals rfl

namespace Node

/-- The number of nodes of a tree, where some count `k` more times. -/
def weight (k : Nat) (n : Node) : Nat :=
  n.fold fun n children => (children.children.map (·.2)).sum + 1 + n.shape.surplus k

/-- The weight of trees in a row. -/
def weights (k : Nat) (ns : List Node) : Nat := (ns.map (weight k)).sum

variable {k : Nat} {n : Node} {ns ms : List Node}

@[simp] theorem weights_nil : weights k [] = 0 := rfl

@[simp] theorem weights_cons : weights k (n :: ns) = n.weight k + weights k ns := rfl

@[simp] theorem weights_append : weights k (ns ++ ms) = weights k ns + weights k ms := by
  simp [weights]

theorem weight_mk (span : Span) (shape : Shape Node) :
    weight k ⟨span, shape⟩ = weights k shape.children + 1 + shape.surplus k := by
  unfold weight
  rw [fold_eq, Shape.children_map, List.map_map]
  rfl

theorem weight_zero (n : Node) : n.weight 0 = n.size := by
  induction n using Node.induction with
  | h n ih =>
    obtain ⟨span, shape⟩ := n
    have hsurplus : shape.surplus 0 = 0 := by
      unfold Shape.surplus
      split <;> simp
    rw [weight_mk, size_eq, weights, List.map_congr_left ih, hsurplus]

theorem size_le_weight (k : Nat) (n : Node) : n.size ≤ n.weight k := by
  induction n using Node.induction with
  | h n ih =>
    obtain ⟨span, shape⟩ := n
    have hchildren : (shape.children.map size).sum ≤ weights k shape.children := List.sum_le_sum ih
    simp only [size_eq, weight_mk]
    omega

theorem one_le_weight (k : Nat) (n : Node) : 1 ≤ n.weight k := by
  obtain ⟨span, shape⟩ := n
  rw [weight_mk]
  omega

theorem weight_lt_of_mem_children {c : Node} (h : c ∈ n.shape.children) :
    c.weight k < n.weight k := by
  obtain ⟨span, shape⟩ := n
  have hle : c.weight k ≤ weights k shape.children :=
    List.le_sum_of_mem (List.mem_map_of_mem (f := weight k) h)
  rw [weight_mk]
  omega

/-- Each node counts at most `k + 1` times. -/
theorem weight_le (k : Nat) (n : Node) : n.weight k ≤ (k + 1) * n.size := by
  induction n using Node.induction with
  | h n ih =>
    obtain ⟨span, shape⟩ := n
    have hsurplus : shape.surplus k ≤ k := by
      unfold Shape.surplus
      split <;> (try split) <;> omega
    have hchildren : weights k shape.children ≤ (k + 1) * (shape.children.map size).sum := by
      rw [← List.sum_map_mul_left]
      exact List.sum_le_sum ih
    simp only [weight_mk, size_eq, Nat.mul_add]
    omega

theorem length_le_weights (k : Nat) (ns : List Node) : ns.length ≤ weights k ns := by
  induction ns with
  | nil => rfl
  | cons n ns ih =>
    have := one_le_weight k n
    rw [weights_cons, List.length_cons]
    omega

theorem weights_le_of_sublist (h : ns.Sublist ms) : weights k ns ≤ weights k ms :=
  (h.map (weight k)).sum_le_sum (by simp)

/-- What is left of a row is lighter by what is left out. -/
theorem weights_add_le (hk : k ≤ 1) (h : ns.Sublist ms) (hlength : ns.length < ms.length) :
    weights k ns + k ≤ weights k ms := by
  induction h with
  | slnil => cases hlength
  | cons n h ih =>
    have hle := weights_le_of_sublist (k := k) h
    have hn := one_le_weight k n
    rw [weights_cons]
    omega
  | cons_cons n h ih =>
    have hle := ih (by simpa using hlength)
    rw [weights_cons, weights_cons]
    omega

end Node

namespace Rewrite

open Node

/-- A tree that is lighter by `k`. -/
def Lightens (k : Nat) (n n' : Node) : Prop := n'.weight k + k ≤ n.weight k

variable {k : Nat} {context : Context} {n n' test value first second : Node} {span : Span}

theorem weights_snd_le {ps : List (Node × Node)} (h : ∀ p ∈ ps, p.2.weight k ≤ p.1.weight k) :
    weights k (ps.map Prod.snd) ≤ weights k (ps.map Prod.fst) := by
  simpa [weights, Function.comp_def] using List.sum_le_sum h

/-- A node is lighter if one of its children is and no other is heavier. -/
theorem lightens_children {s : Shape (Node × Node)}
    (h : ∀ p ∈ s.children, p.2.weight k ≤ p.1.weight k)
    (hexists : ∃ p ∈ s.children, Lightens k p.1 p.2) :
    Lightens k ⟨span, s.map Prod.fst⟩ ⟨span, s.map Prod.snd⟩ := by
  obtain ⟨p, hp, hlightens⟩ := hexists
  obtain ⟨before, after, hs⟩ := List.append_of_mem hp
  simp only [Lightens, weight_mk, Shape.children_map, Shape.surplus_map] at hlightens ⊢
  rw [hs, List.forall_mem_append, List.forall_mem_cons] at h
  have hbefore := weights_snd_le h.1
  have hafter := weights_snd_le h.2.2
  simp only [hs, List.map_append, List.map_cons, weights_append, weights_cons]
  omega

/-! ## Expressions -/

section Expressions

/-- The elements of an expression in a row weigh no more than the expression. -/
theorem weights_elements_le (k : Nat) (n : Node) : weights k n.elements ≤ n.weight k := by
  obtain ⟨span, shape⟩ := n
  unfold Node.elements
  split
  case h_1 hshape =>
    cases hshape
    rw [weight_mk, Shape.children]
    omega
  case h_2 => simp

theorem weight_sequenceOf_le (k : Nat) (first second : Node) :
    (sequenceOf first second).weight k ≤ 1 + first.weight k + second.weight k := by
  have hfirst := weights_elements_le k first
  have hsecond := weights_elements_le k second
  simp only [sequenceOf, weight_mk, Shape.children, Shape.surplus, weights_append]
  omega

theorem weight_splitNegation_le (k : Nat) (test : Node) :
    (splitNegation test).1.weight k ≤ test.weight k := by
  obtain ⟨span, shape⟩ := test
  unfold splitNegation
  split
  case h_1 operand hshape =>
    cases hshape
    simp only [weight_mk _ (.unary .logicalNot operand), Shape.children, weights_cons]
    omega
  case h_2 => exact le_rfl

theorem weight_guard_le (k : Nat) (test value : Node) (runsIfTrue : Bool) :
    (Rewrite.guard test value runsIfTrue).weight k ≤ 1 + test.weight k + value.weight k := by
  have htest := weight_splitNegation_le k test
  simp only [Rewrite.guard, weight_mk, Shape.children, Shape.surplus, weights_cons, weights_nil]
  omega

theorem weight_choice_le (k : Nat) (test first second : Node) :
    (choice test first second).weight k ≤
      1 + test.weight k + first.weight k + second.weight k := by
  have htest := weight_splitNegation_le k test
  simp only [choice]
  split <;>
    simp only [weight_mk, Shape.children, Shape.surplus, weights_cons, weights_nil] <;>
    omega

/-- A number has a node, or two with a minus sign, and any other constant has one. -/
theorem weight_constant_le (k : Nat) (value : Constant) (n : Node) :
    (n.withShape (value.shape n)).weight k ≤ 2 ∨
      (∃ text, value = .string text) ∧ (n.withShape (value.shape n)).weight k = 1 + k := by
  cases value with
  | number v =>
    refine .inl ?_
    simp only [Constant.shape, Node.withShape]
    split <;> simp [weight_mk, Shape.children, Shape.surplus]
  | string text =>
    refine .inr ⟨⟨text, rfl⟩, ?_⟩
    simp [Constant.shape, Node.withShape, weight_mk, Shape.children, Shape.surplus]
  | boolean v =>
    refine .inl ?_
    simp [Constant.shape, Node.withShape, weight_mk, Shape.children, Shape.surplus]

/-- The key of an object member in quotes is longer than the plain name. -/
theorem unquotedKey?_of_unquoted {raw name : List Char} (h : unquotedKey? raw = some name) :
    unquotedKey? name = none := by
  unfold unquotedKey? at h
  split at h
  case h_1 quote rest =>
    obtain ⟨hname, h⟩ := Option.ite_none_right_eq_some.1 h
    cases h
    have hname := (Bool.and_eq_true_iff.1 hname).2
    generalize rest.dropLast = name at hname
    -- A quote starts no name.
    obtain _ | ⟨c, rest⟩ := name
    · rfl
    · have hc : Source.isIdentifierStart c := (Bool.and_eq_true_iff.1 hname).1
      have hquote : (c == '\x22' || c == '\x27') = false := by
        rw [Bool.or_eq_false_iff, beq_eq_false_iff_ne, beq_eq_false_iff_ne]
        constructor <;> rintro rfl <;> exact absurd hc (by decide)
      simp only [unquotedKey?, hquote, Bool.false_and, Bool.false_eq_true, if_false]
  case h_2 => cases h

theorem weight_statementKept_le (k : Nat) (span : Span) (n : Node) (elements : List Node) :
    weight k ⟨span, statementKept n elements⟩ ≤
      weights k (elements.filter (!isPure ·)) + 2 + k := by
  unfold statementKept
  split
  case h_1 =>
    simp only [weight_mk, Shape.children, Shape.surplus, weights_nil]
    omega
  case h_2 only h =>
    simp only [h, weight_mk, Shape.children, Shape.surplus, weights_cons, weights_nil]
    omega
  case h_3 =>
    simp only [Node.withShape, weight_mk, Shape.children, Shape.surplus, weights_cons, weights_nil]
    omega

theorem length_filter_lt_of_getLast {elements : List Node} (h : elements.getLast?.any isPure) :
    (elements.filter (!isPure ·)).length < elements.length := by
  obtain ⟨last, hlast, hpure⟩ := (Option.any_eq_true _ _).1 h
  exact List.length_filter_lt_length_iff_exists.2
    ⟨last, List.mem_of_getLast? hlast, by simpa using hpure⟩

theorem lightens_shortenAccess (h : shortenAccess context n = some n') : Lightens k n n' := by
  obtain ⟨span, isOptional, parenthesised, object, span', name, rfl, rfl | ⟨value, rfl⟩⟩ :=
    shortenAccess_eq_some h
  all_goals
    simp only [Lightens, weight_mk, Shape.children, Shape.surplus, weights_cons, weights_nil]
    omega

theorem lightens_shortenKey (h : shortenKey context n = some n') : Lightens k n n' := by
  obtain ⟨span, raw, name, value, hname, rfl, rfl⟩ := shortenKey_eq_some h
  have hplain := unquotedKey?_of_unquoted hname
  simp [Lightens, weight_mk, Shape.children, ObjectMember.children, Key.children, Shape.surplus,
    hname, hplain]

variable (hk : k ≤ 1)

include hk

theorem lightens_shortenYield (h : shortenYield context n = some n') : Lightens k n n' := by
  obtain ⟨span, operand, -, rfl, rfl⟩ := shortenYield_eq_some h
  have hoperand := one_le_weight k operand
  simp only [Lightens, weight_mk, Shape.children, Shape.surplus, Option.toList, weights_cons,
    weights_nil]
  omega

theorem lightens_shortenUndefined (h : shortenUndefined context n = some n') :
    Lightens k n n' := by
  obtain ⟨span, rfl, ⟨name, rfl⟩ | ⟨operator, operand, rfl⟩⟩ := shortenUndefined_eq_some h
  · simp [Lightens, weight_mk, Shape.children, Shape.surplus]
  · have hoperand := one_le_weight k operand
    simp only [Lightens, weight_mk, Shape.children, Shape.surplus, weights_cons, weights_nil]
    omega

theorem lightens_foldConstants (h : foldConstants context n = some n') : Lightens k n n' := by
  obtain ⟨value, hvalue, rfl, hn⟩ := foldConstants_eq_some h
  have hconstant := weight_constant_le k value n
  rw [Lightens]
  obtain ⟨span, operator, left, right, rfl⟩ | ⟨span, operator, operand, rfl⟩ := hn
  · have hleft := one_le_weight k left
    have hright := one_le_weight k right
    rw [weight_mk _ (.binary operator left right)]
    simp only [Shape.children, Shape.surplus, weights_cons, weights_nil]
    omega
  · have hoperand := one_le_weight k operand
    by_cases hnegation : operator = .negation
    · -- The negation of a negated numeral has three nodes, and its value has two at most.
      subst hnegation
      obtain ⟨⟨v, rfl⟩, spanO, spanN, v', rfl⟩ := constantValue?_negation hvalue
      have hle := hconstant.resolve_right fun h => by cases h.1.choose_spec
      refine (Nat.add_le_add hle hk).trans ?_
      simp [weight_mk, Shape.children, Shape.surplus]
    · rw [weight_mk _ (.unary operator operand)]
      simp only [Shape.children, Shape.surplus, if_neg hnegation, weights_cons, weights_nil]
      omega

theorem lightens_dropPure (h : dropPure context n = some n') : Lightens k n n' := by
  obtain ⟨span, elements, kept, rfl, hkept, hlength, hgives⟩ | ⟨span, expression, rfl, hgives⟩ :=
    dropPure_eq_some h
  · have hsum := weights_add_le hk hkept hlength
    rw [Lightens, weight_mk _ (.sequence elements)]
    obtain ⟨rfl, -⟩ | rfl := hgives
    · simp only [Shape.children, Shape.surplus, weights_cons, weights_nil] at hsum ⊢
      omega
    · simp only [weight_mk, Shape.children, Shape.surplus]
      omega
  · obtain rfl | ⟨span', elements, rfl, hpure, rfl⟩ := hgives
    · have hexpression := one_le_weight k expression
      simp only [Lightens, weight_mk, Shape.children, Shape.surplus, weights_cons, weights_nil]
      omega
    · have hle := weight_statementKept_le k span ⟨span', .sequence elements⟩ elements
      have hsum := weights_add_le hk (List.filter_sublist (p := (!isPure ·)))
        (length_filter_lt_of_getLast hpure)
      rw [Lightens, weight_mk _ (.expressionStatement _), Shape.children, weights_cons,
        weight_mk _ (.sequence elements)]
      simp only [Shape.children, Shape.surplus, weights_nil]
      omega

end Expressions

/-! ## Statements -/

section Statements

theorem weight_of_singleExpression (h : singleExpression? n = some value) :
    value.weight k + 1 + k ≤ n.weight k := by
  refine singleExpression_induction (fun span statement ih => ?_) h fun span => ?_
  · rw [weight_mk, Shape.children, weights_cons]
    omega
  · simp [weight_mk _ (.expressionStatement value), Shape.children, Shape.surplus]

theorem weight_of_singleReturn (h : singleReturn? n = some value) :
    value.weight k + 1 ≤ n.weight k := by
  refine singleReturn_induction (fun span statement ih => ?_) h fun span => ?_
  · rw [weight_mk, Shape.children, weights_cons]
    omega
  · simp [weight_mk _ (.returnStatement _), Shape.children, Shape.surplus]

theorem weight_if {consequent : Node} {alternate : Option Node} :
    weight k ⟨span, .ifStatement test consequent alternate⟩ =
      test.weight k + consequent.weight k + weights k alternate.toList + 1 + k := by
  simp only [weight_mk, Shape.children, Shape.surplus, weights_append, weights_cons, weights_nil]
  omega

theorem weight_expressionStatement :
    weight k ⟨span, .expressionStatement value⟩ = value.weight k + 1 + k := by
  simp [weight_mk, Shape.children, Shape.surplus]

theorem weight_returnOf : (returnOf value).weight k = value.weight k + 1 := by
  simp [returnOf, weight_mk, Shape.children, Shape.surplus]

theorem lightens_dropDebugger (h : dropDebugger context n = some n') : Lightens k n n' := by
  obtain ⟨span, rfl, rfl⟩ := dropDebugger_eq_some h
  simp [Lightens, weight_mk, Shape.children, Shape.surplus]

variable (hk : k ≤ 1)

include hk

theorem lightens_dropConstantBranch (h : dropConstantBranch context n = some n') :
    Lightens k n n' := by
  obtain ⟨span, test, consequent, alternate, rfl, hgives⟩ |
    ⟨span, test, consequent, alternate, rfl, hgives⟩ := dropConstantBranch_eq_some h
  · have htest := one_le_weight k test
    rw [Lightens, weight_if]
    obtain ⟨-, rfl⟩ | ⟨-, rfl⟩ := hgives
    · omega
    · cases alternate with
      | none =>
        simp only [Option.getD_none, weight_mk _ .emptyStatement, Shape.children, Shape.surplus,
          weights_nil]
        omega
      | some other =>
        simp only [Option.getD_some, Option.toList_some, weights_cons]
        omega
  · simp only [Lightens, weight_mk _ (.conditional _ _ _), Shape.children, Shape.surplus,
      weights_cons, weights_nil]
    obtain rfl | rfl := hgives <;> omega

theorem lightens_loopForever (h : loopForever context n = some n') : Lightens k n n' := by
  obtain ⟨span, condition, body, rfl, -, rfl⟩ | ⟨span, init, condition, post, body, rfl, -, rfl⟩ :=
    loopForever_eq_some h
  all_goals
    have hcondition := one_le_weight k condition
    simp only [Lightens, weight_mk, Shape.children, ForHead.children, ForInit.children,
      Shape.surplus, Option.toList, weights_append, weights_cons, weights_nil]
    omega

theorem lightens_ifToExpression (h : ifToExpression context n = some n') : Lightens k n n' := by
  obtain ⟨span, test, consequent, alternate, rfl, hgives⟩ := ifToExpression_eq_some h
  have hconsequent := one_le_weight k consequent
  rw [Lightens, weight_if]
  obtain ⟨other, rfl, -, rfl⟩ | ⟨value, hvalue, rfl⟩ := hgives
  · have hother := one_le_weight k other
    simp only [weight_if, Option.toList, weights_cons, weights_nil]
    omega
  · rw [weight_expressionStatement]
    obtain ⟨rfl, -, rfl⟩ | ⟨expression, rfl, hfirst, rfl⟩ |
      ⟨other, expression, rfl, -, hsecond, rfl⟩ |
      ⟨other, first, second, rfl, hfirst, hsecond, rfl⟩ := ifExpression?_eq_some hvalue
    · omega
    · have hguard := weight_guard_le k test expression true
      have hfirst := weight_of_singleExpression (k := k) hfirst
      omega
    · have hguard := weight_guard_le k test expression false
      have hsecond := weight_of_singleExpression (k := k) hsecond
      simp only [Option.toList, weights_cons, weights_nil]
      omega
    · have hchoice := weight_choice_le k test first second
      have hfirst := weight_of_singleExpression (k := k) hfirst
      have hsecond := weight_of_singleExpression (k := k) hsecond
      simp only [Option.toList, weights_cons, weights_nil]
      omega

theorem lightens_unwrapBlocks (h : unwrapBlocks context n = some n') : Lightens k n n' := by
  obtain ⟨span, s, rfl, rfl, hs⟩ := unwrapBlocks_eq_some h
  have hunwrapped {c c' : Node} (h : IsUnwrapped c c') : c'.weight k + 1 ≤ c.weight k := by
    obtain ⟨span, rfl⟩ := h
    simp only [weight_mk _ (.block _), Shape.children, weights_cons]
    omega
  refine lightens_children (fun p hp => ?_) ?_
  · obtain ⟨role, hplace⟩ := Shape.exists_mem_places hp
    obtain hsame | ⟨-, hbraces⟩ := hs.places _ hplace
    · exact hsame ▸ le_rfl
    · exact (Nat.le_add_right _ 1).trans (hunwrapped hbraces)
  · obtain ⟨p, hp, hbraces⟩ := hs.exists_unwrapped
    exact ⟨p, hp, (Nat.add_le_add_left hk _).trans (hunwrapped hbraces)⟩

end Statements

/-! ## Statements in a row -/

section Rows

variable {row row' : List Node}

theorem lightens_withStatements (hstatements : statements? n = some row)
    (hrow : weights k row' + k ≤ weights k row) : Lightens k n (withStatements n row') := by
  obtain ⟨span, shape⟩ := n
  obtain rfl | rfl | ⟨test, rfl⟩ := statements?_eq_some hstatements <;>
    simp only [Lightens, withStatements, Node.withShape, weight_mk, Shape.children, Shape.surplus,
      weights_append] <;>
    omega

theorem lightens_onStatements {rule : List Node → Option (List Node)}
    (hrule : ∀ row row', rule row = some row' → weights k row' + k ≤ weights k row)
    (h : onStatements rule n = some n') : Lightens k n n' :=
  keeps_onStatements hrule (fun _ _ _ => lightens_withStatements) ⟨false⟩ n n' h

/-- A statement that is lighter by `k` than two that are joined to it. -/
def JoinsLighter (k : Nat) (join? : Node → Node → Option Node) : Prop :=
  ∀ a b joined, join? a b = some joined → joined.weight k + k ≤ a.weight k + b.weight k

theorem rowKept_weights (k : Nat) : RowKept fun row row' => weights k row' ≤ weights k row where
  refl _ := le_rfl
  trans h h' := h'.trans h
  cons _ _ _ h := Nat.add_le_add_left h _

theorem weights_joinNeighbours_le {join? : Node → Node → Option Node} (h : JoinsLighter k join?)
    (before : Node) (rest : List Node) :
    weights k (joinNeighbours.go join? before rest) ≤ before.weight k + weights k rest := by
  refine (rowKept_weights k).joinNeighbours (fun a b joined hjoined rest => ?_) (before :: rest)
  have hle := h a b joined hjoined
  simp only [weights_cons]
  omega

theorem weights_onNeighbours {join? : Node → Node → Option Node} (h : JoinsLighter k join?)
    (hrow : onNeighbours join? row = some row') : weights k row' + k ≤ weights k row := by
  simp only [onNeighbours, Option.ite_none_right_eq_some, Option.some.injEq] at hrow
  obtain ⟨hany, rfl⟩ := hrow
  cases row with
  | nil => cases hany
  | cons before rest =>
    induction rest generalizing before with
    | nil => cases hany
    | cons n rest ih =>
      simp only [joinNeighbours, joinNeighbours.go] at ih ⊢
      split
      case h_1 joined hjoined =>
        have hle := weights_joinNeighbours_le h joined rest
        have hjoins := h before n joined hjoined
        simp only [weights_cons]
        omega
      case h_2 hnone =>
        have hany : anyNeighbours (fun a b => (join? a b).isSome) (n :: rest) := by
          simpa [anyNeighbours, hnone] using hany
        have hle := ih n hany
        simp only [weights_cons] at hle ⊢
        omega

theorem weights_flattened {body : List Node} (h : flattened? n = some body) :
    weights k body + 1 ≤ n.weight k := by
  obtain ⟨span, shape⟩ := n
  obtain ⟨rfl, rfl⟩ | rfl := flattened?_eq_some h <;>
    simp [weight_mk, Shape.children, Shape.surplus]

theorem weights_flattened_le (k : Nat) (row : List Node) :
    weights k (row.flatMap fun n => (flattened? n).getD [n]) ≤ weights k row := by
  refine (rowKept_weights k).flatten (fun n rest => ?_) row
  cases h : flattened? n with
  | none => exact le_rfl
  | some body =>
    have hbody := weights_flattened (k := k) h
    simp only [Option.getD_some, weights_append, weights_cons]
    omega

theorem joinsLighter_joinedReturn : JoinsLighter k joinedReturn? := by
  intro a b joined h
  obtain ⟨span, test, consequent, value, alternate, rfl, hvalue, ⟨spanB, rfl⟩, rfl⟩ :=
    joinedReturn?_eq_some h
  have hvalue := weight_of_singleReturn (k := k) hvalue
  have hchoice := weight_choice_le k test value alternate
  rw [weight_if, weight_returnOf]
  simp only [weight_mk _ (.returnStatement _), Shape.children, Shape.surplus, Option.toList,
    weights_cons, weights_nil]
  omega

theorem lightens_returnChoice (h : returnChoice context n = some n') : Lightens k n n' := by
  obtain ⟨span, test, consequent, alternate, first, second, rfl, hfirst, hsecond, rfl⟩ | h :=
    returnChoice_eq_some h
  · have hfirst := weight_of_singleReturn (k := k) hfirst
    have hsecond := weight_of_singleReturn (k := k) hsecond
    have hchoice := weight_choice_le k test first second
    rw [Lightens, weight_if, weight_returnOf]
    simp only [Option.toList, weights_cons, weights_nil]
    omega
  · refine lightens_onStatements (fun row row' hrow => ?_) h
    fun_induction joinReturn? row generalizing row' with
    | case1 a b rest joined hjoined =>
      cases hrow
      have hjoins := joinsLighter_joinedReturn (k := k) a b joined hjoined
      simp only [weights_cons]
      omega
    | case2 a b rest hjoined ih =>
      obtain ⟨joined, hrest, rfl⟩ := Option.map_eq_some_iff.1 hrow
      have hle := ih joined hrest
      simp only [weights_cons] at hle ⊢
      omega
    | case3 => cases hrow

theorem weight_evaluatesFirst {expression b joined : Node}
    (h : EvaluatesFirst expression b.shape joined.shape) :
    joined.weight k ≤ b.weight k + 1 + expression.weight k := by
  obtain ⟨span, shape⟩ := b
  obtain ⟨span', shape'⟩ := joined
  cases h with
  | emptyInit condition post body =>
    simp only [weight_mk, Shape.children, ForHead.children, ForInit.children, Shape.surplus,
      weights_append, weights_cons, weights_nil]
    omega
  | expressionStatement value | returnStatement value | throwStatement value
  | ifStatement value | switchStatement value | init value =>
    have hvalue := weight_sequenceOf_le k expression value
    simp only [weight_mk span, weight_mk span', Shape.children, ForHead.children,
      ForInit.children, Shape.surplus, Option.toList, weights_append, weights_cons, weights_nil]
    omega

theorem joinsLighter_joinedExpression : JoinsLighter k joinedExpression? := by
  intro a b joined h
  obtain ⟨span, expression, rfl, h⟩ := joinedExpression?_eq_some h
  have hle := weight_evaluatesFirst (k := k) (evaluatingFirst?_eq_some h).2
  rw [weight_expressionStatement]
  omega

theorem lightens_joinExpressions (h : joinExpressions context n = some n') : Lightens k n n' :=
  lightens_onStatements (fun _ _ => weights_onNeighbours joinsLighter_joinedExpression) h

variable (hk : k ≤ 1)

include hk

theorem lightens_flattenBlocks (h : flattenBlocks context n = some n') : Lightens k n n' := by
  refine lightens_onStatements (fun row row' hrow => ?_) h
  obtain ⟨hany, hrow⟩ := Option.ite_none_right_eq_some.1 hrow
  cases hrow
  obtain ⟨n, hn, hflattened⟩ := List.any_eq_true.1 hany
  obtain ⟨body, hbody⟩ := Option.isSome_iff_exists.1 hflattened
  obtain ⟨before, after, rfl⟩ := List.append_of_mem hn
  have hbefore := weights_flattened_le k before
  have hafter := weights_flattened_le k after
  have hn := weights_flattened (k := k) hbody
  simp only [List.flatMap_append, List.flatMap_cons, hbody, Option.getD_some, weights_append,
    weights_cons]
  omega

theorem joinsLighter_joinedVariables : JoinsLighter k joinedVariables? := by
  intro a b joined h
  obtain ⟨span, span', kind, first, second, rfl, ⟨spanB, spanB', rfl⟩, rfl⟩ :=
    joinedVariables?_eq_some h
  simp only [weight_mk, Shape.children, Shape.surplus, List.flatMap_append, weights_append,
    weights_cons, weights_nil]
  omega

theorem lightens_joinVariables (h : joinVariables context n = some n') : Lightens k n n' :=
  lightens_onStatements (fun _ _ => weights_onNeighbours (joinsLighter_joinedVariables hk)) h

end Rows

end Rewrite

end ScriptMin
