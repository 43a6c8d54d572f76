import ScriptMin.Minify
import ScriptMin.Proofs.Rewrite.Kept
import ScriptMin.Proofs.Rewrite.Rules
import ScriptMin.Proofs.Tree.Bodies

/-!
# The `if` that an `else` belongs to

An `else` is read as one of the nearest `if` before it that has none. So the statement before an
`else` must not end in an open `if`, or the `else` changes its owner when the program is printed. A
tree in which this is so is called closed here. Rules keep trees closed, but for those that take
braces or empty branches away: a statement may stand before an `else` further up.
-/

namespace ScriptMin

open Rewrite

/-! ## Closed trees -/

/-- The children that must not end in an open `if`: a statement before an `else`, and all that are
no statements on their own. -/
def Shape.guarded {α : Type} : Shape α → List α
  | .ifStatement test consequent alternate => test :: alternate.toList.map fun _ => consequent
  | .whileLoop condition _ | .doWhileLoop _ condition | .withStatement condition _ => [condition]
  | .forLoop head _ => head.children
  | .switchCase test _ => test.toList
  | .labelledStatement .. | .block _ | .program _ => []
  | s => s.children

theorem Shape.guarded_map {α β : Type} (f : α → β) (s : Shape α) :
    (s.map f).guarded = s.guarded.map f := by
  have hchildren := s.children_map f
  cases s
  case ifStatement test consequent alternate => cases alternate <;> rfl
  case forLoop head body => exact head.children_map f
  case switchCase test body => exact toList_optionMap f test
  case whileLoop | doWhileLoop | withStatement | labelledStatement | block | program => rfl
  all_goals exact hchildren

theorem Shape.guarded_subset {α : Type} (s : Shape α) : s.guarded ⊆ s.children := by
  cases s
  case ifStatement test consequent alternate => cases alternate <;> simp [guarded, children]
  case forLoop | switchCase => exact List.subset_append_left _ _
  case whileLoop | doWhileLoop | withStatement | labelledStatement | block | program =>
    simp [guarded, children]
  all_goals exact List.Subset.refl _

namespace Node

/-- Nothing before an `else` ends in an open `if`. -/
def IsClosed (root : Node) : Prop :=
  ∀ n ∈ root.nodes, ∀ c ∈ n.shape.guarded, endsInOpenIf c = false

instance (root : Node) : Decidable root.IsClosed :=
  inferInstanceAs (Decidable (∀ n ∈ root.nodes, ∀ c ∈ n.shape.guarded, endsInOpenIf c = false))

theorem isClosed_iff (n : Node) :
    n.IsClosed ↔
      (∀ c ∈ n.shape.guarded, endsInOpenIf c = false) ∧ ∀ c ∈ n.shape.children, c.IsClosed := by
  simp only [IsClosed]
  rw [nodes_eq, List.forall_mem_cons]
  simp only [List.forall_mem_flatMap]

/-- A closed tree that does not end in an open `if` either. -/
structure IsShut (n : Node) : Prop where
  closed : n.IsClosed
  shut : endsInOpenIf n = false

theorem IsClosed.child {n c : Node} (h : n.IsClosed) (hc : c ∈ n.shape.children) : c.IsClosed :=
  (n.isClosed_iff.1 h).2 c hc

theorem IsClosed.guarded {n c : Node} (h : n.IsClosed) (hc : c ∈ n.shape.guarded) : c.IsShut :=
  ⟨h.child (n.shape.guarded_subset hc), (n.isClosed_iff.1 h).1 c hc⟩

variable {span : Source.Span} {shape : Shape Node}

theorem isClosed_mk (hguarded : ∀ c ∈ shape.guarded, c.IsShut)
    (hchildren : ∀ c ∈ shape.children, c.IsClosed) : IsClosed ⟨span, shape⟩ :=
  (isClosed_iff _).2 ⟨fun c hc => (hguarded c hc).shut, hchildren⟩

/-- What stands before an `else` does not end in an open `if`. -/
theorem IsClosed.before_else {root n test consequent alternate : Node} (h : root.IsClosed)
    (hn : n ∈ root.nodes) (hshape : n.shape = .ifStatement test consequent (some alternate)) :
    endsInOpenIf consequent = false :=
  h n hn consequent (by simp [hshape, Shape.guarded])

/-- What has only guarded children is closed if they are. -/
theorem isShut_mk (hshut : endsInOpenIf ⟨span, shape⟩ = false)
    (hguarded : shape.guarded = shape.children) (h : ∀ c ∈ shape.children, c.IsShut) :
    IsShut ⟨span, shape⟩ :=
  ⟨isClosed_mk (hguarded ▸ h) fun c hc => (h c hc).closed, hshut⟩

end Node

namespace Rewrite

/-! ## The relation -/

/-- A closed tree stays closed, and does not come to end in an open `if`. -/
structure KeepsElse (n n' : Node) : Prop where
  closed : n.IsClosed → n'.IsClosed
  shut : n.IsClosed → endsInOpenIf n = false → endsInOpenIf n' = false

theorem KeepsElse.of_isShut {n n' : Node} (h : n.IsClosed → n'.IsShut) : KeepsElse n n' :=
  ⟨fun hn => (h hn).closed, fun hn _ => (h hn).shut⟩

theorem endsInOpenIf_map {n : Node} {g : Node → Node}
    (h : ∀ c ∈ n.shape.children, endsInOpenIf c = false → endsInOpenIf (g c) = false)
    (hn : endsInOpenIf n = false) : endsInOpenIf (n.withShape (n.shape.map g)) = false := by
  obtain ⟨span, shape⟩ := n
  cases shape
  case ifStatement test consequent alternate =>
    cases alternate with
    | none => cases hn
    | some other => exact h other (by simp [Shape.children]) hn
  -- These end where the statement in them does, and all others are shut by their shape.
  case whileLoop condition body => exact h body (by simp [Shape.children]) hn
  case forLoop head body => exact h body (by simp [Shape.children]) hn
  case withStatement object body => exact h body (by simp [Shape.children]) hn
  case labelledStatement label statement => exact h statement (by simp [Shape.children]) hn
  all_goals rfl

theorem keepsElse_congr (n : Node) (g : Node → Node)
    (h : ∀ c ∈ n.shape.children, KeepsElse c (g c)) :
    KeepsElse n (n.withShape (n.shape.map g)) where
  closed hn := by
    refine Node.isClosed_mk ?_ ?_
    · rw [Shape.guarded_map, List.forall_mem_map]
      intro c hc
      have hkeeps := h c (n.shape.guarded_subset hc)
      obtain ⟨hclosed, hshut⟩ := hn.guarded hc
      exact ⟨hkeeps.closed hclosed, hkeeps.shut hclosed hshut⟩
    · rw [Shape.children_map, List.forall_mem_map]
      exact fun c hc => (h c hc).closed (hn.child hc)
  shut hn := endsInOpenIf_map fun c hc => (h c hc).shut (hn.child hc)

theorem kept_keepsElse : Kept KeepsElse where
  refl _ := ⟨id, fun _ => id⟩
  trans h h' :=
    ⟨fun ha => h'.closed (h.closed ha), fun ha hshut => h'.shut (h.closed ha) (h.shut ha hshut)⟩
  congr := keepsElse_congr

/-! ## Expressions -/

section Expressions

variable {span : Source.Span}

theorem isShut_leaf {shape : Shape Node} (hshut : endsInOpenIf ⟨span, shape⟩ = false)
    (hguarded : shape.guarded = shape.children) (hchildren : shape.children = []) :
    Node.IsShut ⟨span, shape⟩ :=
  Node.isShut_mk hshut hguarded (by simp [hchildren])

theorem isShut_constant (c : Constant) (n : Node) : Node.IsShut (n.withShape (c.shape n)) := by
  cases c with
  | number value =>
    simp only [Constant.shape]
    split
    · refine Node.isShut_mk rfl rfl fun c hc => ?_
      rw [List.mem_singleton.1 hc]
      exact isShut_leaf rfl rfl rfl
    · exact isShut_leaf rfl rfl rfl
  | string value => exact isShut_leaf rfl rfl rfl
  | boolean value => exact isShut_leaf rfl rfl rfl

theorem isShut_sequence {elements : List Node} (h : ∀ e ∈ elements, e.IsShut) :
    Node.IsShut ⟨span, .sequence elements⟩ :=
  Node.isShut_mk rfl rfl h

theorem isShut_elements {n e : Node} (h : n.IsShut) (he : e ∈ n.elements) : e.IsShut := by
  obtain ⟨span, shape⟩ := n
  unfold Node.elements at he
  split at he
  case h_1 first rest hshape =>
    cases hshape
    exact h.closed.guarded he
  case h_2 =>
    rw [List.mem_singleton.1 he]
    exact h

theorem isShut_sequenceOf {first second : Node} (h : first.IsShut) (h' : second.IsShut) :
    (sequenceOf first second).IsShut := by
  refine isShut_sequence fun e he => ?_
  obtain he | he := List.mem_append.1 he
  · exact isShut_elements h he
  · exact isShut_elements h' he

theorem isShut_splitNegation {test : Node} (h : test.IsShut) : (splitNegation test).1.IsShut := by
  obtain ⟨span, shape⟩ := test
  unfold splitNegation
  split
  case h_1 operand hshape =>
    cases hshape
    exact h.closed.guarded List.mem_cons_self
  case h_2 => exact h

theorem isShut_choice {test consequent alternate : Node} (htest : test.IsShut)
    (hconsequent : consequent.IsShut) (halternate : alternate.IsShut) :
    (choice test consequent alternate).IsShut := by
  have htest := isShut_splitNegation htest
  unfold choice
  generalize splitNegation test = split at htest
  obtain ⟨test', negated⟩ := split
  cases negated
  · exact Node.isShut_mk rfl rfl (by simpa [Shape.children] using ⟨htest, hconsequent, halternate⟩)
  · exact Node.isShut_mk rfl rfl (by simpa [Shape.children] using ⟨htest, halternate, hconsequent⟩)

theorem isShut_returnOf {value : Node} (h : value.IsShut) : (returnOf value).IsShut :=
  Node.isShut_mk rfl rfl (by simpa [Shape.children] using h)

end Expressions

theorem keepsElse_shortenYield : Rule.Keeps shortenYield KeepsElse := by
  intro _ n n' h
  obtain ⟨span, operand, -, rfl, rfl⟩ := shortenYield_eq_some h
  exact .of_isShut fun _ => isShut_leaf rfl rfl rfl

theorem keepsElse_shortenUndefined : Rule.Keeps shortenUndefined KeepsElse := by
  intro _ n n' h
  obtain ⟨span, rfl, -⟩ := shortenUndefined_eq_some h
  exact .of_isShut fun _ => isShut_leaf rfl rfl rfl

theorem keepsElse_foldConstants : Rule.Keeps foldConstants KeepsElse := by
  intro _ n n' h
  obtain ⟨value, -, rfl, -⟩ := foldConstants_eq_some h
  exact .of_isShut fun _ => isShut_constant value n

theorem keepsElse_shortenAccess : Rule.Keeps shortenAccess KeepsElse := by
  intro _ n n' h
  obtain ⟨span, isOptional, parenthesised, object, span', name, rfl, hgives⟩ :=
    shortenAccess_eq_some h
  refine .of_isShut fun hn => ?_
  have hobject : object.IsShut := hn.guarded List.mem_cons_self
  obtain rfl | ⟨value, rfl⟩ := hgives
  · exact Node.isShut_mk rfl rfl (by simpa [Shape.children] using hobject)
  · refine Node.isShut_mk rfl rfl ?_
    simpa [Shape.children] using ⟨hobject, isShut_leaf rfl rfl rfl⟩

theorem keepsElse_shortenKey : Rule.Keeps shortenKey KeepsElse := by
  intro _ n n' h
  obtain ⟨span, raw, name, value, -, rfl, rfl⟩ := shortenKey_eq_some h
  exact .of_isShut fun hn => Node.isShut_mk rfl rfl fun c hc => hn.guarded hc

theorem isShut_statementKept {span span' : Source.Span} {elements : List Node}
    (h : ∀ e ∈ elements, e.IsShut) :
    Node.IsShut ⟨span, statementKept ⟨span', .sequence elements⟩ elements⟩ := by
  have hkept : ∀ e ∈ elements.filter (!isPure ·), e.IsShut :=
    fun e he => h e (List.mem_of_mem_filter he)
  unfold statementKept
  split
  case h_1 => exact isShut_leaf rfl rfl rfl
  case h_2 only honly =>
    rw [honly] at hkept
    exact Node.isShut_mk rfl rfl hkept
  case h_3 =>
    refine Node.isShut_mk rfl rfl fun c hc => ?_
    rw [List.mem_singleton.1 hc]
    exact isShut_sequence hkept

theorem keepsElse_dropPure : Rule.Keeps dropPure KeepsElse := by
  intro _ n n' h
  refine .of_isShut fun hn => ?_
  obtain ⟨span, elements, kept, rfl, hkept, -, hgives⟩ | ⟨span, expression, rfl, hgives⟩ :=
    dropPure_eq_some h
  · obtain ⟨rfl, -⟩ | rfl := hgives
    · exact hn.guarded (hkept.subset List.mem_cons_self)
    · exact isShut_sequence fun e he => hn.guarded (hkept.subset he)
  · have hexpression : expression.IsShut := hn.guarded List.mem_cons_self
    obtain rfl | ⟨span', elements, rfl, -, rfl⟩ := hgives
    · exact isShut_leaf rfl rfl rfl
    · exact isShut_statementKept fun e he => hexpression.closed.guarded he

/-! ## Statements -/

theorem keepsElse_dropDebugger : Rule.Keeps dropDebugger KeepsElse := by
  intro _ n n' h
  obtain ⟨span, rfl, rfl⟩ := dropDebugger_eq_some h
  exact .of_isShut fun _ => isShut_leaf rfl rfl rfl

/-- A branch ends in an open `if` only where the whole does. The first branch stands before the
`else`, if there is one. -/
theorem keepsElse_dropConstantBranch : Rule.Keeps dropConstantBranch KeepsElse := by
  intro _ n n' h
  obtain ⟨span, test, consequent, alternate, rfl, hgives⟩ |
    ⟨span, test, consequent, alternate, rfl, hgives⟩ := dropConstantBranch_eq_some h
  · obtain ⟨-, rfl⟩ | ⟨-, rfl⟩ := hgives
    · refine ⟨fun hn => hn.child (by simp [Shape.children]), fun hn hshut => ?_⟩
      cases alternate with
      | none => cases hshut
      | some other => exact (hn.guarded (by simp [Shape.guarded])).shut
    · cases alternate with
      | none => exact .of_isShut fun _ => isShut_leaf rfl rfl rfl
      | some other => exact ⟨fun hn => hn.child (by simp [Shape.children]), fun _ hshut => hshut⟩
  · refine .of_isShut fun hn => hn.guarded ?_
    obtain rfl | rfl := hgives <;> simp [Shape.guarded, Shape.children]

/-- A loop ends in an open `if` where its body does. -/
theorem keepsElse_loopForever : Rule.Keeps loopForever KeepsElse := by
  intro _ n n' h
  obtain ⟨span, condition, body, rfl, -, rfl⟩ | ⟨span, init, condition, post, body, rfl, -, rfl⟩ :=
    loopForever_eq_some h
  · refine ⟨fun hn => Node.isClosed_mk nofun fun c hc => ?_, fun _ hshut => hshut⟩
    rw [List.mem_singleton.1 hc]
    exact hn.child (by simp [Shape.children])
  · refine ⟨fun hn => Node.isClosed_mk (fun c hc => hn.guarded ?_) fun c hc => hn.child ?_,
      fun _ hshut => hshut⟩
    · simp only [Shape.guarded, ForHead.children, List.mem_append] at hc ⊢
      grind
    · simp only [Shape.children, ForHead.children, List.mem_append] at hc ⊢
      grind

/-! ## Rows -/

/-- Closed statements stay closed. A row may hold open ones, since no `else` follows. -/
def RowKeepsElse (row row' : List Node) : Prop :=
  (∀ n ∈ row, n.IsClosed) → ∀ n ∈ row', n.IsClosed

theorem rowKept_rowKeepsElse : RowKept RowKeepsElse where
  refl _ := id
  trans h h' := h' ∘ h
  cons n _ _ h hrow := by
    rw [List.forall_mem_cons] at hrow ⊢
    exact ⟨hrow.1, h hrow.2⟩

theorem keepsElse_withStatements {n : Node} {row row' : List Node} (hn : statements? n = some row)
    (h : RowKeepsElse row row') : KeepsElse n (withStatements n row') := by
  obtain ⟨span, shape⟩ := n
  obtain hshape | hshape | ⟨test, hshape⟩ := statements?_eq_some hn <;> cases hshape
  case inl | inr.inl =>
    exact ⟨fun hn => Node.isClosed_mk nofun (h fun c hc => hn.child hc), fun _ _ => rfl⟩
  case inr.inr =>
    refine ⟨fun hn => Node.isClosed_mk (fun c hc => hn.guarded hc) fun c hc => ?_, fun _ _ => rfl⟩
    obtain hc | hc := List.mem_append.1 hc
    · exact hn.child (List.mem_append_left _ hc)
    · exact h (fun c hc => hn.child (List.mem_append_right _ hc)) c hc

theorem keepsElse_onStatements {rule : List Node → Option (List Node)}
    (h : ∀ row row', rule row = some row' → RowKeepsElse row row') :
    Rule.Keeps (fun _ => onStatements rule) KeepsElse :=
  keeps_onStatements h fun _ _ _ => keepsElse_withStatements

/-- What two closed statements are joined to is closed. -/
theorem rowKeepsElse_joined {a b joined : Node}
    (h : a.IsClosed → b.IsClosed → joined.IsClosed) (rest : List Node) :
    RowKeepsElse (a :: b :: rest) (joined :: rest) := by
  intro hrow
  simp only [List.forall_mem_cons] at hrow ⊢
  exact ⟨h hrow.1 hrow.2.1, hrow.2.2⟩

theorem isClosed_joinedVariables {a b joined : Node} (h : joinedVariables? a b = some joined)
    (ha : a.IsClosed) (hb : b.IsClosed) : joined.IsClosed := by
  obtain ⟨span, span', kind, first, second, rfl, ⟨spanB, spanB', rfl⟩, rfl⟩ :=
    joinedVariables?_eq_some h
  have hfirst : Node.IsClosed ⟨span', .variableDeclaration kind first⟩ :=
    ha.child List.mem_cons_self
  have hsecond : Node.IsClosed ⟨spanB', .variableDeclaration kind second⟩ :=
    hb.child List.mem_cons_self
  refine (Node.isShut_mk rfl rfl fun c hc => ?_).closed
  rw [List.mem_singleton.1 hc]
  refine Node.isShut_mk rfl rfl fun c hc => ?_
  simp only [Shape.children, List.flatMap_append, List.mem_append] at hc
  obtain hc | hc := hc
  · exact hfirst.guarded hc
  · exact hsecond.guarded hc

theorem keepsElse_joinVariables : Rule.Keeps joinVariables KeepsElse :=
  keepsElse_onStatements fun _ _ => rowKept_rowKeepsElse.onNeighbours fun _ _ _ h =>
    rowKeepsElse_joined (isClosed_joinedVariables h)

theorem isShut_of_singleReturn {n value : Node} (h : singleReturn? n = some value)
    (hn : n.IsClosed) : value.IsShut := by
  revert hn
  refine singleReturn_induction (fun span statement ih hn => ?_) h fun span hn => ?_
  · exact ih (hn.child List.mem_cons_self)
  · exact hn.guarded List.mem_cons_self

theorem isClosed_joinedReturn {a b joined : Node} (h : joinedReturn? a b = some joined)
    (ha : a.IsClosed) (hb : b.IsClosed) : joined.IsClosed := by
  obtain ⟨span, test, consequent, value, alternate, rfl, hvalue, ⟨spanB, rfl⟩, rfl⟩ :=
    joinedReturn?_eq_some h
  have htest : test.IsShut := ha.guarded (by simp [Shape.guarded])
  have hconsequent : consequent.IsClosed := ha.child (by simp [Shape.children])
  have halternate : alternate.IsShut := hb.guarded (by simp [Shape.guarded, Shape.children])
  exact (isShut_returnOf
    (isShut_choice htest (isShut_of_singleReturn hvalue hconsequent) halternate)).closed

theorem keepsElse_returnChoice : Rule.Keeps returnChoice KeepsElse := by
  intro context n n' h
  obtain ⟨span, test, consequent, alternate, first, second, rfl, hfirst, hsecond, rfl⟩ | h :=
    returnChoice_eq_some h
  · refine .of_isShut fun hn => isShut_returnOf (isShut_choice ?_ ?_ ?_)
    · exact hn.guarded (by simp [Shape.guarded])
    · exact isShut_of_singleReturn hfirst (hn.child (by simp [Shape.children]))
    · exact isShut_of_singleReturn hsecond (hn.child (by simp [Shape.children]))
  · exact keepsElse_onStatements (fun _ _ => rowKept_rowKeepsElse.joinReturn fun _ _ _ h =>
      rowKeepsElse_joined (isClosed_joinedReturn h)) context n n' h

theorem isClosed_evaluatingFirst {expression b joined : Node}
    (h : evaluatingFirst? expression b = some joined) (hexpression : expression.IsShut)
    (hb : b.IsClosed) : joined.IsClosed := by
  obtain ⟨span, shape⟩ := b
  have hfirst (value : Node) (h : value.IsShut) := isShut_sequenceOf hexpression h
  unfold evaluatingFirst? at h
  split at h <;> cases h
  all_goals
    rename_i hshape
    cases hshape
    have hguarded := fun (c : Node) hc => hb.guarded (c := c) hc
    have hchildren := fun (c : Node) hc => hb.child (c := c) hc
    refine Node.isClosed_mk ?_ ?_
    all_goals
      simp only [Shape.guarded, Shape.children, ForHead.children, ForInit.children,
        Option.toList_some, List.forall_mem_cons, List.forall_mem_append] at hguarded hchildren ⊢
      -- Each child is one that the statement had, or the new sequence.
      have := hexpression.closed
      have := fun value h => (hfirst value h).closed
      grind

theorem isClosed_joinedExpression {a b joined : Node} (h : joinedExpression? a b = some joined)
    (ha : a.IsClosed) (hb : b.IsClosed) : joined.IsClosed := by
  obtain ⟨span, expression, rfl, h⟩ := joinedExpression?_eq_some h
  exact isClosed_evaluatingFirst h (ha.guarded List.mem_cons_self) hb

theorem keepsElse_joinExpressions : Rule.Keeps joinExpressions KeepsElse :=
  keepsElse_onStatements fun _ _ => rowKept_rowKeepsElse.onNeighbours fun _ _ _ h =>
    rowKeepsElse_joined (isClosed_joinedExpression h)

theorem isClosed_bareVariables (n : Node) (names : List String) :
    (bareVariables n names).IsClosed := by
  refine (Node.isShut_mk rfl rfl fun c hc => ?_).closed
  rw [List.mem_singleton.1 hc]
  refine Node.isShut_mk rfl rfl fun c hc => ?_
  simp only [Shape.children, List.mem_flatMap, List.mem_map] at hc
  obtain ⟨_, ⟨name, -, rfl⟩, hc⟩ := hc
  rw [List.mem_singleton.1 hc]
  exact isShut_leaf rfl rfl rfl

theorem rowKeepsElse_reached {row row' : List Node} (h : reached? row = some row') :
    RowKeepsElse row row' := by
  induction row generalizing row' with
  | nil => cases h
  | cons n rest ih =>
    simp only [reached?] at h
    split at h
    case isTrue =>
      obtain ⟨-, h⟩ := Option.ite_none_left_eq_some.1 h
      cases h
      refine rowKept_rowKeepsElse.cons n fun hrow c hc => ?_
      obtain hc | hc := List.mem_append.1 hc
      · split at hc
        case isTrue => cases hc
        case isFalse =>
          rw [List.mem_singleton.1 hc]
          exact isClosed_bareVariables n _
      · exact hrow c (List.mem_filter.1 hc).1
    case isFalse =>
      obtain ⟨kept, hkept, rfl⟩ := Option.map_eq_some_iff.1 h
      exact rowKept_rowKeepsElse.cons n (ih hkept)

theorem keepsElse_dropUnreached : Rule.Keeps dropUnreached KeepsElse :=
  keepsElse_onStatements fun _ _ => rowKeepsElse_reached

/-! ## Whole programs -/

/-- Each rule keeps a tree closed, but for those that take braces and empty branches away. -/
theorem keepsElse_of_mem_rules {o : RewriteOptions} (hblocks : o.blocks = false)
    (hconditionals : o.conditionals = false) : ∀ rule ∈ o.rules, rule.Keeps KeepsElse := by
  intro rule h
  have h := mem_rules h
  simp only [hblocks, hconditionals, Bool.false_eq_true, false_and, false_or] at h
  obtain ⟨-, rfl⟩ | ⟨-, rfl⟩ | ⟨-, rfl⟩ | ⟨-, rfl⟩ | ⟨-, rfl⟩ | ⟨-, rfl⟩ | ⟨-, rfl⟩ | ⟨-, rfl⟩ |
    ⟨-, rfl⟩ | ⟨-, rfl⟩ | ⟨-, rfl⟩ | ⟨-, rfl⟩ | ⟨-, rfl⟩ := h
  · exact keepsElse_dropDebugger
  · exact keepsElse_dropUnreached
  · exact keepsElse_dropConstantBranch
  · exact keepsElse_shortenYield
  · exact keepsElse_shortenUndefined
  · exact keepsElse_foldConstants
  · exact keepsElse_dropPure
  · exact keepsElse_shortenAccess
  · exact keepsElse_shortenKey
  · exact keepsElse_joinVariables
  · exact keepsElse_loopForever
  · exact keepsElse_returnChoice
  · exact keepsElse_joinExpressions

end Rewrite

/-- Where braces and branches stay, no `else` changes its owner. If nothing before an `else` of a
program ends in an open `if`, then nothing does after rewriting. -/
theorem Program.isClosed_rewrite (o : RewriteOptions) (hblocks : o.blocks = false)
    (hconditionals : o.conditionals = false) (p : Program) (h : p.root.IsClosed) :
    (p.rewrite o).root.IsClosed ∧
      ∀ n ∈ (p.rewrite o).root.nodes, ∀ test consequent alternate,
        n.shape = .ifStatement test consequent (some alternate) →
        endsInOpenIf consequent = false := by
  have hkeeps : KeepsElse p.root (p.rewrite o).root :=
    kept_keepsElse.passes (keepsElse_of_mem_rules hblocks hconditionals) o.passLimit p.root
  have hclosed := hkeeps.closed h
  exact ⟨hclosed, fun n hn _ _ _ hshape => hclosed.before_else hn hshape⟩

/-- All rules but those that take braces and empty branches away. -/
def RewriteOptions.braced : RewriteOptions :=
  { RewriteOptions.all with blocks := false, conditionals := false }

/-- A constant test in front of an `else`. -/
theorem isClosed_rewrite_constant_test :
    ∃ p, Program.parse .global "if(a)if(1)b();else c();else d()".toList = .ok p ∧
      p.root.IsClosed ∧ (p.rewrite .braced).print .compact = "if(a)b();else d()".toList ∧
      (p.rewrite .braced).root.IsClosed := by
  have hrun : (match Program.parse .global "if(a)if(1)b();else c();else d()".toList with
      | .ok p => decide p.root.IsClosed &&
          (p.rewrite .braced).print .compact == "if(a)b();else d()".toList
      | .error _ => false) = true := by decide +kernel
  split at hrun
  case h_1 p hparse =>
    obtain ⟨hclosed, hprint⟩ := Bool.and_eq_true_iff.1 hrun
    have hclosed := of_decide_eq_true hclosed
    exact ⟨p, hparse, hclosed, beq_iff_eq.1 hprint,
      (Program.isClosed_rewrite .braced rfl rfl p hclosed).1⟩
  case h_2 => cases hrun

/-- Without the braces of a loop the `else` becomes one of the `if` in the loop. -/
example :
    (Program.parse .global "if(a)while(b){if(c)throw d}else e()".toList).toOption.map (fun p =>
      (p.rewrite { RewriteOptions.none with blocks := true }).print .compact) =
    some "if(a)while(b)if(c)throw d;else e()".toList := by decide +kernel

/-- Without the empty branch of an `if` the next `else` becomes its own. -/
example :
    (Program.parse .global "if(a)if(b)throw c;else;else d()".toList).toOption.map (fun p =>
      (p.rewrite { RewriteOptions.none with conditionals := true }).print .compact) =
    some "if(a)if(b)throw c;else d()".toList := by decide +kernel

end ScriptMin
