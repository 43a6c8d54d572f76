import ScriptMin.Proofs.Tree.Variables
import ScriptMin.Rewrite.Passes

/-!
# What code is made of

`MadeOf` says that code has no names or function bodies but those of other code. Most rules give
something that is made of the node they are applied to: a child of it, or a plain node whose children
are made of it.
-/

namespace ScriptMin.Rewrite

open Source

/-- The names in `m`, and the function bodies, are among those in `t`. -/
structure MadeOf (m t : Node) : Prop where
  names : m.namesBelow ⊆ t.namesBelow
  vars : m.varNamesBelow ⊆ t.varNamesBelow
  bodies : m.functionBodies ⊆ t.functionBodies

/-- Whether a node is neither a function or a class, nor a name, nor a declaration of variables. -/
def isPlain {α : Type} (s : Shape α) : Bool :=
  !s.isFunction && !(s matches .bindingName _ | .variableDeclaration ..)

theorem namesBelow_of_isPlain {n : Node} (h : isPlain n.shape) :
    n.namesBelow = n.shape.children.flatMap Node.namesBelow := by
  rw [Node.namesBelow, Node.collect_eq]
  obtain ⟨span, shape⟩ := n
  cases shape <;> first | rfl | cases h

theorem varNamesBelow_of_isPlain {n : Node} (h : isPlain n.shape) :
    n.varNamesBelow = n.shape.children.flatMap Node.varNamesBelow := by
  rw [Node.varNamesBelow, Node.collect_eq]
  obtain ⟨span, shape⟩ := n
  cases shape <;> first | rfl | cases h

namespace MadeOf

variable {a b c m t n : Node}

theorem refl (n : Node) : MadeOf n n :=
  ⟨List.Subset.refl _, List.Subset.refl _, List.Subset.refl _⟩

theorem trans (h : MadeOf a b) (h' : MadeOf b c) : MadeOf a c :=
  ⟨List.Subset.trans h.names h'.names, List.Subset.trans h.vars h'.vars,
    List.Subset.trans h.bodies h'.bodies⟩

/-- A child is a part of a plain node. -/
theorem child (h : isPlain n.shape) (hc : c ∈ n.shape.children) : MadeOf c n where
  names x hx := by
    rw [namesBelow_of_isPlain h]
    exact List.mem_flatMap.2 ⟨c, hc, hx⟩
  vars x hx := by
    rw [varNamesBelow_of_isPlain h]
    exact List.mem_flatMap.2 ⟨c, hc, hx⟩
  bodies x hx := by
    rw [Node.functionBodies_eq]
    exact List.mem_append_right _ (List.mem_flatMap.2 ⟨c, hc, hx⟩)

/-- A plain node that is no member is made of what its children are made of. -/
theorem node {span : Span} {shape : Shape Node} (h : isPlain shape) (hbodies : shape.bodies = [])
    (hc : ∀ c ∈ shape.children, MadeOf c t) : MadeOf ⟨span, shape⟩ t where
  names x hx := by
    rw [namesBelow_of_isPlain h] at hx
    obtain ⟨c, hmem, hx⟩ := List.mem_flatMap.1 hx
    exact (hc c hmem).names hx
  vars x hx := by
    rw [varNamesBelow_of_isPlain h] at hx
    obtain ⟨c, hmem, hx⟩ := List.mem_flatMap.1 hx
    exact (hc c hmem).vars hx
  bodies x hx := by
    rw [Node.functionBodies_eq, hbodies] at hx
    obtain ⟨c, hmem, hx⟩ := List.mem_flatMap.1 hx
    exact (hc c hmem).bodies hx

end MadeOf

/-! ## Expressions -/

theorem madeOf_constant (c : Constant) (n t : Node) : MadeOf (n.withShape (c.shape n)) t := by
  cases c with
  | number value =>
    simp only [Constant.shape]
    split
    · refine .node rfl rfl fun c hc => ?_
      rw [List.mem_singleton.1 hc]
      exact .node rfl rfl nofun
    · exact .node rfl rfl nofun
  | string value => exact .node rfl rfl nofun
  | boolean value => exact .node rfl rfl nofun

/-- A statement keeps some elements of its sequence. -/
theorem madeOf_statementKept {span span' : Span} {elements : List Node} :
    MadeOf ⟨span, statementKept ⟨span', .sequence elements⟩ elements⟩
      ⟨span, .expressionStatement ⟨span', .sequence elements⟩⟩ := by
  have hchild : ∀ e ∈ elements.filter (!isPure ·),
      MadeOf e ⟨span, .expressionStatement ⟨span', .sequence elements⟩⟩ := fun e he =>
    (MadeOf.child (n := ⟨span', .sequence elements⟩) rfl (List.mem_of_mem_filter he)).trans
      (.child rfl List.mem_cons_self)
  unfold statementKept
  split
  case h_1 => exact .node rfl rfl nofun
  case h_2 only honly =>
    refine .node rfl rfl fun c hc => hchild c ?_
    rw [honly]
    exact hc
  case h_3 =>
    refine .node rfl rfl fun c hc => ?_
    rw [List.mem_singleton.1 hc]
    exact .node rfl rfl hchild

theorem madeOf_splitNegation (test : Node) : MadeOf (splitNegation test).1 test := by
  obtain ⟨span, shape⟩ := test
  unfold splitNegation
  split
  case h_1 operand h =>
    cases h
    exact .child rfl List.mem_cons_self
  case h_2 => exact .refl _

theorem madeOf_guard {test value t : Node} (runsIfTrue : Bool) (htest : MadeOf test t)
    (hvalue : MadeOf value t) : MadeOf (Rewrite.guard test value runsIfTrue) t := by
  refine .node rfl rfl ?_
  simpa [Shape.children] using ⟨(madeOf_splitNegation test).trans htest, hvalue⟩

theorem madeOf_choice {test consequent alternate t : Node} (htest : MadeOf test t)
    (hconsequent : MadeOf consequent t) (halternate : MadeOf alternate t) :
    MadeOf (choice test consequent alternate) t := by
  have htest := (madeOf_splitNegation test).trans htest
  unfold choice
  generalize splitNegation test = split at htest
  obtain ⟨test', negated⟩ := split
  -- A negation swaps the branches.
  cases negated
  · exact .node rfl rfl (by simpa [Shape.children] using ⟨htest, hconsequent, halternate⟩)
  · exact .node rfl rfl (by simpa [Shape.children] using ⟨htest, halternate, hconsequent⟩)

theorem madeOf_returnOf {value t : Node} (h : MadeOf value t) : MadeOf (returnOf value) t :=
  .node rfl rfl (by simpa [Shape.children] using h)

theorem madeOf_elements {n e : Node} (h : e ∈ n.elements) : MadeOf e n := by
  obtain ⟨span, shape⟩ := n
  unfold Node.elements at h
  split at h
  case h_1 first rest hshape =>
    cases hshape
    exact .child rfl h
  case h_2 =>
    rw [List.mem_singleton.1 h]
    exact .refl _

theorem madeOf_sequenceOf {first second t : Node} (h : MadeOf first t) (h' : MadeOf second t) :
    MadeOf (sequenceOf first second) t := by
  refine .node rfl rfl fun e he => ?_
  obtain he | he := List.mem_append.1 he
  · exact (madeOf_elements he).trans h
  · exact (madeOf_elements he).trans h'

/-! ## Declarations -/

/-- What a declaration declares, its declarators declare one by one. -/
theorem madeOf_variables {span spanA spanB : Span} {kind : VariableKind}
    {first second : List (Declarator Node)} {t : Node}
    (h : MadeOf ⟨spanA, .variableDeclaration kind first⟩ t)
    (h' : MadeOf ⟨spanB, .variableDeclaration kind second⟩ t) :
    MadeOf ⟨span, .variableDeclaration kind (first ++ second)⟩ t where
  names := by
    have happend : Node.namesBelow ⟨span, .variableDeclaration kind (first ++ second)⟩ =
        Node.namesBelow ⟨spanA, .variableDeclaration kind first⟩ ++
          Node.namesBelow ⟨spanB, .variableDeclaration kind second⟩ := by
      simp [Node.namesBelow, Node.collect_eq, Shape.isFunction, Shape.children]
    rw [happend]
    exact List.append_subset.2 ⟨h.names, h'.names⟩
  vars := by
    have happend : Node.varNamesBelow ⟨span, .variableDeclaration kind (first ++ second)⟩ =
        Node.varNamesBelow ⟨spanA, .variableDeclaration kind first⟩ ++
          Node.varNamesBelow ⟨spanB, .variableDeclaration kind second⟩ := by
      cases kind <;> simp [Node.varNamesBelow, Node.collect_eq, Shape.isFunction, Shape.children]
    rw [happend]
    exact List.append_subset.2 ⟨h.vars, h'.vars⟩
  bodies := by
    have happend : Node.functionBodies ⟨span, .variableDeclaration kind (first ++ second)⟩ =
        Node.functionBodies ⟨spanA, .variableDeclaration kind first⟩ ++
          Node.functionBodies ⟨spanB, .variableDeclaration kind second⟩ := by
      simp [Node.functionBodies_eq, Shape.bodies, Shape.children]
    rw [happend]
    exact List.append_subset.2 ⟨h.bodies, h'.bodies⟩

/-- Names declared again without a value. -/
theorem madeOf_bareVariables {n t : Node} {names : List String} (h : names ⊆ t.varNamesBelow) :
    MadeOf (bareVariables n names) t := by
  refine .node rfl rfl fun c hc => ?_
  obtain rfl := List.mem_singleton.1 hc
  refine ⟨fun x hx => ?_, fun x hx => ?_, fun x hx => ?_⟩
  -- The declaration has the names themselves and nothing else.
  · simp [Node.namesBelow, Node.collect_eq, Shape.isFunction, Shape.children, Node.withShape,
      Declarator.children] at hx
    exact t.varNamesBelow_subset_namesBelow (h hx)
  · simp [Node.varNamesBelow, Node.namesBelow, Node.collect_eq, Shape.isFunction,
      Node.withShape] at hx
    exact h hx
  · simp [Node.functionBodies_eq (n := ⟨_, _⟩), Shape.bodies, Shape.children, Node.withShape,
      Declarator.children] at hx

end ScriptMin.Rewrite
