import ScriptMin.Proofs.Rewrite.Kept
import ScriptMin.Proofs.Rewrite.MadeOf
import ScriptMin.Proofs.Rewrite.Rules

/-!
# Rewriting keeps variables

No rule takes away a variable that the statements of a function declare, and what is declared after
rewriting stood in a `var` before. The relation passes from the children of a node to the node, for
which it has to say the same of the names in patterns.
-/

namespace ScriptMin.Rewrite

open Source

/-! ## The relation -/

/-- What rewriting keeps of the variables of some code. A block stays in its place. -/
structure KeepsVariables (n n' : Node) : Prop where
  place : ∀ body, n.shape = .block body → n'.span = n.span ∧ ∃ body', n'.shape = .block body'
  kept : n.varNames ⊆ n'.varNames
  added : n'.varNamesBelow ⊆ n.varNamesBelow

theorem KeepsVariables.refl (n : Node) : KeepsVariables n n :=
  ⟨fun body h => ⟨rfl, body, h⟩, List.Subset.refl _, List.Subset.refl _⟩

theorem KeepsVariables.trans {a b c : Node} (h : KeepsVariables a b) (h' : KeepsVariables b c) :
    KeepsVariables a c where
  place body hbody := by
    obtain ⟨hspan, body', hbody'⟩ := h.place body hbody
    obtain ⟨hspan', hbody''⟩ := h'.place body' hbody'
    exact ⟨hspan'.trans hspan, hbody''⟩
  kept := List.Subset.trans h.kept h'.kept
  added := List.Subset.trans h'.added h.added

theorem KeepsVariables.varNames_subset {n n' : Node} (h : KeepsVariables n n') :
    n'.varNames ⊆ n.varNamesBelow :=
  List.Subset.trans n'.varNames_subset_hoistedNames
    (List.Subset.trans n'.hoistedNames_subset_varNamesBelow h.added)

/-- What rewriting keeps of the names in a node and of the function bodies in it. -/
structure KeepsNames (n n' : Node) : Prop extends KeepsVariables n n' where
  bound : n.boundNames.map (·.1) ⊆ n'.boundNames.map (·.1)
  below : n'.namesBelow ⊆ n.namesBelow
  bodies : ∀ b' ∈ n'.functionBodies, ∃ b ∈ n.functionBodies, KeepsVariables b b'

theorem keepsNames_refl (n : Node) : KeepsNames n n where
  toKeepsVariables := .refl n
  bound := List.Subset.refl _
  below := List.Subset.refl _
  bodies b hb := ⟨b, hb, .refl b⟩

theorem keepsNames_trans {a b c : Node} (h : KeepsNames a b) (h' : KeepsNames b c) :
    KeepsNames a c where
  toKeepsVariables := h.toKeepsVariables.trans h'.toKeepsVariables
  bound := List.Subset.trans h.bound h'.bound
  below := List.Subset.trans h'.below h.below
  bodies x hx := by
    obtain ⟨y, hy, hxy⟩ := h'.bodies x hx
    obtain ⟨z, hz, hyz⟩ := h.bodies y hy
    exact ⟨z, hz, hyz.trans hxy⟩

section Congr

variable {n : Node} {g : Node → Node} (h : ∀ c ∈ n.shape.children, KeepsNames c (g c))

include h

theorem varNames_congr : n.varNames ⊆ (n.withShape (n.shape.map g)).varNames := by
  have hstatements : n.shape.statements.flatMap Node.varNames ⊆
      (n.shape.map g).statements.flatMap Node.varNames := by
    rw [Shape.statements_map, List.flatMap_map]
    exact Node.flatMap_subset (List.Subset.refl _) fun c hc =>
      (h c (Shape.mem_children_of_mem_statements hc)).kept
  obtain ⟨span, shape⟩ := n
  cases shape
  case variableDeclaration kind ds =>
    cases kind
    case hoisted =>
      -- Here the names are those of patterns, which is what `bound` is for.
      simp only [Node.withShape, Shape.map, Node.varNames_variables, List.flatMap_map]
      refine Node.flatMap_subset (List.Subset.refl _) fun d hd => (h d.pattern ?_).bound
      exact List.mem_flatMap.2 ⟨d, hd, List.mem_cons_self⟩
    all_goals exact List.nil_subset _
  all_goals
    rw [Node.varNames_eq (by simp), Node.varNames_eq (by simp [Node.withShape, Shape.map])]
    exact hstatements

theorem boundNames_congr :
    n.boundNames.map (·.1) ⊆ (n.withShape (n.shape.map g)).boundNames.map (·.1) := by
  have hpatterns : (n.shape.patterns.flatMap Node.boundNames).map (·.1) ⊆
      ((n.shape.map g).patterns.flatMap Node.boundNames).map (·.1) := by
    rw [Shape.patterns_map, List.flatMap_map, List.map_flatMap, List.map_flatMap]
    exact Node.flatMap_subset (List.Subset.refl _) fun c hc =>
      (h c (Shape.mem_children_of_mem_patterns hc)).bound
  obtain ⟨span, shape⟩ := n
  cases shape
  case bindingName => exact List.Subset.refl _
  all_goals
    rw [Node.boundNames_eq (by simp), Node.boundNames_eq (by simp [Node.withShape, Shape.map])]
    exact hpatterns

theorem namesBelow_congr : (n.withShape (n.shape.map g)).namesBelow ⊆ n.namesBelow := by
  have hchildren : (n.shape.map g).children.flatMap Node.namesBelow ⊆
      n.shape.children.flatMap Node.namesBelow := by
    rw [Shape.children_map, List.flatMap_map]
    exact Node.flatMap_subset (List.Subset.refl _) fun c hc => (h c hc).below
  obtain ⟨span, shape⟩ := n
  rw [Node.namesBelow, Node.collect_eq, Node.collect_eq]
  cases shape <;> first | exact hchildren | exact List.Subset.refl _

theorem varNamesBelow_congr : (n.withShape (n.shape.map g)).varNamesBelow ⊆ n.varNamesBelow := by
  have hchildren : (n.shape.map g).children.flatMap Node.varNamesBelow ⊆
      n.shape.children.flatMap Node.varNamesBelow := by
    rw [Shape.children_map, List.flatMap_map]
    exact Node.flatMap_subset (List.Subset.refl _) fun c hc => (h c hc).added
  obtain ⟨span, shape⟩ := n
  rw [Node.varNamesBelow, Node.collect_eq, Node.collect_eq]
  cases shape
  case variableDeclaration kind ds =>
    cases kind
    case hoisted =>
      show (ds.map (·.map g)).flatMap (fun d => d.pattern.namesBelow) ⊆
        ds.flatMap fun d => d.pattern.namesBelow
      rw [List.flatMap_map]
      refine Node.flatMap_subset (List.Subset.refl _) fun d hd => (h d.pattern ?_).below
      exact List.mem_flatMap.2 ⟨d, hd, List.mem_cons_self⟩
    all_goals exact hchildren
  all_goals first | exact hchildren | exact List.Subset.refl _

theorem keepsNames_congr : KeepsNames n (n.withShape (n.shape.map g)) where
  place body hbody := ⟨rfl, body.map g, by rw [Node.withShape, hbody]; rfl⟩
  kept := varNames_congr h
  added := varNamesBelow_congr h
  bound := boundNames_congr h
  below := namesBelow_congr h
  bodies b' hb' := by
    rw [Node.functionBodies_eq] at hb' ⊢
    simp only [Node.withShape, Shape.bodies_map, Shape.children_map, List.flatMap_map,
      List.mem_append, List.mem_map, List.mem_flatMap] at hb' ⊢
    -- A body is one of this node, and a child of it, or one further down.
    obtain ⟨b, hb, rfl⟩ | ⟨c, hc, hb'⟩ := hb'
    · exact ⟨b, .inl hb, (h b (Shape.mem_children_of_mem_bodies hb)).toKeepsVariables⟩
    · obtain ⟨b, hb, hkeeps⟩ := (h c hc).bodies b' hb'
      exact ⟨b, .inr ⟨c, hc, hb⟩, hkeeps⟩

end Congr

theorem kept_keepsNames : Kept KeepsNames where
  refl := keepsNames_refl
  trans := keepsNames_trans
  congr _ _ := keepsNames_congr

/-! ## Rules on single nodes -/

section Rules

variable {span : Span} {shape : Shape Node} {n' : Node}

/-- A rule that gives something made of a node that is no pattern. -/
theorem KeepsNames.of_madeOf (hplain : isPlain shape) (hpatterns : shape.patterns = [])
    (hplace : ∀ body, shape = .block body → n'.span = span ∧ ∃ body', n'.shape = .block body')
    (hkept : Node.varNames ⟨span, shape⟩ ⊆ n'.varNames) (h : MadeOf n' ⟨span, shape⟩) :
    KeepsNames ⟨span, shape⟩ n' where
  place := hplace
  kept := hkept
  added := h.vars
  bound := by
    rw [Node.boundNames_eq (by rintro name rfl; cases hplain), hpatterns]
    exact List.nil_subset _
  below := h.names
  bodies b hb := ⟨b, h.bodies hb, .refl b⟩

/-- What has no statements declares nothing. -/
theorem varNames_eq_nil (hplain : isPlain shape) (hstatements : shape.statements = []) :
    Node.varNames ⟨span, shape⟩ = [] := by
  rw [Node.varNames_eq (by rintro ds rfl; cases hplain), hstatements]
  rfl

/-- The same for a node without statements. -/
theorem KeepsNames.of_expression (hplain : isPlain shape) (hpatterns : shape.patterns = [])
    (hplace : ∀ body, shape = .block body → n'.span = span ∧ ∃ body', n'.shape = .block body')
    (hstatements : shape.statements = []) (h : MadeOf n' ⟨span, shape⟩) :
    KeepsNames ⟨span, shape⟩ n' := by
  refine .of_madeOf hplain hpatterns hplace ?_ h
  rw [varNames_eq_nil hplain hstatements]
  exact List.nil_subset _

end Rules

theorem keepsNames_dropDebugger : Rule.Keeps dropDebugger KeepsNames := by
  intro _ n n' h
  obtain ⟨span, rfl, rfl⟩ := dropDebugger_eq_some h
  exact .of_expression rfl rfl nofun rfl (.node rfl rfl nofun)

theorem keepsNames_shortenYield : Rule.Keeps shortenYield KeepsNames := by
  intro _ n n' h
  obtain ⟨span, operand, -, rfl, rfl⟩ := shortenYield_eq_some h
  exact .of_expression rfl rfl nofun rfl (.node rfl rfl nofun)

theorem keepsNames_shortenUndefined : Rule.Keeps shortenUndefined KeepsNames := by
  intro _ n n' h
  obtain ⟨span, rfl, ⟨name, rfl⟩ | ⟨operator, operand, rfl⟩⟩ := shortenUndefined_eq_some h
  all_goals exact .of_expression rfl rfl nofun rfl (.node rfl rfl nofun)

theorem keepsNames_foldConstants : Rule.Keeps foldConstants KeepsNames := by
  intro _ n n' h
  obtain ⟨value, -, rfl, ⟨span, operator, left, right, rfl⟩ | ⟨span, operator, operand, rfl⟩⟩ :=
    foldConstants_eq_some h
  all_goals exact .of_expression rfl rfl nofun rfl (madeOf_constant _ _ _)

theorem keepsNames_dropPure : Rule.Keeps dropPure KeepsNames := by
  intro _ n n' h
  obtain ⟨span, elements, kept, rfl, hkept, -, hgives⟩ | ⟨span, expression, rfl, hgives⟩ :=
    dropPure_eq_some h
  · refine .of_expression rfl rfl nofun rfl ?_
    obtain ⟨rfl, -⟩ | rfl := hgives
    · exact .child rfl (hkept.subset List.mem_cons_self)
    · exact .node rfl rfl fun e he => .child rfl (hkept.subset he)
  · refine .of_expression rfl rfl nofun rfl ?_
    obtain rfl | ⟨span', elements, rfl, -, rfl⟩ := hgives
    · exact .node rfl rfl nofun
    · exact madeOf_statementKept

theorem keepsNames_shortenAccess : Rule.Keeps shortenAccess KeepsNames := by
  intro _ n n' h
  obtain ⟨span, isOptional, parenthesised, object, span', name, rfl, hgives⟩ :=
    shortenAccess_eq_some h
  have hobject : MadeOf object
      ⟨span, .index isOptional parenthesised object ⟨span', .stringLiteral name none⟩⟩ :=
    .child rfl List.mem_cons_self
  refine .of_expression rfl rfl (by simp) rfl ?_
  obtain rfl | ⟨value, rfl⟩ := hgives
  · exact .node rfl rfl (by simpa [Shape.children] using hobject)
  · refine .node rfl rfl (List.forall_mem_cons.2 ⟨hobject, List.forall_mem_singleton.2 ?_⟩)
    exact .node rfl rfl (List.forall_mem_nil _)

theorem keepsNames_shortenKey : Rule.Keeps shortenKey KeepsNames := by
  intro _ n n' h
  obtain ⟨span, raw, name, value, -, rfl, rfl⟩ := shortenKey_eq_some h
  -- A member may be a method, so that it is not made of its children. It keeps all of them.
  refine .of_expression rfl rfl nofun rfl ⟨List.Subset.refl _, List.Subset.refl _, ?_⟩
  rw [Node.functionBodies_eq, Node.functionBodies_eq]
  exact List.Subset.refl _

/-- What is not seen outside a branch declares no variables. -/
theorem varNames_eq_nil_of_not_hoists {n : Node} (h : n.hoists = false) : n.varNames = [] := by
  induction n using Node.induction with
  | h n ih =>
    obtain ⟨span, shape⟩ := n
    have hstatements (hchildren : ((shape.map fun c => (c, c.hoists)).children.any (·.2)) = false) :
        shape.statements.flatMap Node.varNames = [] := by
      rw [Shape.children_map, List.any_map, List.any_eq_false] at hchildren
      refine List.flatMap_eq_nil_iff.2 fun c hc => ?_
      have hc := Shape.mem_children_of_mem_statements hc
      exact ih c hc (by simpa using hchildren c hc)
    rw [Node.hoists, Node.fold_eq] at h
    cases shape
    case variableDeclaration kind ds =>
      cases kind
      case hoisted => cases h
      all_goals rfl
    all_goals
      rw [Node.varNames_eq (by simp)]
      first | exact hstatements h | rfl

theorem varNames_if (span : Span) (test consequent : Node) (alternate : Option Node) :
    Node.varNames ⟨span, .ifStatement test consequent alternate⟩ =
      consequent.varNames ++ alternate.toList.flatMap Node.varNames := by
  rw [Node.varNames_eq (by simp)]
  rfl

theorem keepsNames_dropConstantBranch : Rule.Keeps dropConstantBranch KeepsNames := by
  intro _ n n' h
  obtain ⟨span, test, consequent, alternate, rfl, hgives⟩ |
    ⟨span, test, consequent, alternate, rfl, hgives⟩ := dropConstantBranch_eq_some h
  · obtain ⟨hhoists, rfl⟩ | ⟨hhoists, rfl⟩ := hgives
    · refine .of_madeOf rfl rfl (by simp) ?_ (.child rfl (by simp [Shape.children]))
      cases alternate with
      | none => simp [varNames_if]
      | some a => simp [varNames_if, varNames_eq_nil_of_not_hoists (n := a) hhoists]
    · have hnil := varNames_eq_nil_of_not_hoists hhoists
      cases alternate with
      | none =>
        refine .of_madeOf rfl rfl (by simp) ?_ (.node rfl rfl (List.forall_mem_nil _))
        simp [varNames_if, hnil]
      | some a =>
        refine .of_madeOf rfl rfl (by simp) ?_ (.child rfl (by simp [Shape.children]))
        simp [varNames_if, hnil]
  · refine .of_expression rfl rfl (by simp) rfl (.child rfl ?_)
    obtain rfl | rfl := hgives <;> simp [Shape.children]

/-! ## Braces, loops and branches -/

theorem varNames_braces (span : Span) (statement : Node) :
    Node.varNames ⟨span, .block [statement]⟩ = statement.varNames := by
  rw [Node.varNames_eq (by simp)]
  simp [Shape.statements]

/-- A statement without its braces has the names that it had. -/
theorem unwrapped_names {beforeElse : Bool} {n statement : Node}
    (h : unwrapped? beforeElse n = some statement) :
    n.varNames = statement.varNames ∧ MadeOf statement n := by
  obtain ⟨span, shape⟩ := n
  unfold unwrapped? at h
  split at h
  case h_1 only hshape =>
    cases hshape
    obtain ⟨-, h⟩ := Option.ite_none_left_eq_some.1 h
    cases h
    exact ⟨varNames_braces span _, .child rfl List.mem_cons_self⟩
  case h_2 => cases h

/-- The same where the braces stay if they have to. -/
theorem unwrapped_names_getD (beforeElse : Bool) (n : Node) :
    n.varNames = ((unwrapped? beforeElse n).getD n).varNames ∧
      MadeOf ((unwrapped? beforeElse n).getD n) n := by
  cases h : unwrapped? beforeElse n with
  | none => exact ⟨rfl, .refl n⟩
  | some statement => exact unwrapped_names h

theorem keepsNames_unwrapBlocks : Rule.Keeps unwrapBlocks KeepsNames := by
  intro _ n n' h
  obtain ⟨span, shape⟩ := n
  obtain ⟨shape', hshape, rfl⟩ := Option.map_eq_some_iff.1 h
  have hparts (hplain : isPlain shape) : ∀ c ∈ shape.children, MadeOf c ⟨span, shape⟩ :=
    fun c hc => .child hplain hc
  cases shape <;> simp only [bodyUnwrapped?, reduceCtorEq, Option.map_eq_some_iff] at hshape
  case ifStatement test consequent alternate =>
    obtain ⟨-, hshape⟩ := Option.ite_none_right_eq_some.1 hshape
    cases hshape
    have hparts := hparts rfl
    obtain ⟨hnames, hmade⟩ := unwrapped_names_getD alternate.isSome consequent
    have hconsequent := hmade.trans (hparts consequent (by simp [Shape.children]))
    have htest := hparts test (by simp [Shape.children])
    cases alternate with
    | none =>
      refine .of_madeOf rfl rfl (by simp) ?_ (.node rfl rfl ?_)
      · simp [Node.withShape, varNames_if, hnames]
      · simpa [Shape.children] using ⟨htest, hconsequent⟩
    | some a =>
      obtain ⟨hnames', hmade'⟩ := unwrapped_names_getD false a
      have ha := hmade'.trans (hparts a (by simp [Shape.children]))
      refine .of_madeOf rfl rfl (by simp) ?_ (.node rfl rfl ?_)
      · simp [Node.withShape, varNames_if, hnames, hnames']
      · simpa [Shape.children] using ⟨htest, hconsequent, ha⟩
  all_goals
    obtain ⟨statement, hstatement, rfl⟩ := hshape
    obtain ⟨hnames, hmade⟩ := unwrapped_names hstatement
    have hparts := hparts rfl
    have hbody := hmade.trans (hparts _ (by simp [Shape.children]))
    refine .of_madeOf rfl rfl (by simp) ?_ (.node rfl rfl ?_)
    · rw [Node.varNames_eq (by simp), Node.varNames_eq (by simp [Node.withShape])]
      simp [Node.withShape, Shape.statements, hnames]
    · simp only [Shape.children, List.forall_mem_cons, List.forall_mem_append] at hparts ⊢
      tauto

theorem keepsNames_loopForever : Rule.Keeps loopForever KeepsNames := by
  intro _ n n' h
  obtain ⟨span, condition, body, rfl, -, rfl⟩ | ⟨span, init, condition, post, body, rfl, -, rfl⟩ :=
    loopForever_eq_some h
  · refine .of_madeOf rfl rfl (by simp) ?_ (.node rfl rfl fun c hc => .child rfl ?_)
    · rw [Node.varNames_eq (by simp), Node.varNames_eq (by simp)]
      exact List.Subset.refl _
    · rw [List.mem_singleton.1 hc]
      simp [Shape.children]
  · refine .of_madeOf rfl rfl (by simp) ?_ (.node rfl rfl fun c hc => .child rfl ?_)
    · rw [Node.varNames_eq (by simp), Node.varNames_eq (by simp)]
      cases init <;> exact List.Subset.refl _
    · simp only [Shape.children, ForHead.children, List.mem_append] at hc ⊢
      tauto

/-- A statement that is an expression or returns one declares nothing. -/
theorem singleExpression_names {n value : Node} (h : singleExpression? n = some value) :
    n.varNames = [] ∧ MadeOf value n := by
  refine singleExpression_induction (fun span statement ih => ?_) h fun span => ?_
  · exact ⟨(varNames_braces span statement).trans ih.1, ih.2.trans (.child rfl List.mem_cons_self)⟩
  · exact ⟨varNames_eq_nil rfl rfl, .child rfl List.mem_cons_self⟩

theorem singleReturn_names {n value : Node} (h : singleReturn? n = some value) :
    n.varNames = [] ∧ MadeOf value n := by
  refine singleReturn_induction (fun span statement ih => ?_) h fun span => ?_
  · exact ⟨(varNames_braces span statement).trans ih.1, ih.2.trans (.child rfl List.mem_cons_self)⟩
  · exact ⟨varNames_eq_nil rfl rfl, .child rfl List.mem_cons_self⟩

theorem varNames_eq_nil_of_doesNothing {n : Node} (h : doesNothing n) : n.varNames = [] := by
  refine doesNothing_induction h (fun span => rfl) fun span body ih => ?_
  rw [Node.varNames_eq (by simp)]
  exact List.flatMap_eq_nil_iff.2 ih

/-- The branches of an `if` that is an expression declare nothing. -/
theorem ifExpression_names {test consequent value : Node} {alternate : Option Node} {t : Node}
    (h : ifExpression? test consequent alternate = some value) (htest : MadeOf test t)
    (hconsequent : MadeOf consequent t) (halternate : ∀ a ∈ alternate, MadeOf a t) :
    consequent.varNames ++ alternate.toList.flatMap Node.varNames = [] ∧ MadeOf value t := by
  obtain ⟨rfl, hnothing, rfl⟩ | ⟨expression, rfl, hexpression, rfl⟩ |
    ⟨other, expression, rfl, hnothing, hexpression, rfl⟩ |
    ⟨other, first, second, rfl, hfirst, hsecond, rfl⟩ := ifExpression?_eq_some h
  · exact ⟨by simp [varNames_eq_nil_of_doesNothing hnothing], htest⟩
  · obtain ⟨hnames, hmade⟩ := singleExpression_names hexpression
    exact ⟨by simp [hnames], madeOf_guard _ htest (hmade.trans hconsequent)⟩
  · obtain ⟨hnames, hmade⟩ := singleExpression_names hexpression
    exact ⟨by simp [hnames, varNames_eq_nil_of_doesNothing hnothing],
      madeOf_guard _ htest (hmade.trans (halternate other rfl))⟩
  · obtain ⟨hnames, hmade⟩ := singleExpression_names hfirst
    obtain ⟨hnames', hmade'⟩ := singleExpression_names hsecond
    exact ⟨by simp [hnames, hnames'],
      madeOf_choice htest (hmade.trans hconsequent) (hmade'.trans (halternate other rfl))⟩

theorem keepsNames_ifToExpression : Rule.Keeps ifToExpression KeepsNames := by
  intro _ n n' h
  obtain ⟨span, test, consequent, alternate, rfl, hgives⟩ := ifToExpression_eq_some h
  have hparts (c : Node) (hc : c ∈ (Shape.ifStatement test consequent alternate).children) :
      MadeOf c ⟨span, .ifStatement test consequent alternate⟩ := .child rfl hc
  have htest := hparts test (by simp [Shape.children])
  have hconsequent := hparts consequent (by simp [Shape.children])
  obtain ⟨other, rfl, hnothing, rfl⟩ | ⟨value, hvalue, rfl⟩ := hgives
  · refine .of_madeOf rfl rfl (by simp) ?_ (.node rfl rfl ?_)
    · simp [varNames_if, varNames_eq_nil_of_doesNothing hnothing]
    · simpa [Shape.children] using ⟨htest, hconsequent⟩
  · obtain ⟨hnames, hmade⟩ := ifExpression_names hvalue htest hconsequent fun a ha =>
      hparts a (by simp [Shape.children, Option.mem_def.1 ha])
    refine .of_madeOf rfl rfl (by simp) ?_ (.node rfl rfl ?_)
    · rw [varNames_if, hnames]
      exact List.nil_subset _
    · simpa [Shape.children] using hmade

end ScriptMin.Rewrite
