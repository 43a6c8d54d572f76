import ScriptMin.Minify
import ScriptMin.Proofs.Rewrite.Kept
import ScriptMin.Proofs.Rewrite.Variables

/-!
# Variables of rewritten rows and programs

What is joined or spliced declares what was declared before. What is left out after a jump is
declared again without its value.
-/

namespace ScriptMin

open Rewrite Source

namespace Rewrite

/-! ## Rules on rows -/

/-- A row declares what another one did, and is made of what that one was made of. -/
structure RowKeepsNames (row row' : List Node) : Prop where
  kept : row.flatMap Node.varNames ⊆ row'.flatMap Node.varNames
  made : ∀ t, (∀ c ∈ row, MadeOf c t) → ∀ c ∈ row', MadeOf c t

theorem rowKept_rowKeepsNames : RowKept RowKeepsNames where
  refl row := ⟨List.Subset.refl _, fun _ h => h⟩
  trans h h' := ⟨List.Subset.trans h.kept h'.kept, fun t hrow => h'.made t (h.made t hrow)⟩
  cons n _ _ h := by
    refine ⟨?_, fun t hrow => ?_⟩
    · simp only [List.flatMap_cons]
      exact List.append_subset.2 ⟨List.subset_append_left _ _,
        List.Subset.trans h.kept (List.subset_append_right _ _)⟩
    · rw [List.forall_mem_cons] at hrow ⊢
      exact ⟨hrow.1, h.made t hrow.2⟩

theorem keepsNames_withStatements {n : Node} {row row' : List Node} (hn : statements? n = some row)
    (h : RowKeepsNames row row') : KeepsNames n (withStatements n row') := by
  obtain ⟨span, shape⟩ := n
  obtain hshape | hshape | ⟨test, hshape⟩ := statements?_eq_some hn <;> cases hshape
  case inl | inr.inl =>
    refine .of_madeOf rfl rfl ?_ ?_ (.node rfl rfl (h.made _ fun c hc => .child rfl hc))
    · intro _ h
      cases h <;> exact ⟨rfl, row', rfl⟩
    · rw [Node.varNames_eq (by simp), Node.varNames_eq (by simp [withStatements, Node.withShape])]
      exact h.kept
  case inr.inr =>
    have hmade := h.made ⟨span, .switchCase test row⟩ fun c hc =>
      .child rfl (List.mem_append_right _ hc)
    refine .of_madeOf rfl rfl (by simp) ?_ (.node rfl rfl fun c hc => ?_)
    · rw [Node.varNames_eq (by simp), Node.varNames_eq (by simp [withStatements, Node.withShape])]
      exact h.kept
    · obtain hc | hc := List.mem_append.1 hc
      · exact .child rfl (List.mem_append_left _ hc)
      · exact hmade c hc

theorem keepsNames_onStatements {rule : List Node → Option (List Node)}
    (h : ∀ row row', rule row = some row' → RowKeepsNames row row') :
    Rule.Keeps (fun _ => onStatements rule) KeepsNames :=
  keeps_onStatements h fun _ _ _ => keepsNames_withStatements

/-- A statement declares what two others did, and is made of what these were made of. -/
structure JoinsNames (a b joined : Node) : Prop where
  kept : a.varNames ++ b.varNames ⊆ joined.varNames
  made : ∀ t, MadeOf a t → MadeOf b t → MadeOf joined t

theorem JoinsNames.row {a b joined : Node} (h : JoinsNames a b joined) (rest : List Node) :
    RowKeepsNames (a :: b :: rest) (joined :: rest) where
  kept := by
    simp only [List.flatMap_cons, ← List.append_assoc]
    exact List.append_subset.2 ⟨List.Subset.trans h.kept (List.subset_append_left _ _),
      List.subset_append_right _ _⟩
  made t hrow := by
    simp only [List.forall_mem_cons] at hrow ⊢
    exact ⟨h.made t hrow.1 hrow.2.1, hrow.2.2⟩

/-- A statement is spliced into a row with the names that it had. -/
theorem rowKeepsNames_flattened (n : Node) (rest : List Node) :
    RowKeepsNames (n :: rest) ((flattened? n).getD [n] ++ rest) := by
  cases h : flattened? n with
  | none => exact rowKept_rowKeepsNames.refl _
  | some row =>
    obtain ⟨span, shape⟩ := n
    obtain ⟨rfl, rfl⟩ | rfl := flattened?_eq_some h
    · refine ⟨?_, fun t hrow => (List.forall_mem_cons.1 hrow).2⟩
      rw [List.flatMap_cons, varNames_eq_nil rfl rfl]
      exact List.Subset.refl _
    · refine ⟨?_, fun t hrow => ?_⟩
      · rw [List.flatMap_cons, Node.varNames_eq (by simp)]
        simp [Shape.statements]
      · simp only [List.forall_mem_cons, Option.getD_some, List.forall_mem_append] at hrow ⊢
        exact ⟨fun c hc => (MadeOf.child rfl hc).trans hrow.1, hrow.2⟩

theorem keepsNames_flattenBlocks : Rule.Keeps flattenBlocks KeepsNames := by
  refine keepsNames_onStatements fun row row' h => ?_
  obtain ⟨-, h⟩ := Option.ite_none_right_eq_some.1 h
  cases h
  exact rowKept_rowKeepsNames.flatten rowKeepsNames_flattened row

/-! ### Declarations -/

theorem joinsNames_joinedVariables {a b joined : Node} (h : joinedVariables? a b = some joined) :
    JoinsNames a b joined := by
  obtain ⟨span, span', kind, first, second, rfl, ⟨spanB, spanB', rfl⟩, rfl⟩ :=
    joinedVariables?_eq_some h
  refine ⟨?_, fun t ha hb => .node rfl rfl fun c hc => ?_⟩
  · simp only [Node.varNames_eq (n := ⟨_, .variableStatement _⟩) (by simp), Shape.statements,
      List.flatMap_singleton]
    cases kind
    case hoisted => simp [Node.varNames_variables]
    all_goals simp [Node.varNames_eq, Shape.statements]
  · rw [List.mem_singleton.1 hc]
    exact madeOf_variables ((MadeOf.child rfl List.mem_cons_self).trans ha)
      ((MadeOf.child rfl List.mem_cons_self).trans hb)

theorem keepsNames_joinVariables : Rule.Keeps joinVariables KeepsNames :=
  keepsNames_onStatements fun _ _ => rowKept_rowKeepsNames.onNeighbours fun _ _ _ h =>
    (joinsNames_joinedVariables h).row

/-! ### Branches that return -/

theorem joinsNames_joinedReturn {a b joined : Node} (h : joinedReturn? a b = some joined) :
    JoinsNames a b joined := by
  obtain ⟨span, test, consequent, value, alternate, rfl, hvalue, ⟨spanB, rfl⟩, rfl⟩ :=
    joinedReturn?_eq_some h
  obtain ⟨hnames, hmade⟩ := singleReturn_names hvalue
  refine ⟨?_, fun t ha hb => ?_⟩
  · have hreturn : Node.varNames ⟨spanB, .returnStatement (some alternate)⟩ = [] :=
      varNames_eq_nil rfl rfl
    rw [varNames_if, hnames, hreturn]
    exact List.nil_subset _
  · have htest : MadeOf test t := .trans (.child rfl (by simp [Shape.children])) ha
    have hconsequent : MadeOf consequent t := .trans (.child rfl (by simp [Shape.children])) ha
    have halternate : MadeOf alternate t := .trans (.child rfl (by simp [Shape.children])) hb
    exact madeOf_returnOf (madeOf_choice htest (hmade.trans hconsequent) halternate)

theorem keepsNames_returnChoice : Rule.Keeps returnChoice KeepsNames := by
  intro context n n' h
  obtain ⟨span, test, consequent, alternate, first, second, rfl, hfirst, hsecond, rfl⟩ | h :=
    returnChoice_eq_some h
  · obtain ⟨hnames, hmade⟩ := singleReturn_names hfirst
    obtain ⟨hnames', hmade'⟩ := singleReturn_names hsecond
    refine .of_madeOf rfl rfl nofun ?_ ?_
    · simp [varNames_if, hnames, hnames']
    · exact madeOf_returnOf (madeOf_choice (.child rfl (by simp [Shape.children]))
        (hmade.trans (.child rfl (by simp [Shape.children])))
        (hmade'.trans (.child rfl (by simp [Shape.children]))))
  · exact keepsNames_onStatements (fun _ _ => rowKept_rowKeepsNames.joinReturn fun _ _ _ h =>
      (joinsNames_joinedReturn h).row) context n n' h

/-! ### Expressions -/

/-- The first expression of a statement changes none of its declarations. -/
theorem evaluatingFirst_names {expression b joined : Node}
    (h : evaluatingFirst? expression b = some joined) :
    b.varNames = joined.varNames ∧
      ∀ t, MadeOf expression t → MadeOf b t → MadeOf joined t := by
  obtain ⟨span, shape⟩ := b
  unfold evaluatingFirst? at h
  split at h <;> cases h
  all_goals
    rename_i hb
    cases hb
    refine ⟨?_, fun t hexpression hb => .node rfl rfl ?_⟩
    · rw [Node.varNames_eq (by simp), Node.varNames_eq (by simp [Node.withShape])]
      rfl
    · have hparts := fun (c : Node) hc => (MadeOf.child (c := c) rfl hc).trans hb
      have hfirst (value : Node) (h : MadeOf value t) := madeOf_sequenceOf hexpression h
      simp only [Shape.children, ForHead.children, ForInit.children, Option.toList_some,
        List.forall_mem_cons, List.forall_mem_append] at hparts ⊢
      tauto

theorem joinsNames_joinedExpression {a b joined : Node} (h : joinedExpression? a b = some joined) :
    JoinsNames a b joined := by
  obtain ⟨span, expression, rfl, h⟩ := joinedExpression?_eq_some h
  obtain ⟨hnames, hmade⟩ := evaluatingFirst_names h
  refine ⟨?_, fun t ha hb => hmade t ((MadeOf.child rfl List.mem_cons_self).trans ha) hb⟩
  rw [varNames_eq_nil rfl rfl, hnames]
  exact List.Subset.refl _

theorem keepsNames_joinExpressions : Rule.Keeps joinExpressions KeepsNames :=
  keepsNames_onStatements fun _ _ => rowKept_rowKeepsNames.onNeighbours fun _ _ _ h =>
    (joinsNames_joinedExpression h).row

/-! ### Statements after a jump -/

theorem varNames_bareVariables (n : Node) (names : List String) :
    (bareVariables n names).varNames = names := by
  rw [Node.varNames_eq (by simp [bareVariables, Node.withShape])]
  simp only [bareVariables, Node.withShape, Shape.statements, List.flatMap_singleton,
    Node.varNames_variables, List.flatMap_map]
  simp [Node.boundNames, Node.fold_eq, Shape.map]

theorem rowKeepsNames_keptAfter (jump : Node) (unreached : List Node) :
    RowKeepsNames unreached (keptAfter jump unreached) := by
  have hnames (x : String) :
      x ∈ ((unreached.filter (!countsUnreached ·)).flatMap Node.hoistedNames).eraseDups ↔
        ∃ s ∈ unreached, countsUnreached s = false ∧ x ∈ s.hoistedNames := by
    simp [and_assoc]
  unfold keptAfter
  generalize ((unreached.filter (!countsUnreached ·)).flatMap Node.hoistedNames).eraseDups = names
    at hnames ⊢
  refine ⟨fun x hx => ?_, fun t hrow c hc => ?_⟩
  · rw [List.flatMap_append, List.mem_append]
    obtain ⟨s, hs, hx⟩ := List.mem_flatMap.1 hx
    -- A statement that counts is kept as it is, and the names of any other are declared again.
    cases hcounts : countsUnreached s with
    | true => exact .inr (List.mem_flatMap.2 ⟨s, List.mem_filter.2 ⟨hs, hcounts⟩, hx⟩)
    | false =>
      have hx := (hnames x).2 ⟨s, hs, hcounts, s.varNames_subset_hoistedNames hx⟩
      rw [if_neg (by simpa using List.ne_nil_of_mem hx), List.flatMap_singleton,
        varNames_bareVariables]
      exact .inl hx
  · obtain hc | hc := List.mem_append.1 hc
    · split at hc
      case isTrue => cases hc
      case isFalse =>
        rw [List.mem_singleton.1 hc]
        -- These names are looked for below expressions as well, and so in methods.
        refine madeOf_bareVariables fun x hx => ?_
        obtain ⟨s, hs, -, hx⟩ := (hnames x).1 hx
        exact (hrow s hs).vars (s.hoistedNames_subset_varNamesBelow hx)
    · exact hrow c (List.mem_filter.1 hc).1

theorem rowKeepsNames_reached {row row' : List Node} (h : reached? row = some row') :
    RowKeepsNames row row' := by
  induction row generalizing row' with
  | nil => cases h
  | cons n rest ih =>
    simp only [reached?] at h
    split at h
    case isTrue =>
      obtain ⟨-, h⟩ := Option.ite_none_left_eq_some.1 h
      cases h
      exact rowKept_rowKeepsNames.cons n (rowKeepsNames_keptAfter n rest)
    case isFalse =>
      obtain ⟨kept, hkept, rfl⟩ := Option.map_eq_some_iff.1 h
      exact rowKept_rowKeepsNames.cons n (ih hkept)

theorem keepsNames_dropUnreached : Rule.Keeps dropUnreached KeepsNames :=
  keepsNames_onStatements fun _ _ => rowKeepsNames_reached

/-! ## Whole programs -/

/-- Each rule keeps the names of variables. -/
theorem keepsNames_of_mem_rules {o : RewriteOptions} :
    ∀ rule ∈ o.rules, rule.Keeps KeepsNames := by
  intro rule h
  obtain ⟨-, rfl⟩ | ⟨-, rfl⟩ | ⟨-, rfl⟩ | ⟨-, rfl⟩ | ⟨-, rfl⟩ | ⟨-, rfl⟩ | ⟨-, rfl⟩ | ⟨-, rfl⟩ |
    ⟨-, rfl⟩ | ⟨-, rfl⟩ | ⟨-, rfl⟩ | ⟨-, rfl⟩ | ⟨-, rfl⟩ | ⟨-, rfl⟩ | ⟨-, rfl⟩ | ⟨-, rfl⟩ :=
    mem_rules h
  · exact keepsNames_dropDebugger
  · exact keepsNames_dropUnreached
  · exact keepsNames_dropConstantBranch
  · exact keepsNames_shortenYield
  · exact keepsNames_shortenUndefined
  · exact keepsNames_foldConstants
  · exact keepsNames_dropPure
  · exact keepsNames_shortenAccess
  · exact keepsNames_shortenKey
  · exact keepsNames_flattenBlocks
  · exact keepsNames_unwrapBlocks
  · exact keepsNames_joinVariables
  · exact keepsNames_loopForever
  · exact keepsNames_returnChoice
  · exact keepsNames_ifToExpression
  · exact keepsNames_joinExpressions

end Rewrite

/-- No rule takes away a variable of a program or of a function in it, and what is declared after
rewriting stood in a `var` before: below the same body, outside functions and classes, but perhaps in
a method of an object literal. A body in braces is found again in its place. -/
theorem Program.varNames_rewrite (o : RewriteOptions) (p : Program) :
    p.root.varNames ⊆ (p.rewrite o).root.varNames ∧
      (p.rewrite o).root.varNames ⊆ p.root.varNamesBelow ∧
      ∀ body' ∈ (p.rewrite o).root.functionBodies, ∃ body ∈ p.root.functionBodies,
        ((∃ row, body.shape = .block row) →
          body'.span = body.span ∧ ∃ row', body'.shape = .block row') ∧
        body.varNames ⊆ body'.varNames ∧ body'.varNames ⊆ body.varNamesBelow := by
  have h : KeepsNames p.root (p.rewrite o).root :=
    kept_keepsNames.passes keepsNames_of_mem_rules o.passLimit p.root
  refine ⟨h.kept, h.varNames_subset, fun body' hbody' => ?_⟩
  obtain ⟨body, hbody, hkeeps⟩ := h.bodies body' hbody'
  exact ⟨body, hbody, fun ⟨row, hrow⟩ => hkeeps.place row hrow, hkeeps.kept,
    hkeeps.varNames_subset⟩

/-- A `var` in a method that is left out becomes one of the function around it. -/
example :
    (Program.parse .global "function f(){return;x={m(){var y}}}".toList).toOption.map (fun p =>
      (p.rewrite { RewriteOptions.none with deadCode := true }).print .compact) =
    some "function f(){return;var y}".toList := by decide +kernel

end ScriptMin
