import ScriptMin.Proofs.Layout.Checked
import ScriptMin.Proofs.Rewrite.WellFormed
import ScriptMin.Rewrite.Checked

/-!
# Checks of rewriting

A rule with checks agrees with the rule without them on every well-formed tree, so it finds no
assumption broken. The passes over a tree agree because the trees that they come to stay well formed
(`passes_agree`).
-/

namespace ScriptMin

open Node Rewrite

namespace Rewrite

/-- A rule with checks does on well-formed trees what a rule without checks does. -/
def CheckedRule.Agrees (checked : CheckedRule) (rule : Rule) : Prop :=
  ∀ context n, n.WellFormed → checked context n = .ok (rule context n)

namespace Checked

/-! ## Statements in a row -/

theorem onStatements_eq {checked : List Node → Except InvariantError (Option (List Node))}
    {rule : List Node → Option (List Node)} (h : ∀ row, checked row = .ok (rule row)) (n : Node) :
    onStatements checked n = .ok (Rewrite.onStatements rule n) := by
  unfold onStatements Rewrite.onStatements
  cases statements? n with
  | none => rfl
  | some row => simp only [h row]; rfl

/-- Neighbours are joined without error if they are related, and are not joined otherwise. -/
structure Joins (related : Node → Node → Bool) (join : Node → Node → Except InvariantError Node)
    (join? : Node → Node → Option Node) : Prop where
  joined : ∀ {a b}, related a b = true → ∃ n, join? a b = some n ∧ join a b = .ok n
  related : ∀ {a b n}, join? a b = some n → related a b = true

namespace Joins

variable {related : Node → Node → Bool} {join : Node → Node → Except InvariantError Node}
  {join? : Node → Node → Option Node}

theorem related_eq (h : Joins related join join?) (a b : Node) :
    related a b = (join? a b).isSome := by
  rw [Bool.eq_iff_iff, Option.isSome_iff_exists]
  exact ⟨fun hab => (h.joined hab).imp fun _ => And.left, fun ⟨_, hab⟩ => h.related hab⟩

theorem eq_none (h : Joins related join join?) {a b : Node} (hab : related a b = false) :
    join? a b = none := by
  rw [h.related_eq] at hab
  simpa using hab

end Joins

/-- Adds a statement to those before it, the last of them first, or joins it to that one. -/
def joinTo (join? : Node → Node → Option Node) (before : List Node) (n : Node) : List Node :=
  match before with
  | [] => [n]
  | previous :: rest =>
    match join? previous n with
    | some joined => joined :: rest
    | none => n :: previous :: rest

/-- Statements that are added one by one come to what joining neighbours gives. -/
theorem reverse_foldl_joinTo (join? : Node → Node → Option Node) (previous : Node)
    (before row : List Node) :
    (row.foldl (joinTo join?) (previous :: before)).reverse =
      before.reverse ++ joinNeighbours.go join? previous row := by
  induction row generalizing previous before with
  | nil => simp [joinNeighbours.go]
  | cons n rest ih =>
    rw [List.foldl_cons, joinTo, joinNeighbours.go]
    cases join? previous n with
    | some joined => exact ih joined before
    | none => simp only [ih, List.reverse_cons, List.append_assoc, List.singleton_append]

theorem onNeighbours_eq {related : Node → Node → Bool}
    {add : Node → Node → Except InvariantError Node}
    {join : List Node → Node → Except InvariantError (List Node)}
    {join? : Node → Node → Option Node} (h : Joins related add join?)
    (hjoin : ∀ before n, join before n = .ok (joinTo join? before n)) (row : List Node) :
    onNeighbours related join row = .ok (Rewrite.onNeighbours join? row) := by
  have hfold : row.foldlM join [] = .ok (row.foldl (joinTo join?) []) := by
    rw [funext₂ hjoin]
    exact List.foldlM_pure
  have hjoined : (row.foldl (joinTo join?) []).reverse = joinNeighbours join? row := by
    cases row with
    | nil => rfl
    | cons n rest => exact reverse_foldl_joinTo join? n [] rest
  rw [onNeighbours, Rewrite.onNeighbours, ← funext₂ h.related_eq]
  split
  · rw [hfold, ← hjoined]
    rfl
  · rfl

/-! ### Variables -/

theorem variableKind?_eq_some {n : Node} {kind : VariableKind} (h : variableKind? n = some kind) :
    ∃ span span' declarators,
      n = ⟨span, .variableStatement ⟨span', .variableDeclaration kind declarators⟩⟩ := by
  obtain ⟨span, shape⟩ := n
  unfold variableKind? at h
  split at h
  case h_1 span' kind declarators hshape =>
    cases hshape
    cases h
    exact ⟨span, span', declarators, rfl⟩
  case h_2 => cases h

theorem joins_variables : Joins sameKind addVariables joinedVariables? where
  joined {a b} hab := by
    simp only [sameKind, Bool.and_eq_true, beq_iff_eq, Option.isSome_iff_exists] at hab
    obtain ⟨⟨kind, ha⟩, hsame⟩ := hab
    obtain ⟨span, span', first, rfl⟩ := variableKind?_eq_some ha
    obtain ⟨spanB, spanB', second, rfl⟩ := variableKind?_eq_some (hsame ▸ ha)
    exact ⟨_, if_pos rfl, rfl⟩
  related {a b n} hab := by
    obtain ⟨span, span', kind, first, second, rfl, ⟨spanB, spanB', rfl⟩, rfl⟩ :=
      joinedVariables?_eq_some hab
    simp [sameKind, variableKind?]

theorem joinVariablesTo_eq (before : List Node) (n : Node) :
    joinVariablesTo before n = .ok (joinTo joinedVariables? before n) := by
  unfold joinVariablesTo joinTo
  cases before with
  | nil => rfl
  | cons previous rest =>
    cases hsame : sameKind previous n with
    | true =>
      obtain ⟨joined, hjoined, hadd⟩ := joins_variables.joined hsame
      simp only [List.head?_cons, Option.filter_some, hsame, if_true, hadd, hjoined]
      rfl
    | false =>
      simp only [List.head?_cons, Option.filter_some, hsame, joins_variables.eq_none hsame]
      rfl

theorem agrees_joinVariables : CheckedRule.Agrees joinVariables Rewrite.joinVariables :=
  fun _ n _ => onStatements_eq (onNeighbours_eq joins_variables joinVariablesTo_eq) n

/-! ### Expressions -/

/-- A statement that has a place for an expression takes it in. -/
theorem prepend_of_absorbs {b : Node} (h : absorbs b = true) (expression : Node) :
    ∃ n, evaluatingFirst? expression b = some n ∧ prepend expression b = .ok n := by
  obtain ⟨span, shape⟩ := b
  unfold absorbs at h
  split at h
  case h_6 init condition post body hshape =>
    cases hshape
    cases init with
    | none => exact ⟨_, rfl, rfl⟩
    | expression value => exact ⟨_, rfl, rfl⟩
    | declaration value => cases h
  case h_7 => cases h
  all_goals
    rename_i hshape
    cases hshape
    exact ⟨_, rfl, rfl⟩

theorem joins_expressions : Joins canMove moveExpression joinedExpression? where
  joined {a b} hab := by
    obtain ⟨span, shape⟩ := a
    obtain ⟨ha, hb⟩ := Bool.and_eq_true_iff.1 hab
    cases shape <;> first | (cases ha; done) | exact prepend_of_absorbs hb _
  related {a b n} hab := by
    obtain ⟨span, expression, rfl, hb⟩ := joinedExpression?_eq_some hab
    obtain ⟨spanB, shape⟩ := b
    obtain ⟨spanN, shape'⟩ := n
    obtain ⟨-, hb⟩ := evaluatingFirst?_eq_some hb
    cases hb <;> rfl

theorem joinExpressionTo_eq (before : List Node) (n : Node) :
    joinExpressionTo before n = .ok (joinTo joinedExpression? before n) := by
  unfold joinExpressionTo joinTo
  cases before with
  | nil => rfl
  | cons previous rest =>
    cases hmove : canMove previous n with
    | true =>
      obtain ⟨joined, hjoined, hadd⟩ := joins_expressions.joined hmove
      simp only [List.head?_cons, Option.any_some, hmove, if_true, hadd, hjoined]
      rfl
    | false =>
      simp only [List.head?_cons, Option.any_some, hmove, joins_expressions.eq_none hmove]
      rfl

theorem agrees_joinExpressions : CheckedRule.Agrees joinExpressions Rewrite.joinExpressions :=
  fun _ n _ => onStatements_eq (onNeighbours_eq joins_expressions joinExpressionTo_eq) n

/-! ### Returns -/

theorem joins_returns : Joins returnsEither joinReturns joinedReturn? where
  joined {a b} hab := by
    obtain ⟨span, shape⟩ := a
    obtain ⟨spanB, shapeB⟩ := b
    obtain ⟨ha, hb⟩ := Bool.and_eq_true_iff.1 hab
    split at ha
    case h_1 test consequent hshape =>
      cases hshape
      obtain ⟨value, hvalue⟩ := Option.isSome_iff_exists.1 ha
      split at hb
      case h_1 alternate hshape =>
        cases hshape
        refine ⟨returnOf (choice test value alternate), ?_, ?_⟩
        · simp only [joinedReturn?, hvalue, Option.map_some]
        · simp only [joinReturns, hvalue]
      case h_2 => cases hb
    case h_2 => cases ha
  related {a b n} hab := by
    obtain ⟨span, test, consequent, value, alternate, rfl, hvalue, ⟨spanB, rfl⟩, rfl⟩ :=
      joinedReturn?_eq_some hab
    simp [returnsEither, hvalue]

theorem joinReturn_eq (row : List Node) : joinReturn row = .ok (joinReturn? row) := by
  fun_induction joinReturn? row with
  | case1 a b rest joined hjoined =>
    have hrelated := joins_returns.related hjoined
    obtain ⟨n, hn, hjoins⟩ := joins_returns.joined hrelated
    cases hjoined.symm.trans hn
    rw [joinReturn, if_pos hrelated, hjoins]
    rfl
  | case2 a b rest hjoined ih =>
    have hrelated : ¬ returnsEither a b = true := by simp [joins_returns.related_eq, hjoined]
    rw [joinReturn, if_neg hrelated, ih]
    rfl
  | case3 row hrow =>
    rw [joinReturn]
    exact hrow

theorem agrees_returnChoice : CheckedRule.Agrees returnChoice Rewrite.returnChoice := by
  intro context n hn
  have hrow := onStatements_eq joinReturn_eq n
  obtain ⟨span, shape⟩ := n
  cases shape
  case ifStatement test consequent alternate =>
    cases alternate with
    | none => exact hrow
    | some alternate =>
      simp only [returnChoice, Rewrite.returnChoice]
      cases singleReturn? consequent <;> cases singleReturn? alternate <;> rfl
  all_goals exact hrow

/-! ## Branches -/

theorem ifExpression_eq (n test consequent : Node) (alternate : Option Node) :
    ifExpression n test consequent alternate = .ok (ifExpression? test consequent alternate) := by
  cases alternate with
  | none =>
    simp only [ifExpression, ifExpression?]
    split <;> rfl
  | some alternate =>
    simp only [ifExpression, ifExpression?]
    split
    · rfl
    · cases singleExpression? consequent <;> cases singleExpression? alternate <;> rfl

theorem agrees_ifToExpression : CheckedRule.Agrees ifToExpression Rewrite.ifToExpression := by
  intro context n hn
  obtain ⟨span, shape⟩ := n
  cases shape
  case ifStatement test consequent alternate =>
    simp only [ifToExpression, Rewrite.ifToExpression, ifExpression_eq]
    split <;> rfl
  all_goals rfl

/-! ## Constants -/

/-- Both an expression over constants and its value can be printed. -/
theorem agrees_foldConstants : CheckedRule.Agrees foldConstants Rewrite.foldConstants := by
  intro context n hn
  unfold foldConstants Rewrite.foldConstants
  cases constantValue? n with
  | none => rfl
  | some value =>
    have hvalue := (fits_constant value n).wellFormed
    simp only [hvalue.printChecked, hn.printChecked]
    rfl

/-! ## All rules -/

theorem agrees_unchecked (rule : Rule) : rule.unchecked.Agrees rule := fun _ _ _ => rfl

/-- Rules that are enabled by the same flags agree if all rules do. -/
theorem agrees_enabled {checked : List (Bool × CheckedRule)} {table : List (Bool × Rule)}
    (h : List.Forall₂ (fun c r => c.1 = r.1 ∧ c.2.Agrees r.2) checked table) :
    List.Forall₂ CheckedRule.Agrees ((checked.filter (·.1)).map (·.2))
      ((table.filter (·.1)).map (·.2)) := by
  induction h with
  | nil => exact .nil
  | @cons c r checked table hfirst _ ih =>
    obtain ⟨enabled, checkedRule⟩ := c
    obtain ⟨enabled', rule⟩ := r
    obtain ⟨rfl, hagrees⟩ := hfirst
    cases enabled with
    | false => exact ih
    | true => exact .cons hagrees ih

/-- Each rule with checks does on well-formed trees what the rule does. -/
theorem agrees_rules (o : RewriteOptions) :
    List.Forall₂ CheckedRule.Agrees o.checkedRules o.rules := by
  refine agrees_enabled ?_
  simp only [List.forall₂_cons, true_and, agrees_unchecked, agrees_foldConstants,
    agrees_joinVariables, agrees_returnChoice, agrees_ifToExpression, agrees_joinExpressions,
    List.Forall₂.nil]

/-! ## Passes -/

section Passes

variable {checked : List CheckedRule} {rules : List Rule} {n : Node}
  (h : List.Forall₂ CheckedRule.Agrees checked rules)
  (hrules : ∀ rule ∈ rules, rule.Keeps fun n n' => n.WellFormed → KeepsForm n n')

include h hrules

theorem foldlM_apply_eq (context : Context) {p : Progress} (hp : p.node.WellFormed) :
    checked.foldlM (apply context) p = .ok (rules.foldl (Progress.apply context) p) := by
  induction h generalizing p with
  | nil => rfl
  | @cons checkedRule rule checked rules hfirst hrest ih =>
    have happly : apply context p checkedRule = .ok (p.apply context rule) := by
      rw [apply, hfirst context p.node hp]
      unfold Progress.apply
      cases rule context p.node <;> rfl
    have hkeeps : KeepsForm p.node (p.apply context rule).node :=
      kept_keepsForm.round
        (List.forall_mem_singleton.2 (hrules rule List.mem_cons_self)) context p hp
    rw [List.foldlM_cons, happly]
    exact ih (fun r hr => hrules r (List.mem_cons_of_mem _ hr)) hkeeps.wellFormed

theorem settle_eq (context : Context) (rounds : Nat) {p : Progress} (hp : p.node.WellFormed) :
    settle checked context rounds p = .ok (Rewrite.settle rules context rounds p) := by
  induction rounds generalizing p with
  | zero => rfl
  | succ rounds ih =>
    have hround := kept_keepsForm.round hrules context p hp
    rw [settle, foldlM_apply_eq h hrules context hp, Rewrite.settle]
    simp only [bind, Except.bind]
    split
    · rfl
    · exact ih hround.wellFormed

omit h hrules in
/-- A node whose children have come to something without error. -/
theorem passNode_eq (context : Context) (n : Node) (f : Node → Progress) :
    passNode checked context n (n.shape.map fun c => (c, .ok (f c))) =
      settle checked context roundLimit
        ⟨n.withShape (n.shape.map fun c => (f c).node),
          (n.shape.children.map fun c => (f c).count).foldl (· + ·) 0⟩ := by
  have herror : firstError? (n.shape.children.map fun c => (c, .ok (f c))) = none := by
    simp [firstError?]
  simp only [passNode, Shape.map_map, Shape.children_map, herror, List.map_map]
  rfl

theorem pass_eq (context : Context) (hn : n.WellFormed) :
    pass checked context n = .ok (Rewrite.pass rules context n) := by
  induction n using Node.induction with
  | h n ih =>
    -- The children have come to what they come to without checks.
    have hchildren : ∀ c ∈ n.shape.children,
        (c, pass checked context c) = (c, .ok (Rewrite.pass rules context c)) :=
      fun c hc => congrArg (c, ·) (ih c hc (hn.child hc))
    have hbelow : KeepsForm n _ :=
      .map hn fun c hc => kept_keepsForm.pass hrules context c (hn.child hc)
    rw [pass, Rewrite.pass, fold_eq, fold_eq, Shape.map_map, Shape.children_map, List.map_map]
    change passNode checked context n (n.shape.map fun c => (c, pass checked context c)) = _
    rw [Shape.map_congr hchildren, passNode_eq]
    exact settle_eq h hrules context roundLimit (p := ⟨_, _⟩) hbelow.wellFormed

theorem passes_eq (limit : Nat) (hn : n.WellFormed) :
    passes checked limit n = .ok (Rewrite.passes rules limit n) := by
  induction limit generalizing n with
  | zero => rfl
  | succ limit ih =>
    have hpass := kept_keepsForm.pass hrules (Context.ofRoot n) n hn
    rw [passes, pass_eq h hrules (Context.ofRoot n) hn, Rewrite.passes]
    simp only [bind, Except.bind]
    split
    · rfl
    · exact ih hpass.wellFormed

end Passes

end Checked

end Rewrite

/-- A program whose tree is well formed is rewritten without error, with checks or without. -/
theorem Program.rewriteChecked_eq (o : RewriteOptions) {p : Program} (hp : p.root.WellFormed) :
    p.rewriteChecked o = .ok (p.rewrite o) := by
  rw [rewriteChecked, rewrite, Checked.passes_eq (Checked.agrees_rules o)
    (fun _ hrule => keeps_of_mem_rules hrule) o.passLimit hp]
  rfl

theorem Program.wellFormed_rewrite (o : RewriteOptions) {p : Program} (hp : p.root.WellFormed) :
    (p.rewrite o).root.WellFormed :=
  (kept_keepsForm.passes (fun _ hrule => keeps_of_mem_rules hrule) o.passLimit p.root hp).wellFormed

end ScriptMin
