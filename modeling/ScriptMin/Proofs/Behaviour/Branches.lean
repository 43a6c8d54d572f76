import ScriptMin.Proofs.Behaviour.Statements
import ScriptMin.Rewrite.Branches

/-!
# Branches that are expressions

A statement that is a single expression or a single `return`, perhaps in braces, runs as that does.
The test of an `if` may lose its negation if the branches are swapped, so that the `if` and the
expression that it becomes take the same branch.
-/

namespace ScriptMin.Behaviour

open Rewrite

variable {w : World} {drops : Bool}

/-! ## Single statements -/

theorem run_block_singleton (span : Source.Span) (statement : Node) (labels : List String) :
    (meaning w ⟨span, .block [statement]⟩).run labels =
      (meaning w statement).run labels := by
  simp [Meaning.statement, runAll]

theorem bodySenses_block_singleton (span : Source.Span) (statement : Node) :
    bodySenses w ⟨span, .block [statement]⟩ = bodySenses w statement := by
  simp [bodySenses_mk, Shape.bodies, Shape.children]

theorem run_singleExpression {n value : Node} (h : singleExpression? n = some value)
    (labels : List String) :
    (meaning w n).run labels = .discard (meaning w value).evaluate := by
  refine singleExpression_induction (fun span statement ih => ?_) h fun span => ?_
  · rw [run_block_singleton, ih]
  · rw [meaning_expressionStatement, Meaning.statement]

theorem bodySenses_singleExpression {n value : Node} (h : singleExpression? n = some value) :
    bodySenses w n = bodySenses w value := by
  refine singleExpression_induction (fun span statement ih => ?_) h fun span => ?_
  · rw [bodySenses_block_singleton, ih]
  · simp [bodySenses_mk, Shape.bodies, Shape.children]

theorem run_singleReturn {n value : Node} (h : singleReturn? n = some value)
    (labels : List String) :
    (meaning w n).run labels = .returning (meaning w value).evaluate := by
  refine singleReturn_induction (fun span statement ih => ?_) h fun span => ?_
  · rw [run_block_singleton, ih]
  · rw [meaning_returnStatement, Meaning.statement]

theorem bodySenses_singleReturn {n value : Node} (h : singleReturn? n = some value) :
    bodySenses w n = bodySenses w value := by
  refine singleReturn_induction (fun span statement ih => ?_) h fun span => ?_
  · rw [bodySenses_block_singleton, ih]
  · simp [bodySenses_mk, Shape.bodies, Shape.children]

theorem run_doesNothing {n : Node} (h : doesNothing n) (labels : List String) :
    (meaning w n).run labels = pure () := by
  refine doesNothing_induction h (fun span => ?_) fun span body ih => ?_
  · rw [meaning_eq]
    rfl
  · rw [meaning_block, Meaning.statement]
    refine forM_eq_pure fun m hm => ?_
    obtain ⟨s, hs, rfl⟩ := List.mem_map.1 hm
    exact ih s hs

theorem bodySenses_doesNothing {n : Node} (h : doesNothing n) : bodySenses w n = 0 := by
  refine doesNothing_induction h (fun span => rfl) fun span body ih => ?_
  simp only [bodySenses_mk, Shape.bodies, Shape.children, List.map_nil, Multiset.coe_nil, zero_add]
  refine List.sum_eq_zero fun x hx => ?_
  obtain ⟨s, hs, rfl⟩ := List.mem_map.1 hx
  exact ih s hs

/-! ## Tests -/

theorem holds_logicalNot (span : Source.Span) (operand : Node) :
    (meaning w ⟨span, .unary .logicalNot operand⟩).evaluate.holds = (do
      return !(← (meaning w operand).evaluate.holds)) := by
  simp [Run.holds, Value.truth]

/-- A test without its negation, which tells whether it is turned over. -/
theorem holds_splitNegation (test : Node) :
    (meaning w test).evaluate.holds = (do
      return (← (meaning w (splitNegation test).1).evaluate.holds) !=
        (splitNegation test).2) := by
  obtain ⟨span, shape⟩ := test
  unfold splitNegation
  split
  case h_1 operand h =>
    cases h
    rw [holds_logicalNot]
    simp
  case h_2 => simp

theorem bodySenses_splitNegation (test : Node) :
    bodySenses w (splitNegation test).1 = bodySenses w test := by
  obtain ⟨span, shape⟩ := test
  unfold splitNegation
  split
  case h_1 operand h =>
    cases h
    simp [bodySenses_mk, Shape.bodies, Shape.children]
  case h_2 => rfl

/-- A guarded expression is evaluated if the test comes out so. -/
theorem discard_guard (test value : Node) (runsIfTrue : Bool) :
    Run.discard (meaning w (Rewrite.guard test value runsIfTrue)).evaluate = (do
      if (← (meaning w test).evaluate.holds) = runsIfTrue then
        .discard (meaning w value).evaluate) := by
  rw [holds_splitNegation test]
  unfold Rewrite.guard
  generalize splitNegation test = split
  obtain ⟨test', negated⟩ := split
  -- The operator is `&&` if just one of the two holds, and then the value runs if the test does.
  cases negated <;> cases runsIfTrue <;> simp [Run.discard, Run.holds]
  all_goals exact bind_congr fun v => by cases v.truth <;> simp

theorem bodySenses_guard (test value : Node) (runsIfTrue : Bool) :
    bodySenses w (Rewrite.guard test value runsIfTrue) = bodySenses w test + bodySenses w value := by
  rw [← bodySenses_splitNegation test]
  unfold Rewrite.guard
  simp [bodySenses_mk, Shape.bodies, Shape.children]

theorem evaluate_choice (test consequent alternate : Node) :
    (meaning w (choice test consequent alternate)).evaluate = (do
      if ← (meaning w test).evaluate.holds then (meaning w consequent).evaluate
      else (meaning w alternate).evaluate) := by
  rw [holds_splitNegation test]
  unfold choice
  generalize splitNegation test = split
  obtain ⟨test', negated⟩ := split
  cases negated with
  | false => simp
  | true =>
    -- The branches are swapped, and the test without its negation asks the opposite.
    simp only [if_true, evaluate_conditional, bind_assoc, pure_bind]
    exact bind_congr fun b => by cases b <;> rfl

theorem bodySenses_choice (test consequent alternate : Node) :
    bodySenses w (choice test consequent alternate) =
      bodySenses w test + bodySenses w consequent + bodySenses w alternate := by
  rw [← bodySenses_splitNegation test]
  unfold choice
  generalize splitNegation test = split
  obtain ⟨test', negated⟩ := split
  cases negated <;>
    simp [bodySenses_mk, Shape.bodies, Shape.children, add_assoc, add_comm, add_left_comm]

/-! ## The rules -/

theorem bodySenses_if (span : Source.Span) (test consequent : Node) (alternate : Option Node) :
    bodySenses w ⟨span, .ifStatement test consequent alternate⟩ =
      bodySenses w test + bodySenses w consequent + rowSenses w alternate.toList := by
  simp [bodySenses_mk, Shape.bodies, Shape.children, rowSenses, add_assoc]

/-- The expression of an `if` is evaluated as the `if` runs. -/
theorem run_ifExpression {test consequent value : Node} {alternate : Option Node}
    (h : ifExpression? test consequent alternate = some value) (span : Source.Span)
    (labels : List String) :
    (meaning w ⟨span, .ifStatement test consequent alternate⟩).run labels =
      .discard (meaning w value).evaluate := by
  rw [meaning_ifStatement, Meaning.statement]
  obtain ⟨rfl, hnothing, rfl⟩ | ⟨expression, rfl, hexpression, rfl⟩ |
    ⟨other, expression, rfl, hnothing, hexpression, rfl⟩ |
    ⟨other, first, second, rfl, hfirst, hsecond, rfl⟩ := ifExpression?_eq_some h
  · simp [run_doesNothing hnothing, Run.discard, Run.holds]
  · simp [discard_guard, run_singleExpression hexpression]
  · simp only [discard_guard, run_doesNothing hnothing, Option.forM_some,
      run_singleExpression hexpression]
    -- The guard asks whether the test is false, the `if` whether it is true.
    exact bind_congr fun b => by cases b <;> rfl
  · simp only [evaluate_choice, run_singleExpression hfirst, run_singleExpression hsecond,
      Option.forM_some, Run.discard, bind_assoc]
    exact bind_congr fun b => by cases b <;> rfl

theorem bodySenses_ifExpression {test consequent value : Node} {alternate : Option Node}
    (h : ifExpression? test consequent alternate = some value) (span : Source.Span) :
    bodySenses w ⟨span, .ifStatement test consequent alternate⟩ = bodySenses w value := by
  rw [bodySenses_if]
  obtain ⟨rfl, hnothing, rfl⟩ | ⟨expression, rfl, hexpression, rfl⟩ |
    ⟨other, expression, rfl, hnothing, hexpression, rfl⟩ |
    ⟨other, first, second, rfl, hfirst, hsecond, rfl⟩ := ifExpression?_eq_some h
  · simp [bodySenses_doesNothing hnothing]
  · simp [bodySenses_guard, bodySenses_singleExpression hexpression]
  · simp [bodySenses_guard, bodySenses_singleExpression hexpression,
      bodySenses_doesNothing hnothing]
  · simp [bodySenses_choice, bodySenses_singleExpression hfirst,
      bodySenses_singleExpression hsecond]

theorem keeps_ifToExpression : Rule.Keeps ifToExpression (Preserves w drops) := by
  intro _ n n' h
  obtain ⟨span, test, consequent, alternate, rfl, hgives⟩ := ifToExpression_eq_some h
  obtain ⟨other, rfl, hnothing, rfl⟩ | ⟨value, hvalue, rfl⟩ := hgives
  · refine preserves_of_isStatement rfl rfl ?_ (.of_eq ?_)
    · simp [run_doesNothing hnothing]
    · simp [bodySenses_if, bodySenses_doesNothing hnothing]
  · refine preserves_of_isStatement rfl rfl ?_ (.of_eq ?_)
    · rw [meaning_expressionStatement, meaning_ifStatement]
      refine congrArg Meaning.statement (funext fun labels => ?_)
      rw [← run_ifExpression hvalue span labels, meaning_ifStatement, Meaning.statement]
    · rw [bodySenses_ifExpression hvalue]
      simp [bodySenses_mk, Shape.bodies, Shape.children]

/-! ## Branches that return -/

theorem returning_bind {α : Type} (test : Run α) (value : α → Run Value) :
    Run.returning (test >>= value) = (do let a ← test; .returning (value a)) := by
  simp [Run.returning]

theorem run_returnOf (value : Node) (labels : List String) :
    (meaning w (returnOf value)).run labels =
      .returning (meaning w value).evaluate := by
  rw [returnOf, meaning_returnStatement, Meaning.statement]

theorem bodySenses_returnOf (value : Node) : bodySenses w (returnOf value) = bodySenses w value := by
  simp [returnOf, bodySenses_mk, Shape.bodies, Shape.children]

/-- A choice between two values is returned as the `if` that returns them does. -/
theorem returning_choice (test consequent alternate : Node) :
    Run.returning (meaning w (choice test consequent alternate)).evaluate = (do
      if ← (meaning w test).evaluate.holds then
        .returning (meaning w consequent).evaluate
      else .returning (meaning w alternate).evaluate) := by
  rw [evaluate_choice, returning_bind]
  exact bind_congr fun b => by cases b <;> rfl

/-- A `return` ends a row. -/
theorem returning_then (value : Run Value) (rest : Run Unit) :
    (do Run.returning value; rest) = Run.returning value := by
  simp only [Run.returning, bind_assoc]
  rfl

theorem joins_joinedReturn {a b joined : Node} (h : joinedReturn? a b = some joined) :
    Joins w a b joined := by
  obtain ⟨span, test, consequent, value, alternate, rfl, hvalue, ⟨spanB, rfl⟩, rfl⟩ :=
    joinedReturn?_eq_some h
  constructor
  · intro labels
    rw [run_returnOf, returning_choice, meaning_ifStatement, meaning_returnStatement,
      Meaning.statement, Meaning.statement, bind_assoc]
    refine bind_congr fun b => ?_
    cases b with
    -- Where the `if` returns, the second statement is never run.
    | true => simp only [if_true, run_singleReturn hvalue, returning_then]
    | false => rfl
  · simp [bodySenses_returnOf, bodySenses_choice, bodySenses_singleReturn hvalue, bodySenses_mk,
      Shape.bodies, Shape.children]

theorem keeps_returnChoice : Rule.Keeps returnChoice (Preserves w drops) := by
  intro context n n' h
  obtain ⟨span, test, consequent, alternate, first, second, rfl, hfirst, hsecond, rfl⟩ | h :=
    returnChoice_eq_some h
  · refine preserves_of_isStatement rfl rfl ?_ (.of_eq ?_)
    · rw [returnOf, meaning_returnStatement, meaning_ifStatement]
      simp only [returning_choice, run_singleReturn hfirst, run_singleReturn hsecond,
        Option.forM_some]
    · simp [bodySenses_returnOf, bodySenses_choice, bodySenses_if,
        bodySenses_singleReturn hfirst, bodySenses_singleReturn hsecond]
  · -- Two statements in a row, as in the rules that join neighbours.
    exact preserves_onStatements (fun _ _ => (rowKept_rowPreserves w).joinReturn fun _ _ _ h =>
      (joins_joinedReturn h).row) context n n' h

end ScriptMin.Behaviour
