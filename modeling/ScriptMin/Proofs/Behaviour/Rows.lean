import ScriptMin.Proofs.Behaviour.Preserves
import ScriptMin.Proofs.Rewrite.Kept
import ScriptMin.Proofs.Rewrite.Rules

/-!
# Rules on statements in a row

What is done to statements in a row keeps what the row does, with any labels. For the rules that
join neighbours it is enough that two joined statements do what both did one after the other.
-/

namespace ScriptMin.Behaviour

open Rewrite

variable {w : World} {drops : Bool}

/-! ## Rows -/

theorem runAll_append (labels : List String) (xs ys : List Meaning) :
    runAll labels (xs ++ ys) = (do runAll labels xs; runAll labels ys) := by
  rw [runAll, List.forM_append]
  rfl

variable (w) in
/-- What the statements in a row do one after the other. -/
def rowRun (labels : List String) (body : List Node) : Run Unit :=
  runAll labels (body.map (meaning w))

variable (w) in
def rowSenses (body : List Node) : Multiset (Node × Run Unit) := (body.map (bodySenses w)).sum

@[simp]
theorem rowRun_nil (labels : List String) : rowRun w labels [] = pure () := rfl

@[simp]
theorem rowRun_cons (labels : List String) (n : Node) (rest : List Node) :
    rowRun w labels (n :: rest) = (do (meaning w n).run labels; rowRun w labels rest) := rfl

@[simp]
theorem rowRun_append (labels : List String) (first second : List Node) :
    rowRun w labels (first ++ second) = (do rowRun w labels first; rowRun w labels second) := by
  rw [rowRun, List.map_append, runAll_append]
  rfl

@[simp]
theorem rowSenses_nil : rowSenses w [] = 0 := rfl

@[simp]
theorem rowSenses_cons (n : Node) (rest : List Node) :
    rowSenses w (n :: rest) = bodySenses w n + rowSenses w rest := rfl

@[simp]
theorem rowSenses_append (first second : List Node) :
    rowSenses w (first ++ second) = rowSenses w first + rowSenses w second := by
  simp [rowSenses]

variable (w) in
/-- A row does what another one does, with function bodies of that one. -/
structure RowPreserves (body body' : List Node) : Prop where
  run : ∀ labels, rowRun w labels body' = rowRun w labels body
  bodies : rowSenses w body' = rowSenses w body

variable (w) in
theorem rowKept_rowPreserves : RowKept (RowPreserves w) where
  refl _ := ⟨fun _ => rfl, rfl⟩
  trans h h' := ⟨fun labels => (h'.run labels).trans (h.run labels), h'.bodies.trans h.bodies⟩
  cons n _ _ h :=
    ⟨fun labels => by rw [rowRun_cons, rowRun_cons, h.run],
      by rw [rowSenses_cons, rowSenses_cons, h.bodies]⟩

/-- A node with another row that does the same. -/
theorem preserves_withStatements {n : Node} {row row' : List Node} (hn : statements? n = some row)
    (h : RowPreserves w row row') : Preserves w drops n (withStatements n row') := by
  have hrun := funext h.run
  refine ⟨outline_withStatements n row', ?_, .of_eq ?_⟩
  · obtain ⟨span, shape⟩ := n
    obtain rfl | rfl | ⟨test, rfl⟩ := statements?_eq_some hn
    · rw [meaning_block]
      exact (meaning_block span row').trans (congrArg Meaning.statement hrun)
    · rw [meaning_program]
      exact (meaning_program span row').trans (congrArg Meaning.statement hrun)
    · rw [meaning_switchCase]
      refine (meaning_switchCase span test row').trans ?_
      exact congrArg (fun run => ({ run, test := _ } : Meaning)) hrun
  · obtain ⟨span, shape⟩ := n
    obtain rfl | rfl | ⟨test, rfl⟩ := statements?_eq_some hn
    all_goals
      simp only [withStatements, Node.withShape, bodySenses_mk, Shape.bodies, Shape.children,
        List.map_append, List.sum_append]
      exact congrArg _ (by first | exact h.bodies | exact congrArg _ h.bodies)

theorem preserves_onStatements {rule : List Node → Option (List Node)}
    (h : ∀ row row', rule row = some row' → RowPreserves w row row') :
    Rule.Keeps (fun _ => onStatements rule) (Preserves w drops) :=
  keeps_onStatements h fun _ _ _ => preserves_withStatements

/-! ## Joined neighbours -/

variable (w) in
/-- A statement does what two others do one after the other. -/
structure Joins (a b joined : Node) : Prop where
  run : ∀ labels, (meaning w joined).run labels = (do
    (meaning w a).run labels
    (meaning w b).run labels)
  bodies : bodySenses w joined = bodySenses w a + bodySenses w b

theorem Joins.row {a b joined : Node} (h : Joins w a b joined) (rest : List Node) :
    RowPreserves w (a :: b :: rest) (joined :: rest) where
  run labels := by simp only [rowRun_cons, h.run, bind_assoc]
  bodies := by simp only [rowSenses_cons, h.bodies, add_assoc]

/-! ## Declarations -/

theorem bodySenses_variables (span span' : Source.Span) (kind : VariableKind)
    (declarators : List (Declarator Node)) :
    bodySenses w ⟨span, .variableStatement ⟨span', .variableDeclaration kind declarators⟩⟩ =
      rowSenses w (declarators.flatMap Declarator.children) := by
  simp [bodySenses_mk, Shape.bodies, Shape.children, rowSenses]

theorem joins_joinedVariables {a b joined : Node} (h : joinedVariables? a b = some joined) :
    Joins w a b joined := by
  obtain ⟨span, span', kind, first, second, rfl, ⟨spanB, spanB', rfl⟩, rfl⟩ :=
    joinedVariables?_eq_some h
  constructor
  · intro labels
    simp [Meaning.statement]
  · simp only [bodySenses_variables, List.flatMap_append, rowSenses_append]

theorem keeps_joinVariables : Rule.Keeps joinVariables (Preserves w drops) :=
  preserves_onStatements fun _ _ => (rowKept_rowPreserves w).onNeighbours fun _ _ _ h =>
    (joins_joinedVariables h).row

/-! ## Expressions -/

/-- A row of expressions one after another, the last of which there is. -/
theorem inTurn_append (first : List (Run Value)) {second : List (Run Value)} (h : second ≠ []) :
    inTurn (first ++ second) = (do let _ ← inTurn first; inTurn second) := by
  induction first with
  | nil => simp [inTurn]
  | cons x rest ih =>
    -- `inTurn` tells the last expression from the others, and here none of `first` is the last.
    cases rest with
    | nil =>
      obtain ⟨y, ys, rfl⟩ := List.exists_cons_of_ne_nil h
      rfl
    | cons x' rest =>
      simp only [List.cons_append, inTurn, bind_assoc] at ih ⊢
      rw [ih]

theorem elements_ne_nil (n : Node) : n.elements ≠ [] := by
  unfold Node.elements
  split <;> simp

/-- An expression does what its elements do one after the other. -/
theorem inTurn_elements (n : Node) :
    inTurn (n.elements.map fun e => (meaning w e).evaluate) =
      (meaning w n).evaluate := by
  obtain ⟨span, shape⟩ := n
  unfold Node.elements
  split
  case h_1 first rest h =>
    cases h
    rw [evaluate_sequence]
  case h_2 => rfl

theorem rowSenses_elements (n : Node) : rowSenses w n.elements = bodySenses w n := by
  obtain ⟨span, shape⟩ := n
  unfold Node.elements
  split
  case h_1 first rest h =>
    cases h
    simp [bodySenses_mk, Shape.bodies, Shape.children]
    rfl
  case h_2 => simp

@[simp]
theorem evaluate_sequenceOf (first second : Node) :
    (meaning w (sequenceOf first second)).evaluate = (do
      let _ ← (meaning w first).evaluate
      (meaning w second).evaluate) := by
  have hne : second.elements.map (fun e => (meaning w e).evaluate) ≠ [] := by
    simpa using elements_ne_nil second
  rw [sequenceOf, evaluate_sequence, List.map_append, inTurn_append _ hne, inTurn_elements,
    inTurn_elements]

@[simp]
theorem bodySenses_sequenceOf (first second : Node) :
    bodySenses w (sequenceOf first second) = bodySenses w first + bodySenses w second := by
  rw [sequenceOf, bodySenses_mk]
  have happend := rowSenses_append (w := w) first.elements second.elements
  rw [rowSenses_elements, rowSenses_elements] at happend
  exact (zero_add _).trans happend

theorem joins_evaluatingFirst {span : Source.Span} {expression b joined : Node}
    (h : evaluatingFirst? expression b = some joined) :
    Joins w ⟨span, .expressionStatement expression⟩ b joined := by
  obtain ⟨spanB, shape⟩ := b
  unfold evaluatingFirst? at h
  constructor
  · intro labels
    split at h <;> cases h
    all_goals
      rename_i hb
      cases hb
      simp [Node.withShape, Meaning.statement, Run.discard, Run.returning, Run.holds, switchRun,
        loopRun, initRun, ForHead.map, ForInit.map]
  · split at h <;> cases h
    all_goals
      rename_i hb
      cases hb
      simp [Node.withShape, bodySenses_mk, Shape.bodies, Shape.children, ForHead.children,
        ForInit.children, add_assoc]

theorem joins_joinedExpression {a b joined : Node} (h : joinedExpression? a b = some joined) :
    Joins w a b joined := by
  obtain ⟨span, expression, rfl, h⟩ := joinedExpression?_eq_some h
  exact joins_evaluatingFirst h

theorem keeps_joinExpressions : Rule.Keeps joinExpressions (Preserves w drops) :=
  preserves_onStatements fun _ _ => (rowKept_rowPreserves w).onNeighbours fun _ _ _ h =>
    (joins_joinedExpression h).row

/-! ## Blocks among statements -/

/-- A statement is spliced into a row that does the same. -/
theorem rowPreserves_flattened (n : Node) (rest : List Node) :
    RowPreserves w (n :: rest) ((flattened? n).getD [n] ++ rest) := by
  cases h : flattened? n with
  | none => exact (rowKept_rowPreserves w).refl _
  | some row =>
    obtain ⟨span, shape⟩ := n
    obtain ⟨rfl, rfl⟩ | rfl := flattened?_eq_some h
    · refine ⟨fun labels => ?_, ?_⟩
      · rw [rowRun_cons, meaning_eq]
        rfl
      · simp [bodySenses_mk, Shape.bodies, Shape.children]
    · -- The labels in front of a block are those of its row.
      refine ⟨fun labels => ?_, ?_⟩
      · simp only [Option.getD_some, rowRun_append, rowRun_cons, meaning_block]
        rfl
      · simp only [Option.getD_some, rowSenses_append, rowSenses_cons, bodySenses_mk, Shape.bodies]
        exact congrArg (· + rowSenses w rest) (zero_add _).symm

theorem keeps_flattenBlocks : Rule.Keeps flattenBlocks (Preserves w drops) := by
  refine preserves_onStatements fun row row' h => ?_
  obtain ⟨-, h⟩ := Option.ite_none_right_eq_some.1 h
  cases h
  exact (rowKept_rowPreserves w).flatten rowPreserves_flattened row

end ScriptMin.Behaviour
