import ScriptMin.Proofs.Tree.WellFormed
import ScriptMin.Rewrite.Passes

/-!
# What each rule gives

For each rule, the nodes that it applies to and what it puts in their place. Whatever is to be shown
of a rule follows from these, and the rule itself is not unfolded again.
-/

namespace ScriptMin.Rewrite

variable {context : Context} {n n' : Node}

/-! ## Expressions -/

theorem shortenYield_eq_some (h : shortenYield context n = some n') :
    ∃ span operand, isUndefined context.bindsUndefined operand ∧
      n = ⟨span, .yieldExpression false (some operand)⟩ ∧
      n' = ⟨span, .yieldExpression false none⟩ := by
  obtain ⟨span, shape⟩ := n
  unfold shortenYield at h
  split at h
  case h_1 operand hshape =>
    cases hshape
    obtain ⟨hundefined, h⟩ := Option.ite_none_right_eq_some.1 h
    cases h
    exact ⟨span, operand, hundefined, rfl, rfl⟩
  case h_2 => cases h

theorem shortenUndefined_eq_some (h : shortenUndefined context n = some n') :
    ∃ span, n' = ⟨span, .undefinedLiteral⟩ ∧
      ((∃ name, n = ⟨span, .identifier name⟩) ∨
        ∃ operator operand, n = ⟨span, .unary operator operand⟩) := by
  obtain ⟨span, shape⟩ := n
  unfold shortenUndefined at h
  split at h
  case h_1 name hshape =>
    cases hshape
    obtain ⟨-, h⟩ := Option.ite_none_right_eq_some.1 h
    cases h
    exact ⟨span, rfl, .inl ⟨name, rfl⟩⟩
  case h_2 operator operand hshape =>
    cases hshape
    obtain ⟨-, h⟩ := Option.ite_none_right_eq_some.1 h
    cases h
    exact ⟨span, rfl, .inr ⟨operator, operand, rfl⟩⟩
  case h_3 => cases h

/-- An operator becomes a constant. -/
theorem foldConstants_eq_some (h : foldConstants context n = some n') :
    ∃ value : Constant, constantValue? n = some value ∧ n' = n.withShape (value.shape n) ∧
      ((∃ span operator left right, n = ⟨span, .binary operator left right⟩) ∨
        ∃ span operator operand, n = ⟨span, .unary operator operand⟩) := by
  obtain ⟨span, shape⟩ := n
  simp only [foldConstants, Option.bind_eq_bind, Option.bind_eq_some_iff,
    Option.ite_none_right_eq_some, Option.some.injEq] at h
  obtain ⟨value, hvalue, -, rfl⟩ := h
  refine ⟨value, hvalue, rfl, ?_⟩
  cases shape
  case binary operator left right => exact .inl ⟨span, operator, left, right, rfl⟩
  case unary operator operand => exact .inr ⟨span, operator, operand, rfl⟩
  all_goals cases hvalue

/-- Only the negation of a negated numeral has a value of its own. -/
theorem constantValue?_negation {span : Source.Span} {operand : Node} {value : Constant}
    (h : constantValue? ⟨span, .unary .negation operand⟩ = some value) :
    (∃ v, value = .number v) ∧
      ∃ spanO spanN v, operand = ⟨spanO, .unary .negation ⟨spanN, .numberLiteral v⟩⟩ := by
  obtain ⟨spanO, shape⟩ := operand
  unfold constantValue? at h
  split at h
  case h_1 hshape => cases hshape
  case h_2 => cases h
  case h_3 operator operand hnot hshape =>
    cases hshape
    simp only [Option.bind_eq_bind, Option.bind_eq_some_iff] at h
    obtain ⟨constant, hconstant, h⟩ := h
    unfold Constant.ofNode? at hconstant
    split at hconstant <;> cases hconstant
    case h_1 => cases h
    case h_2 => cases h
    case h_3 hoperand =>
      cases hoperand
      exact absurd rfl (hnot _ _ rfl)
    case h_4 hoperand =>
      cases hoperand
      cases h
      exact ⟨⟨_, rfl⟩, _, _, _, rfl⟩
  case h_4 hnot => exact absurd rfl (hnot _ _)

theorem shortenAccess_eq_some (h : shortenAccess context n = some n') :
    ∃ span isOptional parenthesised object span' name,
      n = ⟨span, .index isOptional parenthesised object ⟨span', .stringLiteral name none⟩⟩ ∧
      (n' = ⟨span, .member isOptional parenthesised object name⟩ ∨
        ∃ value,
          n' = ⟨span, .index isOptional parenthesised object ⟨span', .numberLiteral value⟩⟩) := by
  obtain ⟨span, shape⟩ := n
  unfold shortenAccess at h
  split at h
  case h_1 isOptional parenthesised object span' name hshape =>
    cases hshape
    refine ⟨span, isOptional, parenthesised, object, span', name, rfl, ?_⟩
    split at h
    · cases h
      exact .inl rfl
    · split at h
      · simp only [Option.bind_eq_bind, Option.bind_eq_some_iff] at h
        obtain ⟨value, -, h⟩ := h
        cases h
        exact .inr ⟨value, rfl⟩
      · cases h
  case h_2 => cases h

theorem shortenKey_eq_some (h : shortenKey context n = some n') :
    ∃ span raw name value, unquotedKey? raw.toList = some name ∧
      n = ⟨span, .objectMember (.valued (.direct raw) value)⟩ ∧
      n' = ⟨span, .objectMember (.valued (.direct (String.ofList name)) value)⟩ := by
  obtain ⟨span, shape⟩ := n
  unfold shortenKey at h
  split at h
  case h_1 raw value hshape =>
    cases hshape
    obtain ⟨name, hname, rfl⟩ := Option.map_eq_some_iff.1 h
    exact ⟨span, raw, name, value, hname, rfl, rfl⟩
  case h_2 => cases h

/-- Some elements of a sequence are left out. One that is left alone may stand alone. -/
theorem sequenceKept?_eq_some {elements kept : List Node} (h : sequenceKept? elements = some kept) :
    kept.Sublist elements ∧ kept.length < elements.length ∧
      ∀ only, kept = [only] → bindsWhenCalled only = false := by
  simp only [sequenceKept?, Option.bind_eq_bind, Option.bind_eq_some_iff] at h
  obtain ⟨last, hlast, h⟩ := h
  have hne : elements ≠ [] := by
    rintro rfl
    cases hlast
  have helements : elements.dropLast ++ [last] = elements := by
    rw [List.getLast?_eq_some_getLast hne, Option.some.injEq] at hlast
    rw [← hlast, List.dropLast_append_getLast]
  generalize elements.dropLast = before at h helements
  subst helements
  simp only [Bool.not_eq_eq_eq_not, Bool.not_true] at h
  split at h
  · cases h
  case isFalse hpure =>
    simp only [Bool.not_eq_false, List.any_eq_true] at hpure
    obtain ⟨e, he, hepure⟩ := hpure
    split at h
    case isTrue =>
      -- One element stays before a last one that must not stand alone.
      obtain ⟨hlength, h⟩ := Option.ite_none_left_eq_some.1 h
      cases h
      refine ⟨(List.take_sublist 1 before).append_right [last], ?_, fun only honly => ?_⟩
      · have := List.length_pos_of_mem he
        simp only [beq_iff_eq] at hlength
        simp
        omega
      · obtain _ | ⟨first, rest⟩ := before
        · cases he
        · simp at honly
    case isFalse hbinds =>
      cases h
      have hdropped : ∃ e ∈ before, ¬ (!isPure e) = true := ⟨e, he, by simpa using hepure⟩
      refine ⟨List.filter_sublist.append_right [last], ?_, fun only honly => ?_⟩
      · simpa using List.length_filter_lt_length_iff_exists.2 hdropped
      · -- The last one is alone only if all before it are pure.
        have hpure : before.all isPure := by
          have hlength := congrArg List.length honly
          simpa using hlength
        obtain rfl : last = only := by simpa using congrArg List.getLast? honly
        simpa [hpure] using hbinds

/-- A sequence becomes one of its elements or some of them, and a statement evaluates what counts of
its expression. -/
theorem dropPure_eq_some (h : dropPure context n = some n') :
    (∃ span elements kept, n = ⟨span, .sequence elements⟩ ∧ kept.Sublist elements ∧
      kept.length < elements.length ∧
      (kept = [n'] ∧ bindsWhenCalled n' = false ∨ n' = ⟨span, .sequence kept⟩)) ∨
    ∃ span expression, n = ⟨span, .expressionStatement expression⟩ ∧
      (n' = ⟨span, .emptyStatement⟩ ∨
        ∃ span' elements, expression = ⟨span', .sequence elements⟩ ∧
          elements.getLast?.any isPure ∧ n' = ⟨span, statementKept expression elements⟩) := by
  obtain ⟨span, shape⟩ := n
  unfold dropPure at h
  split at h
  case h_1 elements hshape =>
    cases hshape
    simp only [Option.bind_eq_bind, Option.bind_eq_some_iff] at h
    obtain ⟨kept, hkept, h⟩ := h
    obtain ⟨hsublist, hlength, honly⟩ := sequenceKept?_eq_some hkept
    refine .inl ⟨span, elements, kept, rfl, hsublist, hlength, ?_⟩
    split at h <;> cases h
    case h_1 => exact .inl ⟨rfl, honly _ rfl⟩
    case h_2 => exact .inr rfl
  case h_2 expression hshape =>
    cases hshape
    refine .inr ⟨span, expression, rfl, ?_⟩
    split at h
    case isTrue =>
      cases h
      exact .inl rfl
    case isFalse =>
      obtain ⟨span', shape⟩ := expression
      split at h
      case h_1 elements helements =>
        cases helements
        obtain ⟨hpure, h⟩ := Option.ite_none_right_eq_some.1 h
        cases h
        exact .inr ⟨span', elements, rfl, hpure, rfl⟩
      case h_2 => cases h
  case h_3 => cases h

/-! ## Statements -/

theorem dropDebugger_eq_some (h : dropDebugger context n = some n') :
    ∃ span, n = ⟨span, .debuggerStatement⟩ ∧ n' = ⟨span, .emptyStatement⟩ := by
  obtain ⟨span, shape⟩ := n
  cases shape <;> simp only [dropDebugger, reduceCtorEq, Option.some.injEq] at h
  case debuggerStatement => exact ⟨span, rfl, h.symm⟩

/-- An `if` becomes the branch that it takes, if nothing in the other one is seen outside, and so
does a conditional. -/
theorem dropConstantBranch_eq_some (h : dropConstantBranch context n = some n') :
    (∃ span test consequent alternate, n = ⟨span, .ifStatement test consequent alternate⟩ ∧
      (alternate.any Node.hoists = false ∧ n' = consequent ∨
        consequent.hoists = false ∧ n' = alternate.getD ⟨span, .emptyStatement⟩)) ∨
    ∃ span test consequent alternate, n = ⟨span, .conditional test consequent alternate⟩ ∧
      (n' = consequent ∨ n' = alternate) := by
  obtain ⟨span, shape⟩ := n
  unfold dropConstantBranch at h
  split at h
  case h_1 test consequent alternate hshape =>
    cases hshape
    simp only [Option.bind_eq_bind, Option.bind_eq_some_iff] at h
    obtain ⟨truth, -, h⟩ := h
    refine .inl ⟨span, test, consequent, alternate, rfl, ?_⟩
    cases truth
    case true =>
      obtain ⟨hhoists, h⟩ := Option.ite_none_left_eq_some.1 h
      cases h
      exact .inl ⟨Bool.eq_false_iff.2 hhoists, rfl⟩
    case false =>
      obtain ⟨hhoists, h⟩ := Option.ite_none_left_eq_some.1 h
      cases h
      exact .inr ⟨Bool.eq_false_iff.2 hhoists, rfl⟩
  case h_2 test consequent alternate hshape =>
    cases hshape
    simp only [Option.bind_eq_bind, Option.bind_eq_some_iff] at h
    obtain ⟨truth, -, h⟩ := h
    refine .inr ⟨span, test, consequent, alternate, rfl, ?_⟩
    cases truth
    case true =>
      cases h
      exact .inl rfl
    case false =>
      cases h
      exact .inr rfl
  case h_3 => cases h

/-- A loop with a test that is always true loses the test. -/
theorem loopForever_eq_some (h : loopForever context n = some n') :
    (∃ span condition body, n = ⟨span, .whileLoop condition body⟩ ∧ truth? condition = some true ∧
      n' = ⟨span, .forLoop (.stepped .none none none) body⟩) ∨
    ∃ span init condition post body,
      n = ⟨span, .forLoop (.stepped init (some condition) post) body⟩ ∧
      truth? condition = some true ∧ n' = ⟨span, .forLoop (.stepped init none post) body⟩ := by
  obtain ⟨span, shape⟩ := n
  unfold loopForever at h
  split at h
  case h_1 condition body hshape =>
    cases hshape
    simp only [Option.ite_none_right_eq_some, Option.some.injEq, beq_iff_eq] at h
    exact .inl ⟨span, condition, body, rfl, h.1, h.2.symm⟩
  case h_2 init condition post body hshape =>
    cases hshape
    simp only [Option.ite_none_right_eq_some, Option.some.injEq, beq_iff_eq] at h
    exact .inr ⟨span, init, condition, post, body, rfl, h.1, h.2.symm⟩
  case h_3 => cases h

/-! ## Branches -/

/-- The expression of an `if` has the part of each branch that does something. -/
theorem ifExpression?_eq_some {test consequent value : Node} {alternate : Option Node}
    (h : ifExpression? test consequent alternate = some value) :
    (alternate = none ∧ doesNothing consequent ∧ value = test) ∨
    (∃ expression, alternate = none ∧ singleExpression? consequent = some expression ∧
      value = Rewrite.guard test expression true) ∨
    (∃ other expression, alternate = some other ∧ doesNothing consequent ∧
      singleExpression? other = some expression ∧ value = Rewrite.guard test expression false) ∨
    ∃ other first second, alternate = some other ∧ singleExpression? consequent = some first ∧
      singleExpression? other = some second ∧ value = choice test first second := by
  cases alternate with
  | none =>
    simp only [ifExpression?] at h
    split at h
    case isTrue hnothing =>
      cases h
      exact .inl ⟨rfl, hnothing, rfl⟩
    case isFalse =>
      obtain ⟨expression, hexpression, rfl⟩ := Option.map_eq_some_iff.1 h
      exact .inr (.inl ⟨expression, rfl, hexpression, rfl⟩)
  | some other =>
    simp only [ifExpression?] at h
    split at h
    case isTrue hnothing =>
      obtain ⟨expression, hexpression, rfl⟩ := Option.map_eq_some_iff.1 h
      exact .inr (.inr (.inl ⟨other, expression, rfl, hnothing, hexpression, rfl⟩))
    case isFalse =>
      simp only [Option.bind_eq_bind, Option.pure_def, Option.bind_eq_some_iff,
        Option.some.injEq] at h
      obtain ⟨first, hfirst, second, hsecond, rfl⟩ := h
      exact .inr (.inr (.inr ⟨other, first, second, rfl, hfirst, hsecond, rfl⟩))

/-- An `if` loses a branch that does nothing, or becomes an expression. -/
theorem ifToExpression_eq_some (h : ifToExpression context n = some n') :
    ∃ span test consequent alternate, n = ⟨span, .ifStatement test consequent alternate⟩ ∧
      ((∃ other, alternate = some other ∧ doesNothing other ∧
        n' = ⟨span, .ifStatement test consequent none⟩) ∨
      ∃ value, ifExpression? test consequent alternate = some value ∧
        n' = ⟨span, .expressionStatement value⟩) := by
  obtain ⟨span, shape⟩ := n
  cases shape <;> simp only [ifToExpression, reduceCtorEq] at h
  case ifStatement test consequent alternate =>
    refine ⟨span, test, consequent, alternate, rfl, ?_⟩
    split at h
    case isTrue hnothing =>
      cases h
      cases alternate with
      | none => cases hnothing
      | some other => exact .inl ⟨other, rfl, hnothing, rfl⟩
    case isFalse =>
      obtain ⟨value, hvalue, rfl⟩ := Option.map_eq_some_iff.1 h
      exact .inr ⟨value, hvalue, rfl⟩

/-- An `if` that returns in both branches becomes a `return`, or two statements in a row do. -/
theorem returnChoice_eq_some (h : returnChoice context n = some n') :
    (∃ span test consequent alternate first second,
      n = ⟨span, .ifStatement test consequent (some alternate)⟩ ∧
      singleReturn? consequent = some first ∧ singleReturn? alternate = some second ∧
      n' = returnOf (choice test first second)) ∨
    onStatements joinReturn? n = some n' := by
  obtain ⟨span, shape⟩ := n
  unfold returnChoice at h
  split at h
  case h_1 test consequent alternate hshape =>
    cases hshape
    simp only [Option.bind_eq_bind, Option.pure_def, Option.bind_eq_some_iff,
      Option.some.injEq] at h
    obtain ⟨first, hfirst, second, hsecond, rfl⟩ := h
    exact .inl ⟨span, test, consequent, alternate, first, second, rfl, hfirst, hsecond, rfl⟩
  case h_2 => exact .inr h

/-! ## Statements in a row -/

theorem variableDeclaration?_eq_some {n : Node} {kind : VariableKind}
    {declarators : List (Declarator Node)} (h : variableDeclaration? n = some (kind, declarators)) :
    ∃ span span',
      n = ⟨span, .variableStatement ⟨span', .variableDeclaration kind declarators⟩⟩ := by
  obtain ⟨span, shape⟩ := n
  cases shape <;> simp only [variableDeclaration?, reduceCtorEq] at h
  case variableStatement declaration =>
    obtain ⟨span', shape⟩ := declaration
    cases shape <;> simp only [Option.some.injEq, Prod.mk.injEq, reduceCtorEq] at h
    case variableDeclaration =>
      obtain ⟨rfl, rfl⟩ := h
      exact ⟨span, span', rfl⟩

/-- Declarations of one kind are joined in the place of the first. -/
theorem joinedVariables?_eq_some {a b joined : Node} (h : joinedVariables? a b = some joined) :
    ∃ span span' kind first second,
      a = ⟨span, .variableStatement ⟨span', .variableDeclaration kind first⟩⟩ ∧
      (∃ spanB spanB', b = ⟨spanB, .variableStatement ⟨spanB', .variableDeclaration kind second⟩⟩) ∧
      joined = ⟨span, .variableStatement ⟨span', .variableDeclaration kind (first ++ second)⟩⟩ := by
  unfold joinedVariables? at h
  split at h
  case h_1 declaration kind first kind' second hshape ha hb =>
    obtain ⟨span, span', rfl⟩ := variableDeclaration?_eq_some ha
    obtain ⟨spanB, spanB', rfl⟩ := variableDeclaration?_eq_some hb
    cases hshape
    obtain ⟨rfl, hjoined⟩ := Option.ite_none_right_eq_some.1 h
    cases hjoined
    exact ⟨span, span', kind, first, second, rfl, ⟨spanB, spanB', rfl⟩, rfl⟩
  case h_2 => cases h

/-- An `if` that returns is joined to a `return`. -/
theorem joinedReturn?_eq_some {a b joined : Node} (h : joinedReturn? a b = some joined) :
    ∃ span test consequent value alternate,
      a = ⟨span, .ifStatement test consequent none⟩ ∧ singleReturn? consequent = some value ∧
      (∃ spanB, b = ⟨spanB, .returnStatement (some alternate)⟩) ∧
      joined = returnOf (choice test value alternate) := by
  obtain ⟨span, shape⟩ := a
  obtain ⟨spanB, shapeB⟩ := b
  unfold joinedReturn? at h
  split at h
  case h_1 test consequent alternate ha hb =>
    cases ha
    cases hb
    obtain ⟨value, hvalue, rfl⟩ := Option.map_eq_some_iff.1 h
    exact ⟨span, test, consequent, value, alternate, rfl, hvalue, ⟨spanB, rfl⟩, rfl⟩
  case h_2 => cases h

/-- An expression statement is joined to what evaluates it first. -/
theorem joinedExpression?_eq_some {a b joined : Node} (h : joinedExpression? a b = some joined) :
    ∃ span expression,
      a = ⟨span, .expressionStatement expression⟩ ∧ evaluatingFirst? expression b = some joined := by
  obtain ⟨span, shape⟩ := a
  cases shape <;> simp only [joinedExpression?, reduceCtorEq] at h
  case expressionStatement expression => exact ⟨span, expression, rfl, h⟩

/-- An empty statement is spliced into nothing, and a block into its row. -/
theorem flattened?_eq_some {n : Node} {row : List Node} (h : flattened? n = some row) :
    n.shape = .emptyStatement ∧ row = [] ∨ n.shape = .block row := by
  obtain ⟨span, shape⟩ := n
  cases shape <;> simp only [flattened?, Option.some.injEq, reduceCtorEq] at h
  case emptyStatement => exact .inl ⟨rfl, h.symm⟩
  case block body =>
    obtain ⟨-, h⟩ := Option.ite_none_left_eq_some.1 h
    cases h
    exact .inr rfl

/-- An expression joins the one that a statement evaluates first, if it has one. -/
inductive EvaluatesFirst (expression : Node) : Shape Node → Shape Node → Prop where
  | expressionStatement (value : Node) :
      EvaluatesFirst expression (.expressionStatement value)
        (.expressionStatement (sequenceOf expression value))
  | returnStatement (value : Node) :
      EvaluatesFirst expression (.returnStatement (some value))
        (.returnStatement (some (sequenceOf expression value)))
  | throwStatement (value : Node) :
      EvaluatesFirst expression (.throwStatement value)
        (.throwStatement (sequenceOf expression value))
  | ifStatement (test consequent : Node) (alternate : Option Node) :
      EvaluatesFirst expression (.ifStatement test consequent alternate)
        (.ifStatement (sequenceOf expression test) consequent alternate)
  | switchStatement (subject : Node) (cases : List Node) :
      EvaluatesFirst expression (.switchStatement subject cases)
        (.switchStatement (sequenceOf expression subject) cases)
  | emptyInit (condition post : Option Node) (body : Node) :
      EvaluatesFirst expression (.forLoop (.stepped .none condition post) body)
        (.forLoop (.stepped (.expression expression) condition post) body)
  | init (value : Node) (condition post : Option Node) (body : Node) :
      EvaluatesFirst expression (.forLoop (.stepped (.expression value) condition post) body)
        (.forLoop (.stepped (.expression (sequenceOf expression value)) condition post) body)

theorem evaluatingFirst?_eq_some {expression b joined : Node}
    (h : evaluatingFirst? expression b = some joined) :
    joined.span = b.span ∧ EvaluatesFirst expression b.shape joined.shape := by
  obtain ⟨span, shape⟩ := b
  unfold evaluatingFirst? at h
  split at h <;> cases h
  all_goals
    rename_i hb
    cases hb
    exact ⟨rfl, by constructor⟩

/-- What stands after the first jump of a row is cut down to what counts there. -/
theorem reached?_eq_some {row row' : List Node} (h : reached? row = some row') :
    ∃ before jump unreached, row = before ++ jump :: unreached ∧ isJump jump ∧
      (∃ n ∈ unreached, countsUnreached n = false) ∧
      row' = before ++ jump :: keptAfter jump unreached := by
  induction row generalizing row' with
  | nil => cases h
  | cons n rest ih =>
    simp only [reached?] at h
    split at h
    case isTrue hjump =>
      obtain ⟨hcounts, h⟩ := Option.ite_none_left_eq_some.1 h
      cases h
      exact ⟨[], n, rest, rfl, hjump, by simpa using hcounts, rfl⟩
    case isFalse =>
      obtain ⟨kept, hkept, rfl⟩ := Option.map_eq_some_iff.1 h
      obtain ⟨before, jump, unreached, rfl, hjump, hcounts, rfl⟩ := ih hkept
      exact ⟨n :: before, jump, unreached, rfl, hjump, hcounts, rfl⟩

/-! ## Statements in braces -/

theorem unwrapped?_eq_some {beforeElse : Bool} {n statement : Node}
    (h : unwrapped? beforeElse n = some statement) : ∃ span, n = ⟨span, .block [statement]⟩ := by
  obtain ⟨span, shape⟩ := n
  unfold unwrapped? at h
  split at h
  case h_1 only hshape =>
    cases hshape
    obtain ⟨-, h⟩ := Option.ite_none_left_eq_some.1 h
    cases h
    exact ⟨span, rfl⟩
  case h_2 => cases h

/-- A statement in braces, and the statement without them. -/
def IsUnwrapped (n n' : Node) : Prop := ∃ span, n = ⟨span, .block [n']⟩

/-- A part of a statement with what stands in its place, where braces around it may be gone. -/
def MayUnwrap (p : Role × Node × Node) : Prop :=
  p.2.2 = p.2.1 ∨ p.1 = .statement ∧ IsUnwrapped p.2.1 p.2.2

/-- Some statements in a statement lose their braces, and all other parts of it stay. -/
structure Unwraps (s : Shape (Node × Node)) : Prop where
  isStatement : s.isStatement
  no_body : Role.body.accepts s = false
  not_exportable : Role.exportable.accepts s = false
  places : ∀ p ∈ s.places, MayUnwrap p
  exists_unwrapped : ∃ p ∈ s.children, IsUnwrapped p.1 p.2

theorem mayUnwrap_getD (beforeElse : Bool) (n : Node) :
    MayUnwrap (.statement, n, (unwrapped? beforeElse n).getD n) := by
  cases h : unwrapped? beforeElse n with
  | none => exact .inl rfl
  | some statement => exact .inr ⟨rfl, unwrapped?_eq_some h⟩

theorem unwraps_if (test : Node) {consequent : Node} {alternate : Option Node}
    (h : (unwrapped? alternate.isSome consequent).isSome ∨
      (alternate.bind (unwrapped? false)).isSome) :
    Unwraps (.ifStatement (test, test)
      (consequent, (unwrapped? alternate.isSome consequent).getD consequent)
      (alternate.map fun other => (other, (unwrapped? false other).getD other))) := by
  refine ⟨rfl, rfl, rfl, ?_, ?_⟩
  · have hconsequent := mayUnwrap_getD alternate.isSome consequent
    have htest : MayUnwrap (.expression, test, test) := .inl rfl
    cases alternate with
    | none => simpa [Shape.places, Role.each] using ⟨htest, hconsequent⟩
    | some other =>
      simpa [Shape.places, Role.each] using ⟨htest, hconsequent, mayUnwrap_getD false other⟩
  · obtain h | h := h
    · obtain ⟨statement, hstatement⟩ := Option.isSome_iff_exists.1 h
      refine ⟨(consequent, statement), ?_, unwrapped?_eq_some hstatement⟩
      simp [Shape.children, hstatement]
    · obtain ⟨statement, hsome⟩ := Option.isSome_iff_exists.1 h
      obtain ⟨other, rfl, hstatement⟩ := Option.bind_eq_some_iff.1 hsome
      refine ⟨(other, statement), ?_, unwrapped?_eq_some hstatement⟩
      have hsecond : (unwrapped? false other).getD other = statement := by simp [hstatement]
      simp [Shape.children, hsecond]

theorem unwraps_body {s : Shape (Node × Node)} {body statement : Node}
    (h : IsUnwrapped body statement) (hs : s.isStatement) (hbody : Role.body.accepts s = false)
    (hexportable : Role.exportable.accepts s = false) (hmem : (body, statement) ∈ s.children)
    (hplaces : ∀ p ∈ s.places, p.2.2 = p.2.1 ∨ p = (.statement, body, statement)) : Unwraps s := by
  refine ⟨hs, hbody, hexportable, fun p hp => ?_, _, hmem, h⟩
  obtain hp | rfl := hplaces p hp
  · exact .inl hp
  · exact .inr ⟨rfl, h⟩

theorem unwrapBlocks_eq_some (h : unwrapBlocks context n = some n') :
    ∃ span, ∃ s : Shape (Node × Node),
      n = ⟨span, s.map Prod.fst⟩ ∧ n' = ⟨span, s.map Prod.snd⟩ ∧ Unwraps s := by
  obtain ⟨span, shape⟩ := n
  obtain ⟨shape', hshape, rfl⟩ := Option.map_eq_some_iff.1 h
  cases shape <;> simp only [bodyUnwrapped?, reduceCtorEq, Option.map_eq_some_iff] at hshape
  case ifStatement test consequent alternate =>
    obtain ⟨hsome, hshape⟩ := Option.ite_none_right_eq_some.1 hshape
    cases hshape
    refine ⟨span, _, ?_, ?_, unwraps_if test (Bool.or_eq_true_iff.1 hsome)⟩
    · cases alternate <;> rfl
    · cases alternate with
      | none => rfl
      | some other => cases h : unwrapped? false other <;> simp [Shape.map, Node.withShape, h]
  all_goals
    obtain ⟨statement, hstatement, rfl⟩ := hshape
    have hbody := unwrapped?_eq_some hstatement
  case whileLoop condition body =>
    refine ⟨span, .whileLoop (condition, condition) (body, statement), rfl, rfl,
      unwraps_body hbody rfl rfl rfl ?_ ?_⟩ <;> simp [Shape.places, Shape.children]
  case doWhileLoop body condition =>
    refine ⟨span, .doWhileLoop (body, statement) (condition, condition), rfl, rfl,
      unwraps_body hbody rfl rfl rfl ?_ ?_⟩ <;> simp [Shape.places, Shape.children]
  case withStatement object body =>
    refine ⟨span, .withStatement (object, object) (body, statement), rfl, rfl,
      unwraps_body hbody rfl rfl rfl ?_ ?_⟩ <;> simp [Shape.places, Shape.children]
  case labelledStatement label body =>
    refine ⟨span, .labelledStatement label (body, statement), rfl, rfl,
      unwraps_body hbody rfl rfl rfl ?_ ?_⟩ <;> simp [Shape.places, Shape.children]
  case forLoop head body =>
    have hhead (f : Node × Node → Node) (hf : f ∘ (fun c => (c, c)) = id) :
        (head.map fun c => (c, c)).map f = head := by
      rw [ForHead.map_map, hf, ForHead.map_id]
    refine ⟨span, .forLoop (head.map fun c => (c, c)) (body, statement), ?_, ?_,
      unwraps_body hbody rfl rfl rfl ?_ ?_⟩
    · rw [Shape.map, hhead _ rfl]
    · rw [Shape.map, hhead _ rfl]
      rfl
    · simp [Shape.children]
    · rw [Shape.places, ForHead.places_map]
      simp only [List.forall_mem_append, List.forall_mem_map, List.forall_mem_singleton]
      exact ⟨fun p _ => .inl rfl, .inr trivial⟩

section Braces

variable {P : Node → Prop} {value : Node}
  (block : ∀ span statement, P statement → P ⟨span, .block [statement]⟩)

include block

/-- What holds of an expression statement and passes through braces. -/
@[elab_as_elim]
theorem singleExpression_induction (h : singleExpression? n = some value)
    (expression : ∀ span, P ⟨span, .expressionStatement value⟩) : P n := by
  fun_induction singleExpression? n with
  | case1 span =>
    cases h
    exact expression span
  | case2 span statement ih => exact block span statement (ih h)
  | case3 => cases h

/-- What holds of a `return` and passes through braces. -/
@[elab_as_elim]
theorem singleReturn_induction (h : singleReturn? n = some value)
    (returned : ∀ span, P ⟨span, .returnStatement (some value)⟩) : P n := by
  fun_induction singleReturn? n with
  | case1 span =>
    cases h
    exact returned span
  | case2 span statement ih => exact block span statement (ih h)
  | case3 => cases h

end Braces

theorem doNothing_iff (ns : List Node) : doNothing ns ↔ ∀ n ∈ ns, doesNothing n := by
  induction ns with
  | nil => simp [doNothing]
  | cons n rest ih => simp [doNothing, ih]

/-- What holds of an empty statement and passes from statements to their row. -/
@[elab_as_elim]
theorem doesNothing_induction {P : Node → Prop} {n : Node} (h : doesNothing n)
    (empty : ∀ span, P ⟨span, .emptyStatement⟩)
    (block : ∀ span body, (∀ s ∈ body, P s) → P ⟨span, .block body⟩) : P n := by
  induction n using Node.induction with
  | h n ih =>
    obtain ⟨span, shape⟩ := n
    cases shape <;> simp only [doesNothing, Bool.false_eq_true] at h
    case emptyStatement => exact empty span
    case block body =>
      rw [doNothing_iff] at h
      exact block span body fun s hs => ih s hs (h s hs)

end ScriptMin.Rewrite
