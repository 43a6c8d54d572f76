import ScriptMin.Proofs.Rewrite.Kept
import ScriptMin.Proofs.Rewrite.Rules
import ScriptMin.Proofs.Tree.WellFormed

/-!
# Rules keep trees well formed

What a rule puts in the place of a node fits every role that the node fits, so it can be put
wherever the node stands. Rewriting as a whole keeps trees well formed, since each step of it does.
-/

namespace ScriptMin.Rewrite

open Node Source

/-! ## The relation -/

/-- A tree that can stand in the place of `n`. -/
structure KeepsForm (n n' : Node) : Prop where
  wellFormed : n'.WellFormed
  accepted : ∀ role : Role, role.accepts n.shape → role.accepts n'.shape

namespace KeepsForm

variable {n n' : Node} {role : Role}

theorem fits (h : KeepsForm n n') (hn : n.Fits role) : n'.Fits role :=
  ⟨h.accepted role hn.accepted, h.wellFormed⟩

theorem refl (hn : n.WellFormed) : KeepsForm n n :=
  ⟨hn, fun _ => id⟩

theorem trans {a b c : Node} (h : KeepsForm a b) (h' : KeepsForm b c) : KeepsForm a c :=
  ⟨h'.wellFormed, fun role ha => h'.accepted role (h.accepted role ha)⟩

/-- An expression that is no target stands where any expression can. -/
theorem expression (hn : n.shape.isExpression) (htarget : Role.target.accepts n.shape = false)
    (h : n'.Fits .expression) : KeepsForm n n' := by
  refine ⟨h.wellFormed, fun role hrole => ?_⟩
  have hexpression : n'.shape.isExpression := h.accepted
  cases role
  case expression => exact hexpression
  case arrowBody => simp [Role.accepts, hexpression]
  case target => exact absurd hrole (by simp [htarget])
  all_goals
    generalize n.shape = s at hn hrole
    cases s <;> first | (cases hn; done) | cases hrole

/-- A statement that is no block and cannot be exported stands where any statement can. -/
theorem statement (hn : n.shape.isStatement) (hbody : Role.body.accepts n.shape = false)
    (hexportable : Role.exportable.accepts n.shape = false) (h : n'.Fits .statement) :
    KeepsForm n n' := by
  refine ⟨h.wellFormed, fun role hrole => ?_⟩
  cases role
  case statement => exact h.accepted
  case body => exact absurd hrole (by simp [hbody])
  case exportable => exact absurd hrole (by simp [hexportable])
  all_goals
    generalize n.shape = s at hn hbody hrole
    cases s <;> first | (cases hn; done) | (cases hrole; done) | cases hbody

/-- Children are replaced by others that can stand in their places. -/
theorem children (span span' : Span) {s : Shape (Node × Node)} (hn : WellFormed ⟨span, s.map Prod.fst⟩)
    (h : ∀ p ∈ s.children, p.1.WellFormed → KeepsForm p.1 p.2) :
    KeepsForm ⟨span, s.map Prod.fst⟩ ⟨span', s.map Prod.snd⟩ := by
  refine ⟨wellFormed_iff.2 ?_, fun role => ?_⟩
  · have hfilled := wellFormed_iff.1 hn
    simp only [Filled, Shape.places_map, List.forall_mem_map, Prod.map, id] at hfilled ⊢
    intro p hp
    have hfits := hfilled p hp
    exact (h p.2 (Shape.mem_children_of_mem_places hp) hfits.wellFormed).fits hfits
  · simp only [Role.accepts_map]
    exact id

theorem map {g : Node → Node} (hn : n.WellFormed)
    (h : ∀ c ∈ n.shape.children, KeepsForm c (g c)) :
    KeepsForm n (n.withShape (n.shape.map g)) := by
  obtain ⟨span, shape⟩ := n
  -- Each child stands beside what it is replaced by.
  have hfst : (shape.map fun c => (c, g c)).map Prod.fst = shape := by
    rw [Shape.map_map]
    exact shape.map_id
  have hsnd : (shape.map fun c => (c, g c)).map Prod.snd = shape.map g := Shape.map_map _ _ _
  rw [Node.withShape, ← hsnd]
  have hpairs := children span span (s := shape.map fun c => (c, g c))
  rw [hfst, Shape.children_map, List.forall_mem_map] at hpairs
  exact hpairs hn fun c hc _ => h c hc

end KeepsForm

/-- Rewriting keeps trees well formed if each rule does. -/
theorem kept_keepsForm : Kept fun n n' => n.WellFormed → KeepsForm n n' where
  refl _ := .refl
  trans h h' ha := (h ha).trans (h' (h ha).wellFormed)
  congr _ _ h hn := .map hn fun c hc => h c hc (hn.child hc)

/-! ## Expressions -/

section Expressions

variable {context : Context} {n n' test value first second : Node} {span : Span}

theorem keepsForm_shortenYield (h : shortenYield context n = some n') : KeepsForm n n' := by
  obtain ⟨span, operand, -, rfl, rfl⟩ := shortenYield_eq_some h
  exact .expression rfl rfl (fits_mk rfl filled_nil)

theorem keepsForm_shortenUndefined (h : shortenUndefined context n = some n') : KeepsForm n n' := by
  obtain ⟨span, rfl, ⟨name, rfl⟩ | ⟨operator, operand, rfl⟩⟩ := shortenUndefined_eq_some h <;>
    exact .expression rfl rfl (fits_mk rfl filled_nil)

theorem fits_constant (value : Constant) (n : Node) :
    (n.withShape (value.shape n)).Fits .expression := by
  cases value with
  | number value =>
    simp only [Constant.shape]
    split
    · exact fits_mk rfl (filled_cons.2 ⟨fits_mk rfl filled_nil, filled_nil⟩)
    · exact fits_mk rfl filled_nil
  | string value => exact fits_mk rfl filled_nil
  | boolean value => exact fits_mk rfl filled_nil

theorem keepsForm_foldConstants (h : foldConstants context n = some n') : KeepsForm n n' := by
  obtain ⟨value, -, rfl, ⟨span, operator, left, right, rfl⟩ | ⟨span, operator, operand, rfl⟩⟩ :=
    foldConstants_eq_some h <;>
    exact .expression rfl rfl (fits_constant value _)

/-- An access stays one, so that it can still be assigned to. -/
theorem keepsForm_shortenAccess (hn : n.WellFormed) (h : shortenAccess context n = some n') :
    KeepsForm n n' := by
  obtain ⟨span, isOptional, parenthesised, object, span', name, rfl, hn'⟩ :=
    shortenAccess_eq_some h
  have hobject := (filled_cons.1 (wellFormed_iff.1 hn)).1
  obtain rfl | ⟨value, rfl⟩ := hn'
  · refine ⟨wellFormed_iff.2 (filled_cons.2 ⟨hobject, filled_nil⟩), fun role => ?_⟩
    cases role <;> exact id
  · have hvalue : Fits .expression ⟨span', .numberLiteral value⟩ := fits_mk rfl filled_nil
    refine ⟨wellFormed_iff.2 (filled_cons.2 ⟨hobject, filled_cons.2 ⟨hvalue, filled_nil⟩⟩),
      fun role => ?_⟩
    cases role <;> exact id

theorem keepsForm_shortenKey (hn : n.WellFormed) (h : shortenKey context n = some n') :
    KeepsForm n n' := by
  obtain ⟨span, raw, name, value, -, rfl, rfl⟩ := shortenKey_eq_some h
  have hplaces :
      Filled (Shape.places (.objectMember (.valued (.direct (String.ofList name)) value))) :=
    wellFormed_iff.1 hn
  exact ⟨wellFormed_iff.2 hplaces, fun role => by cases role <;> exact id⟩

theorem fits_sequence {elements : List Node} (h : ∀ e ∈ elements, e.Fits .expression) :
    Fits .expression ⟨span, .sequence elements⟩ :=
  fits_mk rfl (filled_each.2 h)

theorem forall_fits_of_sequence {elements : List Node}
    (hn : WellFormed ⟨span, .sequence elements⟩) : ∀ e ∈ elements, e.Fits .expression :=
  filled_each.1 (wellFormed_iff.1 hn)

theorem forall_fits_elements (hn : n.Fits .expression) : ∀ e ∈ n.elements, e.Fits .expression := by
  obtain ⟨span, shape⟩ := n
  unfold Node.elements
  split
  case h_1 hshape =>
    cases hshape
    exact forall_fits_of_sequence hn.wellFormed
  case h_2 => exact fun e he => List.mem_singleton.1 he ▸ hn

theorem fits_sequenceOf (hfirst : first.Fits .expression) (hsecond : second.Fits .expression) :
    (sequenceOf first second).Fits .expression :=
  fits_sequence fun e he => (List.mem_append.1 he).elim
    (forall_fits_elements hfirst e) (forall_fits_elements hsecond e)

theorem fits_splitNegation (htest : test.Fits .expression) :
    (splitNegation test).1.Fits .expression := by
  obtain ⟨span, shape⟩ := test
  unfold splitNegation
  split
  case h_1 operand hshape =>
    cases hshape
    exact (filled_cons.1 (wellFormed_iff.1 htest.wellFormed)).1
  case h_2 => exact htest

theorem fits_guard (htest : test.Fits .expression) (hvalue : value.Fits .expression)
    (runsIfTrue : Bool) : (Rewrite.guard test value runsIfTrue).Fits .expression :=
  fits_mk rfl (filled_cons.2 ⟨fits_splitNegation htest, filled_cons.2 ⟨hvalue, filled_nil⟩⟩)

theorem fits_choice (htest : test.Fits .expression) (hfirst : first.Fits .expression)
    (hsecond : second.Fits .expression) : (choice test first second).Fits .expression := by
  have htest := fits_splitNegation htest
  simp only [choice]
  split <;> refine fits_mk rfl ?_ <;> simp [Shape.places, htest, hfirst, hsecond]

theorem forall_fits_statementKept {elements : List Node} {n : Node} {span : Span}
    (h : ∀ e ∈ elements, e.Fits .expression) :
    Fits .statement ⟨span, statementKept n elements⟩ := by
  have hkept : ∀ e ∈ elements.filter (!isPure ·), e.Fits .expression :=
    fun e he => h e (List.mem_of_mem_filter he)
  unfold statementKept
  split
  case h_1 => exact fits_mk rfl filled_nil
  case h_2 only honly =>
    rw [honly] at hkept
    exact fits_mk rfl (filled_cons.2 ⟨hkept only List.mem_cons_self, filled_nil⟩)
  case h_3 => exact fits_mk rfl (filled_cons.2 ⟨fits_sequence hkept, filled_nil⟩)

theorem keepsForm_dropPure (hn : n.WellFormed) (h : dropPure context n = some n') :
    KeepsForm n n' := by
  obtain ⟨span, elements, kept, rfl, hkept, -, hgives⟩ | ⟨span, expression, rfl, hgives⟩ :=
    dropPure_eq_some h
  · have helements := forall_fits_of_sequence hn
    obtain ⟨rfl, -⟩ | rfl := hgives
    · exact .expression rfl rfl (helements n' (hkept.subset List.mem_cons_self))
    · exact .expression rfl rfl (fits_sequence fun e he => helements e (hkept.subset he))
  · have hexpression := (filled_cons.1 (wellFormed_iff.1 hn)).1
    obtain rfl | ⟨span', elements, rfl, -, rfl⟩ := hgives
    · exact .statement rfl rfl rfl (fits_mk rfl filled_nil)
    · have helements := forall_fits_of_sequence hexpression.wellFormed
      exact .statement rfl rfl rfl (forall_fits_statementKept helements)

end Expressions

/-! ## Statements -/

section Statements

variable {context : Context} {n n' test value : Node} {span : Span}

theorem fits_emptyStatement : Fits .statement ⟨span, .emptyStatement⟩ := fits_mk rfl filled_nil

theorem fits_expressionStatement (h : value.Fits .expression) :
    Fits .statement ⟨span, .expressionStatement value⟩ :=
  fits_mk rfl (filled_cons.2 ⟨h, filled_nil⟩)

theorem fits_returnOf (h : value.Fits .expression) : (returnOf value).Fits .statement :=
  fits_mk rfl (filled_cons.2 ⟨h, filled_nil⟩)

/-- The parts of an `if`. -/
theorem parts_if {consequent : Node} {alternate : Option Node}
    (hn : WellFormed ⟨span, .ifStatement test consequent alternate⟩) :
    test.Fits .expression ∧ consequent.Fits .statement ∧
      ∀ other ∈ alternate, other.Fits .statement := by
  simpa [wellFormed_iff, Shape.places, and_assoc] using hn

theorem fits_if {consequent : Node} {alternate : Option Node} (htest : test.Fits .expression)
    (hconsequent : consequent.Fits .statement)
    (halternate : ∀ other ∈ alternate, other.Fits .statement) :
    Fits .statement ⟨span, .ifStatement test consequent alternate⟩ := by
  refine fits_mk rfl ?_
  simpa [Shape.places, htest, hconsequent] using halternate

theorem keepsForm_dropDebugger (h : dropDebugger context n = some n') : KeepsForm n n' := by
  obtain ⟨span, rfl, rfl⟩ := dropDebugger_eq_some h
  exact .statement rfl rfl rfl fits_emptyStatement

theorem keepsForm_dropConstantBranch (hn : n.WellFormed)
    (h : dropConstantBranch context n = some n') : KeepsForm n n' := by
  obtain ⟨span, test, consequent, alternate, rfl, hn'⟩ |
    ⟨span, test, consequent, alternate, rfl, hn'⟩ := dropConstantBranch_eq_some h
  · obtain ⟨-, hconsequent, halternate⟩ := parts_if hn
    refine .statement rfl rfl rfl ?_
    obtain ⟨-, rfl⟩ | ⟨-, rfl⟩ := hn'
    · exact hconsequent
    · cases alternate with
      | none => exact fits_emptyStatement
      | some other => exact halternate other rfl
  · have hplaces := wellFormed_iff.1 hn
    simp only [Shape.places, filled_cons, filled_nil, and_true] at hplaces
    obtain ⟨-, hconsequent, halternate⟩ := hplaces
    refine .expression rfl rfl ?_
    obtain rfl | rfl := hn'
    · exact hconsequent
    · exact halternate

theorem keepsForm_loopForever (hn : n.WellFormed) (h : loopForever context n = some n') :
    KeepsForm n n' := by
  obtain ⟨span, condition, body, rfl, -, rfl⟩ | ⟨span, init, condition, post, body, rfl, -, rfl⟩ :=
    loopForever_eq_some h
  all_goals
    have hplaces := wellFormed_iff.1 hn
    refine .statement rfl rfl rfl (fits_mk rfl ?_)
    simp only [Shape.places, ForHead.places, ForInit.places, Option.toList, filled_append,
      filled_cons, filled_each] at hplaces ⊢
    simp_all

theorem fits_of_singleExpression (h : singleExpression? n = some value) :
    n.WellFormed → value.Fits .expression := by
  refine singleExpression_induction (fun span statement ih hn => ?_) h fun span hn => ?_
  · exact ih (hn.child List.mem_cons_self)
  · exact (filled_cons.1 (wellFormed_iff.1 hn)).1

theorem fits_of_singleReturn (h : singleReturn? n = some value) :
    n.WellFormed → value.Fits .expression := by
  refine singleReturn_induction (fun span statement ih hn => ?_) h fun span hn => ?_
  · exact ih (hn.child List.mem_cons_self)
  · exact (filled_cons.1 (wellFormed_iff.1 hn)).1

theorem fits_ifExpression {consequent : Node} {alternate : Option Node}
    (hn : WellFormed ⟨span, .ifStatement test consequent alternate⟩)
    (h : ifExpression? test consequent alternate = some value) : value.Fits .expression := by
  obtain ⟨htest, hconsequent, halternate⟩ := parts_if hn
  obtain ⟨rfl, -, rfl⟩ | ⟨expression, rfl, hfirst, rfl⟩ |
    ⟨other, expression, rfl, -, hsecond, rfl⟩ | ⟨other, first, second, rfl, hfirst, hsecond, rfl⟩ :=
    ifExpression?_eq_some h
  · exact htest
  · exact fits_guard htest (fits_of_singleExpression hfirst hconsequent.wellFormed) _
  · exact fits_guard htest (fits_of_singleExpression hsecond (halternate other rfl).wellFormed) _
  · exact fits_choice htest (fits_of_singleExpression hfirst hconsequent.wellFormed)
      (fits_of_singleExpression hsecond (halternate other rfl).wellFormed)

theorem keepsForm_ifToExpression (hn : n.WellFormed) (h : ifToExpression context n = some n') :
    KeepsForm n n' := by
  obtain ⟨span, test, consequent, alternate, rfl, hn'⟩ := ifToExpression_eq_some h
  refine .statement rfl rfl rfl ?_
  obtain ⟨other, rfl, -, rfl⟩ | ⟨value, hvalue, rfl⟩ := hn'
  · obtain ⟨htest, hconsequent, -⟩ := parts_if hn
    exact fits_if htest hconsequent nofun
  · exact fits_expressionStatement (fits_ifExpression hn hvalue)

theorem keepsForm_unwrapBlocks (hn : n.WellFormed) (h : unwrapBlocks context n = some n') :
    KeepsForm n n' := by
  obtain ⟨span, s, rfl, rfl, hs⟩ := unwrapBlocks_eq_some h
  have hplaces := wellFormed_iff.1 hn
  have haccepts (role : Role) (f : Node × Node → Node) := role.accepts_map f s
  refine .statement ((haccepts .statement _).trans hs.isStatement)
    ((haccepts .body _).trans hs.no_body) ((haccepts .exportable _).trans hs.not_exportable)
    (fits_mk ((haccepts .statement _).trans hs.isStatement) ?_)
  simp only [Filled, Shape.places_map, List.forall_mem_map, Prod.map, id] at hplaces ⊢
  intro p hp
  obtain hsame | ⟨hrole, span, hbraces⟩ := hs.places p hp
  · rw [hsame]
    exact hplaces p hp
  · -- The statement that was in the braces.
    have hblock := (hplaces p hp).wellFormed
    rw [hbraces] at hblock
    rw [hrole]
    exact (filled_cons.1 (wellFormed_iff.1 hblock)).1

end Statements

/-! ## Statements in a row -/

section Rows

variable {context : Context} {n n' : Node} {row row' : List Node}

/-- Statements stay statements. -/
def RowKeepsForm (row row' : List Node) : Prop :=
  (∀ n ∈ row, n.Fits .statement) → ∀ n ∈ row', n.Fits .statement

theorem rowKept_rowKeepsForm : RowKept RowKeepsForm where
  refl _ := id
  trans h h' := h' ∘ h
  cons n _ _ h hrow := by
    rw [List.forall_mem_cons] at hrow ⊢
    exact ⟨hrow.1, h hrow.2⟩

theorem forall_fits_of_statements (hstatements : statements? n = some row) (hn : n.WellFormed) :
    ∀ s ∈ row, s.Fits .statement := by
  obtain ⟨span, shape⟩ := n
  have hplaces := wellFormed_iff.1 hn
  obtain rfl | rfl | ⟨test, rfl⟩ := statements?_eq_some hstatements
  · exact filled_each.1 hplaces
  · exact filled_each.1 hplaces
  · exact filled_each.1 (filled_append.1 hplaces).2

theorem keepsForm_withStatements (hstatements : statements? n = some row)
    (hrow : RowKeepsForm row row') (hn : n.WellFormed) : KeepsForm n (withStatements n row') := by
  have hfilled := filled_each.2 (hrow (forall_fits_of_statements hstatements hn))
  obtain ⟨span, shape⟩ := n
  obtain rfl | rfl | ⟨test, rfl⟩ := statements?_eq_some hstatements
  · exact ⟨wellFormed_iff.2 hfilled, fun role => by cases role <;> exact id⟩
  · exact ⟨wellFormed_iff.2 hfilled, fun role => by cases role <;> exact id⟩
  · have htest := (filled_append.1 (wellFormed_iff.1 hn)).1
    exact ⟨wellFormed_iff.2 (filled_append.2 ⟨htest, hfilled⟩),
      fun role => by cases role <;> exact id⟩

/-- A rule on rows that keeps statements. -/
theorem keepsForm_onStatements {rule : List Node → Option (List Node)}
    (hrule : ∀ row row', rule row = some row' → RowKeepsForm row row') (hn : n.WellFormed)
    (h : onStatements rule n = some n') : KeepsForm n n' := by
  have hkeeps : Rule.Keeps (fun _ => onStatements rule) fun n n' => n.WellFormed → KeepsForm n n' :=
    keeps_onStatements hrule fun n row row' hstatements hrow =>
      keepsForm_withStatements hstatements hrow
  exact hkeeps ⟨false⟩ n n' h hn

theorem rowKeepsForm_flattened (n : Node) (rest : List Node) :
    RowKeepsForm (n :: rest) ((flattened? n).getD [n] ++ rest) := by
  cases h : flattened? n with
  | none => exact id
  | some row =>
    intro hrow
    obtain ⟨hn, hrest⟩ := List.forall_mem_cons.1 hrow
    refine List.forall_mem_append.2 ⟨?_, hrest⟩
    obtain ⟨span, shape⟩ := n
    obtain ⟨rfl, rfl⟩ | rfl := flattened?_eq_some h
    · nofun
    · exact filled_each.1 (wellFormed_iff.1 hn.wellFormed)

theorem keepsForm_flattenBlocks (hn : n.WellFormed) (h : flattenBlocks context n = some n') :
    KeepsForm n n' := by
  refine keepsForm_onStatements (fun row row' hrow => ?_) hn h
  obtain ⟨-, hrow⟩ := Option.ite_none_right_eq_some.1 hrow
  cases hrow
  exact rowKept_rowKeepsForm.flatten rowKeepsForm_flattened row

/-- A statement that two others are joined to. -/
def JoinsForm (a b joined : Node) : Prop :=
  a.Fits .statement → b.Fits .statement → joined.Fits .statement

theorem rowKeepsForm_joined {a b joined : Node} (h : JoinsForm a b joined) (rest : List Node) :
    RowKeepsForm (a :: b :: rest) (joined :: rest) := by
  intro hrow
  simp only [List.forall_mem_cons] at hrow ⊢
  exact ⟨h hrow.1 hrow.2.1, hrow.2.2⟩

theorem joinsForm_joinedVariables {a b joined : Node} (h : joinedVariables? a b = some joined) :
    JoinsForm a b joined := by
  obtain ⟨span, span', kind, first, second, rfl, ⟨spanB, spanB', rfl⟩, rfl⟩ :=
    joinedVariables?_eq_some h
  intro ha hb
  have hfirst := wellFormed_iff.1 (filled_cons.1 (wellFormed_iff.1 ha.wellFormed)).1.wellFormed
  have hsecond := wellFormed_iff.1 (filled_cons.1 (wellFormed_iff.1 hb.wellFormed)).1.wellFormed
  refine fits_mk rfl (filled_cons.2 ⟨fits_mk rfl ?_, filled_nil⟩)
  simp only [Shape.places, List.flatMap_append, filled_append] at hfirst hsecond ⊢
  exact ⟨hfirst, hsecond⟩

theorem keepsForm_joinVariables (hn : n.WellFormed) (h : joinVariables context n = some n') :
    KeepsForm n n' :=
  keepsForm_onStatements (fun _ _ => rowKept_rowKeepsForm.onNeighbours fun _ _ _ h =>
    rowKeepsForm_joined (joinsForm_joinedVariables h)) hn h

theorem joinsForm_joinedReturn {a b joined : Node} (h : joinedReturn? a b = some joined) :
    JoinsForm a b joined := by
  obtain ⟨span, test, consequent, value, alternate, rfl, hvalue, ⟨spanB, rfl⟩, rfl⟩ :=
    joinedReturn?_eq_some h
  intro ha hb
  obtain ⟨htest, hconsequent, -⟩ := parts_if ha.wellFormed
  have halternate := (filled_cons.1 (wellFormed_iff.1 hb.wellFormed)).1
  exact fits_returnOf (fits_choice htest (fits_of_singleReturn hvalue hconsequent.wellFormed)
    halternate)

theorem keepsForm_returnChoice (hn : n.WellFormed) (h : returnChoice context n = some n') :
    KeepsForm n n' := by
  obtain ⟨span, test, consequent, alternate, first, second, rfl, hfirst, hsecond, rfl⟩ | h :=
    returnChoice_eq_some h
  · obtain ⟨htest, hconsequent, halternate⟩ := parts_if hn
    exact .statement rfl rfl rfl (fits_returnOf (fits_choice htest
      (fits_of_singleReturn hfirst hconsequent.wellFormed)
      (fits_of_singleReturn hsecond (halternate alternate rfl).wellFormed)))
  · exact keepsForm_onStatements (fun _ _ => rowKept_rowKeepsForm.joinReturn fun _ _ _ h =>
      rowKeepsForm_joined (joinsForm_joinedReturn h)) hn h

theorem joinsForm_joinedExpression {a b joined : Node} (h : joinedExpression? a b = some joined) :
    JoinsForm a b joined := by
  obtain ⟨span, expression, rfl, h⟩ := joinedExpression?_eq_some h
  obtain ⟨spanB, shape⟩ := b
  obtain ⟨spanB', shape'⟩ := joined
  obtain ⟨-, h⟩ := evaluatingFirst?_eq_some h
  intro ha hb
  have hexpression := (filled_cons.1 (wellFormed_iff.1 ha.wellFormed)).1
  have hplaces := wellFormed_iff.1 hb.wellFormed
  have hfirst {value : Node} (hvalue : value.Fits .expression) := fits_sequenceOf hexpression hvalue
  cases h
  all_goals
    refine fits_mk rfl ?_
    simp only [Shape.places, ForHead.places, ForInit.places, Option.toList, filled_append,
      filled_cons] at hplaces ⊢
    simp_all

theorem keepsForm_joinExpressions (hn : n.WellFormed) (h : joinExpressions context n = some n') :
    KeepsForm n n' :=
  keepsForm_onStatements (fun _ _ => rowKept_rowKeepsForm.onNeighbours fun _ _ _ h =>
    rowKeepsForm_joined (joinsForm_joinedExpression h)) hn h

theorem fits_bareVariables (n : Node) (names : List String) :
    (bareVariables n names).Fits .statement := by
  refine fits_mk rfl (filled_cons.2 ⟨fits_mk rfl ?_, filled_nil⟩)
  rw [Shape.places, filled_flatMap, List.forall_mem_map]
  exact fun name _ => filled_cons.2 ⟨fits_mk rfl filled_nil, filled_nil⟩

theorem rowKeepsForm_keptAfter (jump : Node) (unreached : List Node) :
    RowKeepsForm unreached (keptAfter jump unreached) := by
  intro hrow n hn
  obtain hn | hn := List.mem_append.1 hn
  · split at hn
    · cases hn
    · rw [List.mem_singleton.1 hn]
      exact fits_bareVariables jump _
  · exact hrow n (List.mem_of_mem_filter hn)

theorem keepsForm_dropUnreached (hn : n.WellFormed) (h : dropUnreached context n = some n') :
    KeepsForm n n' := by
  refine keepsForm_onStatements (fun row row' hrow => ?_) hn h
  obtain ⟨before, jump, unreached, rfl, -, -, rfl⟩ := reached?_eq_some hrow
  exact rowKept_rowKeepsForm.append before
    (rowKept_rowKeepsForm.cons jump (rowKeepsForm_keptAfter jump unreached))

end Rows

/-! ## All rules -/

/-- Each rule gives a tree that can stand in the place of the one that it is applied to. -/
theorem keepsForm_of_mem_rules {o : RewriteOptions} {rule : Rule} {context : Context} {n n' : Node}
    (hrule : rule ∈ o.rules) (hn : n.WellFormed) (h : rule context n = some n') :
    KeepsForm n n' := by
  obtain ⟨-, rfl⟩ | ⟨-, rfl⟩ | ⟨-, rfl⟩ | ⟨-, rfl⟩ | ⟨-, rfl⟩ | ⟨-, rfl⟩ | ⟨-, rfl⟩ | ⟨-, rfl⟩ |
    ⟨-, rfl⟩ | ⟨-, rfl⟩ | ⟨-, rfl⟩ | ⟨-, rfl⟩ | ⟨-, rfl⟩ | ⟨-, rfl⟩ | ⟨-, rfl⟩ | ⟨-, rfl⟩ :=
    mem_rules hrule
  · exact keepsForm_dropDebugger h
  · exact keepsForm_dropUnreached hn h
  · exact keepsForm_dropConstantBranch hn h
  · exact keepsForm_shortenYield h
  · exact keepsForm_shortenUndefined h
  · exact keepsForm_foldConstants h
  · exact keepsForm_dropPure hn h
  · exact keepsForm_shortenAccess hn h
  · exact keepsForm_shortenKey hn h
  · exact keepsForm_flattenBlocks hn h
  · exact keepsForm_unwrapBlocks hn h
  · exact keepsForm_joinVariables hn h
  · exact keepsForm_loopForever hn h
  · exact keepsForm_returnChoice hn h
  · exact keepsForm_ifToExpression hn h
  · exact keepsForm_joinExpressions hn h

theorem keeps_of_mem_rules {o : RewriteOptions} {rule : Rule} (hrule : rule ∈ o.rules) :
    rule.Keeps fun n n' => n.WellFormed → KeepsForm n n' :=
  fun _ _ _ h hn => keepsForm_of_mem_rules hrule hn h

end ScriptMin.Rewrite
