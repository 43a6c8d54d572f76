import ScriptMin.Proofs.Rewrite.Kept
import ScriptMin.Proofs.Rewrite.Rules
import ScriptMin.Proofs.Setting.Widens

/-!
# Rules keep trees legal

What a rule puts in the place of a node is legal wherever the node is. Expressions may come to stand
in other statements, but in the same function and the same loops, and statements lose only braces.
-/

namespace ScriptMin.Rewrite

open Node Source

/-! ## The relation -/

/-- A tree that is legal wherever `n` is. -/
def KeepsLegal (n n' : Node) : Prop :=
  ∀ s : Setting, n.Legal s → n'.Legal s

/-- Children are replaced by others that are legal where they are. -/
theorem keepsLegal_map {α : Type} (span : Span) {shape : Shape α} (f g : α → Node)
    (h : ∀ c ∈ shape.children, KeepsLegal (f c) (g c)) :
    KeepsLegal ⟨span, shape.map f⟩ ⟨span, shape.map g⟩ := by
  intro s hn
  refine legal_mk ((s.allows_map g shape).2 ((s.allows_map f shape).1 hn.allows)) ?_
  have haround := hn.around
  rw [Shape.around_map] at haround ⊢
  intro p hp
  obtain ⟨q, hq, rfl⟩ := List.mem_map.1 hp
  exact h q.2 (Shape.mem_children_of_mem_around hq) q.1 (haround _ (List.mem_map_of_mem hq))

theorem kept_keepsLegal : Kept KeepsLegal where
  refl _ _ := id
  trans h h' s := h' s ∘ h s
  congr := by
    rintro ⟨span, shape⟩ g h
    have hmap := keepsLegal_map span id g h
    rwa [Shape.map_id] at hmap

/-! ## Expressions -/

section Expressions

variable {context : Context} {n n' test value first second : Node} {span : Span} {s : Setting}

/-- A node that is allowed everywhere and has no children. -/
theorem legal_leaf {shape : Shape Node} (h : shape.isPlain) (hallows : s.Allows shape)
    (hchildren : shape.children = []) : Legal s ⟨span, shape⟩ :=
  legal_plain h hallows (by simp [hchildren])

theorem keepsLegal_shortenYield (h : shortenYield context n = some n') : KeepsLegal n n' := by
  obtain ⟨span, operand, -, rfl, rfl⟩ := shortenYield_eq_some h
  exact fun s hn => legal_leaf rfl hn.allows rfl

theorem keepsLegal_shortenUndefined (h : shortenUndefined context n = some n') :
    KeepsLegal n n' := by
  obtain ⟨span, rfl, -⟩ := shortenUndefined_eq_some h
  exact fun s _ => legal_leaf rfl ⟨trivial, trivial⟩ rfl

theorem legal_constant (value : Constant) (n : Node) (s : Setting) :
    (n.withShape (value.shape n)).Legal s := by
  cases value with
  | number value =>
    simp only [Constant.shape]
    split
    · refine legal_plain rfl ⟨trivial, trivial⟩ fun c hc => ?_
      rw [List.mem_singleton.1 hc]
      exact legal_leaf rfl ⟨trivial, trivial⟩ rfl
    · exact legal_leaf rfl ⟨trivial, trivial⟩ rfl
  | string value => exact legal_leaf rfl ⟨trivial, trivial⟩ rfl
  | boolean value => exact legal_leaf rfl ⟨trivial, trivial⟩ rfl

theorem keepsLegal_foldConstants (h : foldConstants context n = some n') : KeepsLegal n n' := by
  obtain ⟨value, -, rfl, -⟩ := foldConstants_eq_some h
  exact fun s _ => legal_constant value n s

theorem keepsLegal_shortenAccess (h : shortenAccess context n = some n') : KeepsLegal n n' := by
  obtain ⟨span, isOptional, parenthesised, object, span', name, rfl, hn'⟩ :=
    shortenAccess_eq_some h
  intro s hn
  have hobject : object.Legal s.inner := hn.child rfl List.mem_cons_self
  obtain rfl | ⟨value, rfl⟩ := hn'
  · exact legal_plain rfl ⟨trivial, trivial⟩ (List.forall_mem_singleton.2 hobject)
  · refine legal_plain rfl ⟨trivial, trivial⟩ (List.forall_mem_cons.2 ⟨hobject, ?_⟩)
    exact List.forall_mem_singleton.2 (legal_leaf rfl ⟨trivial, trivial⟩ rfl)

theorem keepsLegal_shortenKey (h : shortenKey context n = some n') : KeepsLegal n n' := by
  obtain ⟨span, raw, name, value, -, rfl, rfl⟩ := shortenKey_eq_some h
  exact fun s hn => legal_mk ⟨trivial, trivial⟩ hn.around

theorem legal_sequence {elements : List Node} (h : ∀ e ∈ elements, e.Legal s.inner) :
    Legal s ⟨span, .sequence elements⟩ :=
  legal_plain rfl ⟨trivial, trivial⟩ h

theorem forall_legal_elements (hn : n.Legal s.inner) : ∀ e ∈ n.elements, e.Legal s.inner := by
  obtain ⟨span, shape⟩ := n
  unfold Node.elements
  split
  case h_1 hshape =>
    cases hshape
    exact fun e he => hn.child rfl he
  case h_2 => exact fun e he => List.mem_singleton.1 he ▸ hn

theorem legal_sequenceOf (hfirst : first.Legal s.inner) (hsecond : second.Legal s.inner) :
    (sequenceOf first second).Legal s.inner :=
  legal_sequence fun e he => (List.mem_append.1 he).elim
    (forall_legal_elements hfirst e) (forall_legal_elements hsecond e)

theorem legal_splitNegation (htest : test.Legal s.inner) :
    (splitNegation test).1.Legal s.inner := by
  obtain ⟨span, shape⟩ := test
  unfold splitNegation
  split
  case h_1 operand hshape =>
    cases hshape
    exact htest.child rfl List.mem_cons_self
  case h_2 => exact htest

theorem legal_guard (htest : test.Legal s.inner) (hvalue : value.Legal s.inner)
    (runsIfTrue : Bool) : (Rewrite.guard test value runsIfTrue).Legal s.inner :=
  legal_plain rfl ⟨trivial, trivial⟩
    (by simpa [Shape.children] using ⟨legal_splitNegation htest, hvalue⟩)

theorem legal_choice (htest : test.Legal s.inner) (hfirst : first.Legal s.inner)
    (hsecond : second.Legal s.inner) : (choice test first second).Legal s.inner := by
  have htest := legal_splitNegation htest
  simp only [choice]
  split <;> refine legal_plain rfl ⟨trivial, trivial⟩ ?_ <;>
    simp [Shape.children, htest, hfirst, hsecond]

theorem legal_expressionStatement (h : value.Legal s.inner) :
    Legal s ⟨span, .expressionStatement value⟩ :=
  legal_plain rfl ⟨trivial, trivial⟩ (List.forall_mem_singleton.2 h)

theorem legal_emptyStatement : Legal s ⟨span, .emptyStatement⟩ :=
  legal_leaf rfl ⟨trivial, trivial⟩ rfl

theorem legal_statementKept {elements : List Node} (h : ∀ e ∈ elements, e.Legal s.inner) :
    Legal s ⟨span, statementKept n elements⟩ := by
  have hkept : ∀ e ∈ elements.filter (!isPure ·), e.Legal s.inner :=
    fun e he => h e (List.mem_of_mem_filter he)
  unfold statementKept
  split
  case h_1 => exact legal_emptyStatement
  case h_2 only honly =>
    rw [honly] at hkept
    exact legal_expressionStatement (hkept only List.mem_cons_self)
  case h_3 => exact legal_expressionStatement (legal_sequence hkept)

theorem keepsLegal_dropPure (h : dropPure context n = some n') : KeepsLegal n n' := by
  intro s hn
  obtain ⟨span, elements, kept, rfl, hkept, -, hgives⟩ | ⟨span, expression, rfl, hgives⟩ :=
    dropPure_eq_some h
  · have helements : ∀ e ∈ kept, e.Legal s.inner := fun e he => hn.child rfl (hkept.subset he)
    obtain ⟨rfl, -⟩ | rfl := hgives
    · exact (helements n' List.mem_cons_self).of_inner
    · exact legal_sequence helements
  · have hexpression : expression.Legal s.inner := hn.child rfl List.mem_cons_self
    obtain rfl | ⟨span', elements, rfl, -, rfl⟩ := hgives
    · exact legal_emptyStatement
    · exact legal_statementKept fun e he => hexpression.child rfl he

end Expressions

/-! ## Statements -/

section Statements

variable {context : Context} {n n' test value consequent : Node} {alternate : Option Node}
  {span : Span} {s : Setting}

theorem keepsLegal_dropDebugger (h : dropDebugger context n = some n') : KeepsLegal n n' := by
  obtain ⟨span, -, rfl⟩ := dropDebugger_eq_some h
  exact fun s _ => legal_emptyStatement

/-- The parts of an `if`. -/
theorem legal_if : Legal s ⟨span, .ifStatement test consequent alternate⟩ ↔
    test.Legal s.inner ∧ consequent.Legal s.inner ∧ ∀ other ∈ alternate, other.Legal s.inner := by
  rw [legal_iff]
  simp [Shape.around, Shape.children, Setting.Allows, Setting.AllowsJump, Setting.AllowsUse]

theorem keepsLegal_dropConstantBranch (h : dropConstantBranch context n = some n') :
    KeepsLegal n n' := by
  intro s hn
  obtain ⟨span, test, consequent, alternate, rfl, hn'⟩ |
    ⟨span, test, consequent, alternate, rfl, hn'⟩ := dropConstantBranch_eq_some h
  · obtain ⟨-, hconsequent, halternate⟩ := legal_if.1 hn
    obtain ⟨-, rfl⟩ | ⟨-, rfl⟩ := hn'
    · exact hconsequent.of_inner
    · cases alternate with
      | none => exact legal_emptyStatement
      | some other => exact (halternate other rfl).of_inner
  · obtain rfl | rfl := hn'
    · exact (hn.child rfl (by simp [Shape.children])).of_inner
    · exact (hn.child rfl (by simp [Shape.children])).of_inner

/-- The parts of a loop with a head of three parts. -/
theorem legal_stepped {init : ForInit Node} {condition post : Option Node} {body : Node} :
    Legal s ⟨span, .forLoop (.stepped init condition post) body⟩ ↔
      (∀ c ∈ init.children, c.Legal s.inner) ∧ (∀ c ∈ condition, c.Legal s.inner) ∧
        (∀ c ∈ post, c.Legal s.inner) ∧ body.Legal s.loopBody := by
  rw [legal_iff]
  simp only [Shape.around, ForHead.children, settled_append, settled_each, settled_cons,
    settled_nil, List.forall_mem_append, Option.mem_toList, and_true, and_assoc]
  exact and_iff_right ⟨trivial, trivial⟩

theorem keepsLegal_loopForever (h : loopForever context n = some n') : KeepsLegal n n' := by
  intro s hn
  obtain ⟨span, condition, body, rfl, -, rfl⟩ | ⟨span, init, condition, post, body, rfl, -, rfl⟩ :=
    loopForever_eq_some h
  · have hbody : body.Legal s.loopBody := (settled_cons.1 (settled_cons.1 hn.around).2).1
    exact legal_stepped.2 ⟨nofun, nofun, nofun, hbody⟩
  · obtain ⟨hinit, -, hpost, hbody⟩ := legal_stepped.1 hn
    exact legal_stepped.2 ⟨hinit, nofun, hpost, hbody⟩

/-- The expression that a statement is stands in the same function and the same loops. -/
theorem legal_of_singleExpression (h : singleExpression? n = some value) :
    n.Legal s.inner → value.Legal s.inner := by
  refine singleExpression_induction (fun span statement ih hn => ?_) h fun span hn => ?_
  · exact ih (hn.child rfl List.mem_cons_self)
  · exact hn.child rfl List.mem_cons_self

/-- So does the `return` that a statement is. -/
theorem legal_of_singleReturn (h : singleReturn? n = some value) :
    n.Legal s.inner → (returnOf value).Legal s.inner := by
  refine singleReturn_induction (fun span statement ih hn => ?_) h fun span hn => ?_
  · exact ih (hn.child rfl List.mem_cons_self)
  · exact legal_plain rfl hn.allows fun c hc => hn.child rfl hc

theorem legal_returned (h : (returnOf value).Legal s.inner) : value.Legal s.inner :=
  h.child rfl List.mem_cons_self

/-- A `return` of another value. -/
theorem legal_returnOf {other : Node} (h : (returnOf value).Legal s)
    (hother : other.Legal s.inner) : (returnOf other).Legal s :=
  legal_plain rfl h.allows (List.forall_mem_singleton.2 hother)

theorem legal_ifExpression (hn : Legal s ⟨span, .ifStatement test consequent alternate⟩)
    (h : ifExpression? test consequent alternate = some value) : value.Legal s.inner := by
  obtain ⟨htest, hconsequent, halternate⟩ := legal_if.1 hn
  obtain ⟨rfl, -, rfl⟩ | ⟨expression, rfl, hfirst, rfl⟩ |
    ⟨other, expression, rfl, -, hsecond, rfl⟩ | ⟨other, first, second, rfl, hfirst, hsecond, rfl⟩ :=
    ifExpression?_eq_some h
  · exact htest
  · exact legal_guard htest (legal_of_singleExpression hfirst hconsequent) _
  · exact legal_guard htest (legal_of_singleExpression hsecond (halternate other rfl)) _
  · exact legal_choice htest (legal_of_singleExpression hfirst hconsequent)
      (legal_of_singleExpression hsecond (halternate other rfl))

theorem keepsLegal_ifToExpression (h : ifToExpression context n = some n') : KeepsLegal n n' := by
  intro s hn
  obtain ⟨span, test, consequent, alternate, rfl, hn'⟩ := ifToExpression_eq_some h
  obtain ⟨other, rfl, -, rfl⟩ | ⟨value, hvalue, rfl⟩ := hn'
  · obtain ⟨htest, hconsequent, -⟩ := legal_if.1 hn
    exact legal_if.2 ⟨htest, hconsequent, nofun⟩
  · exact legal_expressionStatement (legal_ifExpression hn hvalue)

/-- A statement out of its braces has the labels before the braces, and stays legal with them. -/
theorem keepsLegal_unwrapBlocks (h : unwrapBlocks context n = some n') : KeepsLegal n n' := by
  obtain ⟨span, shape, rfl, rfl, hs⟩ := unwrapBlocks_eq_some h
  refine keepsLegal_map span Prod.fst Prod.snd fun p hp => ?_
  obtain ⟨role, hplace⟩ := Shape.exists_mem_places hp
  obtain hsame | ⟨-, span, hblock⟩ := hs.places _ hplace
  · exact hsame ▸ fun _ => id
  · intro s hbefore
    rw [hblock] at hbefore
    exact Legal.of_inner (hbefore.child rfl List.mem_cons_self)

end Statements

/-! ## Statements in a row -/

section Rows

variable {context : Context} {n n' : Node} {row row' : List Node} {s : Setting}

/-- A row that is legal wherever another is. -/
def RowKeepsLegal (row row' : List Node) : Prop :=
  ∀ s : Setting, (∀ n ∈ row, n.Legal s) → ∀ n ∈ row', n.Legal s

theorem rowKept_rowKeepsLegal : RowKept RowKeepsLegal where
  refl _ _ := id
  trans h h' s := h' s ∘ h s
  cons n _ _ h s hrow := by
    rw [List.forall_mem_cons] at hrow ⊢
    exact ⟨hrow.1, h s hrow.2⟩

theorem keepsLegal_withStatements (hstatements : statements? n = some row)
    (hrow : RowKeepsLegal row row') : KeepsLegal n (withStatements n row') := by
  intro s hn
  obtain ⟨span, shape⟩ := n
  obtain rfl | rfl | ⟨test, rfl⟩ := statements?_eq_some hstatements
  · exact legal_plain rfl ⟨trivial, trivial⟩ (hrow s.inner fun c hc => hn.child rfl hc)
  · exact legal_plain rfl ⟨trivial, trivial⟩ (hrow s.inner fun c hc => hn.child rfl hc)
  · have hchild (c : Node) (hc : c ∈ test.toList ++ row) : c.Legal s.inner := hn.child rfl hc
    have hbody := hrow s.inner fun c hc => hchild c (List.mem_append_right _ hc)
    refine legal_plain rfl ⟨trivial, trivial⟩ (List.forall_mem_append.2 ⟨?_, hbody⟩)
    exact fun c hc => hchild c (List.mem_append_left _ hc)

/-- A rule on rows that keeps them legal. -/
theorem keepsLegal_onStatements {rule : List Node → Option (List Node)}
    (hrule : ∀ row row', rule row = some row' → RowKeepsLegal row row')
    (h : onStatements rule n = some n') : KeepsLegal n n' :=
  keeps_onStatements hrule (fun _ _ _ => keepsLegal_withStatements) ⟨false⟩ n n' h

theorem rowKeepsLegal_flattened (n : Node) (rest : List Node) :
    RowKeepsLegal (n :: rest) ((flattened? n).getD [n] ++ rest) := by
  cases h : flattened? n with
  | none => exact fun _ => id
  | some row =>
    intro s hrow
    obtain ⟨hn, hrest⟩ := List.forall_mem_cons.1 hrow
    refine List.forall_mem_append.2 ⟨fun c hc => ?_, hrest⟩
    obtain ⟨span, shape⟩ := n
    obtain ⟨rfl, rfl⟩ | rfl := flattened?_eq_some h
    · cases hc
    · exact Legal.of_inner (hn.child rfl hc)

theorem keepsLegal_flattenBlocks (h : flattenBlocks context n = some n') : KeepsLegal n n' := by
  refine keepsLegal_onStatements (fun row row' hrow => ?_) h
  obtain ⟨-, hrow⟩ := Option.ite_none_right_eq_some.1 hrow
  cases hrow
  exact rowKept_rowKeepsLegal.flatten rowKeepsLegal_flattened row

/-- A statement that two others are joined to. -/
def JoinsLegal (a b joined : Node) : Prop :=
  ∀ s : Setting, a.Legal s → b.Legal s → joined.Legal s

theorem rowKeepsLegal_joined {a b joined : Node} (h : JoinsLegal a b joined) (rest : List Node) :
    RowKeepsLegal (a :: b :: rest) (joined :: rest) := by
  intro s hrow
  simp only [List.forall_mem_cons] at hrow ⊢
  exact ⟨h s hrow.1 hrow.2.1, hrow.2.2⟩

theorem joinsLegal_joinedVariables {a b joined : Node} (h : joinedVariables? a b = some joined) :
    JoinsLegal a b joined := by
  obtain ⟨span, span', kind, first, second, rfl, ⟨spanB, spanB', rfl⟩, rfl⟩ :=
    joinedVariables?_eq_some h
  intro s ha hb
  have hfirst := ha.child rfl List.mem_cons_self
  have hsecond := hb.child rfl List.mem_cons_self
  refine legal_plain rfl ⟨trivial, trivial⟩ (List.forall_mem_singleton.2 ?_)
  refine legal_plain rfl ⟨trivial, trivial⟩ ?_
  simp only [Shape.children, List.flatMap_append, List.forall_mem_append]
  exact ⟨fun c hc => hfirst.child rfl hc, fun c hc => hsecond.child rfl hc⟩

theorem keepsLegal_joinVariables (h : joinVariables context n = some n') : KeepsLegal n n' :=
  keepsLegal_onStatements (fun _ _ => rowKept_rowKeepsLegal.onNeighbours fun _ _ _ h =>
    rowKeepsLegal_joined (joinsLegal_joinedVariables h)) h

theorem joinsLegal_joinedReturn {a b joined : Node} (h : joinedReturn? a b = some joined) :
    JoinsLegal a b joined := by
  obtain ⟨span, test, consequent, value, alternate, rfl, hvalue, ⟨spanB, rfl⟩, rfl⟩ :=
    joinedReturn?_eq_some h
  intro s ha hb
  obtain ⟨htest, hconsequent, -⟩ := legal_if.1 ha
  have hreturn := legal_of_singleReturn hvalue hconsequent
  exact legal_plain rfl hb.allows (List.forall_mem_singleton.2
    (legal_choice htest (legal_returned hreturn) (hb.child rfl List.mem_cons_self)))

theorem keepsLegal_returnChoice (h : returnChoice context n = some n') : KeepsLegal n n' := by
  obtain ⟨span, test, consequent, alternate, first, second, rfl, hfirst, hsecond, rfl⟩ | h :=
    returnChoice_eq_some h
  · intro s hn
    obtain ⟨htest, hconsequent, halternate⟩ := legal_if.1 hn
    have hfirst := legal_of_singleReturn hfirst hconsequent
    have hsecond := legal_of_singleReturn hsecond (halternate alternate rfl)
    exact legal_returnOf hfirst.of_inner
      (legal_choice htest (legal_returned hfirst) (legal_returned hsecond))
  · exact keepsLegal_onStatements (fun _ _ => rowKept_rowKeepsLegal.joinReturn fun _ _ _ h =>
      rowKeepsLegal_joined (joinsLegal_joinedReturn h)) h

theorem joinsLegal_joinedExpression {a b joined : Node} (h : joinedExpression? a b = some joined) :
    JoinsLegal a b joined := by
  obtain ⟨span, expression, rfl, h⟩ := joinedExpression?_eq_some h
  obtain ⟨spanB, shape⟩ := b
  obtain ⟨spanB', shape'⟩ := joined
  obtain ⟨-, h⟩ := evaluatingFirst?_eq_some h
  intro s ha hb
  have hexpression : expression.Legal s.inner := ha.child rfl List.mem_cons_self
  have hallows := hb.allows
  have haround := hb.around
  have hfirst {value : Node} (hvalue : value.Legal s.inner) :
      (sequenceOf expression value).Legal s.inner := legal_sequenceOf hexpression hvalue
  cases h
  all_goals
    refine legal_mk hallows ?_
    simp only [Shape.around, Shape.children, ForHead.children, ForInit.children, Option.toList,
      settled_append, settled_cons, settled_each, List.forall_mem_append,
      List.forall_mem_cons] at haround ⊢
    simp_all

theorem keepsLegal_joinExpressions (h : joinExpressions context n = some n') : KeepsLegal n n' :=
  keepsLegal_onStatements (fun _ _ => rowKept_rowKeepsLegal.onNeighbours fun _ _ _ h =>
    rowKeepsLegal_joined (joinsLegal_joinedExpression h)) h

theorem legal_bareVariables (n : Node) (names : List String) (s : Setting) :
    (bareVariables n names).Legal s := by
  refine legal_plain rfl ⟨trivial, trivial⟩ (List.forall_mem_singleton.2 ?_)
  refine legal_plain rfl ⟨trivial, trivial⟩ fun c hc => ?_
  obtain ⟨d, hd, hc⟩ := List.mem_flatMap.1 hc
  obtain ⟨name, -, rfl⟩ := List.mem_map.1 hd
  rw [List.mem_singleton.1 hc]
  exact legal_leaf rfl ⟨trivial, trivial⟩ rfl

theorem rowKeepsLegal_keptAfter (jump : Node) (unreached : List Node) :
    RowKeepsLegal unreached (keptAfter jump unreached) := by
  intro s hrow n hn
  obtain hn | hn := List.mem_append.1 hn
  · split at hn
    · cases hn
    · rw [List.mem_singleton.1 hn]
      exact legal_bareVariables jump _ s
  · exact hrow n (List.mem_of_mem_filter hn)

theorem keepsLegal_dropUnreached (h : dropUnreached context n = some n') : KeepsLegal n n' := by
  refine keepsLegal_onStatements (fun row row' hrow => ?_) h
  obtain ⟨before, jump, unreached, rfl, -, -, rfl⟩ := reached?_eq_some hrow
  exact rowKept_rowKeepsLegal.append before
    (rowKept_rowKeepsLegal.cons jump (rowKeepsLegal_keptAfter jump unreached))

end Rows

/-! ## All rules -/

theorem keepsLegal_of_mem_rules {o : RewriteOptions} {rule : Rule} (hrule : rule ∈ o.rules) :
    rule.Keeps KeepsLegal := by
  intro context n n' h
  obtain ⟨-, rfl⟩ | ⟨-, rfl⟩ | ⟨-, rfl⟩ | ⟨-, rfl⟩ | ⟨-, rfl⟩ | ⟨-, rfl⟩ | ⟨-, rfl⟩ | ⟨-, rfl⟩ |
    ⟨-, rfl⟩ | ⟨-, rfl⟩ | ⟨-, rfl⟩ | ⟨-, rfl⟩ | ⟨-, rfl⟩ | ⟨-, rfl⟩ | ⟨-, rfl⟩ | ⟨-, rfl⟩ :=
    mem_rules hrule
  · exact keepsLegal_dropDebugger h
  · exact keepsLegal_dropUnreached h
  · exact keepsLegal_dropConstantBranch h
  · exact keepsLegal_shortenYield h
  · exact keepsLegal_shortenUndefined h
  · exact keepsLegal_foldConstants h
  · exact keepsLegal_dropPure h
  · exact keepsLegal_shortenAccess h
  · exact keepsLegal_shortenKey h
  · exact keepsLegal_flattenBlocks h
  · exact keepsLegal_unwrapBlocks h
  · exact keepsLegal_joinVariables h
  · exact keepsLegal_loopForever h
  · exact keepsLegal_returnChoice h
  · exact keepsLegal_ifToExpression h
  · exact keepsLegal_joinExpressions h

end ScriptMin.Rewrite

namespace ScriptMin

/-- A program that is legal stays so when it is rewritten. -/
theorem Program.legal_rewrite {p : Program} (h : p.root.Legal .topLevel) (o : RewriteOptions) :
    (p.rewrite o).root.Legal .topLevel :=
  Rewrite.kept_keepsLegal.passes (fun _ => Rewrite.keepsLegal_of_mem_rules) o.passLimit p.root
    .topLevel h

end ScriptMin
