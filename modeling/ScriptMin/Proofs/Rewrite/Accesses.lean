import ScriptMin.Minify
import ScriptMin.Proofs.Grammar.Program
import ScriptMin.Proofs.Rewrite.Kept
import ScriptMin.Proofs.Rewrite.Rules
import ScriptMin.Proofs.Tree.Bodies
import ScriptMin.Proofs.Tree.Variables

/-!
# How calls and accesses are bound

A call of a member passes the object on, a call of `eval` by its name sees the names around it, and
what goes on an optional chain is left out together with it. All of this hangs on the node that
stands before a call or an access. Rewriting changes that node, but as long as no test is decided
beforehand it does not become a member or `eval`, and no chain unless a sequence goes.
-/

namespace ScriptMin

open Rewrite

/-! ## Accesses -/

/-- A call or an access of a member, and how it is bound by what stands before it. -/
structure Access where
  span : Source.Span
  isCall : Bool
  /-- It is a call of a member or of `eval`. -/
  binds : Bool
  /-- It goes on an optional chain. -/
  goesOn : Bool
deriving DecidableEq, Repr

namespace Node

/-- The access that the root of a tree is, if it is one. -/
def access? (n : Node) : Option Access :=
  match n.shape with
  | .call _ _ callee _ => some ⟨n.span, true, bindsWhenCalled callee, callee.continuesChain⟩
  | .member _ _ object _ | .index _ _ object _ =>
    some ⟨n.span, false, false, object.continuesChain⟩
  | _ => none

/-- All calls and accesses in a tree. -/
def accesses (n : Node) : List Access := n.nodes.filterMap access?

theorem accesses_eq (n : Node) :
    n.accesses = n.access?.toList ++ n.shape.children.flatMap accesses := by
  rw [accesses, nodes_eq, List.filterMap_cons, List.filterMap_flatMap]
  cases n.access? <;> rfl

/-- What is no access itself has those of its children. -/
theorem accesses_mk {span : Source.Span} {shape : Shape Node}
    (h : access? ⟨span, shape⟩ = none) :
    accesses ⟨span, shape⟩ = shape.children.flatMap accesses := by
  rw [accesses_eq, h]
  rfl

theorem accesses_subset_of_mem_children {n c : Node} (h : c ∈ n.shape.children) :
    c.accesses ⊆ n.accesses := by
  intro a ha
  rw [accesses_eq n]
  exact List.mem_append_right _ (List.mem_flatMap.2 ⟨c, h, ha⟩)

end Node

/-- An access that is bound by no more than another one was at the same place. With `mayGoOn` it may
go on a chain that the other one did not. -/
structure Access.Stays (mayGoOn : Bool) (a b : Access) : Prop where
  span : a.span = b.span
  isCall : a.isCall = b.isCall
  binds : a.binds → b.binds
  goesOn : mayGoOn = false → a.goesOn → b.goesOn

namespace Rewrite

open Node

variable {context : Context} {mayGoOn : Bool} {n n' : Node}

/-! ## The relation -/

/-- A node that binds no more than another one where it stands before an access, with accesses that
are bound by no more. -/
structure BindsNoMore (mayGoOn : Bool) (n n' : Node) : Prop where
  binds : bindsWhenCalled n' → bindsWhenCalled n
  continues : mayGoOn = false → n'.continuesChain → n.continuesChain
  accesses : ∀ a ∈ n'.accesses, ∃ b ∈ n.accesses, a.Stays mayGoOn b

namespace BindsNoMore

theorem refl (n : Node) : BindsNoMore mayGoOn n n :=
  ⟨id, fun _ => id, fun a ha => ⟨a, ha, rfl, rfl, id, fun _ => id⟩⟩

theorem trans {a b c : Node} (h : BindsNoMore mayGoOn a b) (h' : BindsNoMore mayGoOn b c) :
    BindsNoMore mayGoOn a c where
  binds := h.binds ∘ h'.binds
  continues hno := h.continues hno ∘ h'.continues hno
  accesses x hx := by
    obtain ⟨y, hy, hxy⟩ := h'.accesses x hx
    obtain ⟨z, hz, hyz⟩ := h.accesses y hy
    exact ⟨z, hz, hxy.span.trans hyz.span, hxy.isCall.trans hyz.isCall, hyz.binds ∘ hxy.binds,
      fun hno => hyz.goesOn hno ∘ hxy.goesOn hno⟩

/-- Something that binds nothing, with accesses that stood there before. -/
theorem of_subset (hbinds : bindsWhenCalled n' = false)
    (hcontinues : mayGoOn = false → n'.continuesChain = false) (h : n'.accesses ⊆ n.accesses) :
    BindsNoMore mayGoOn n n' where
  binds hn' := by simp [hbinds] at hn'
  continues hno hn' := by simp [hcontinues hno] at hn'
  accesses a ha := ⟨a, h ha, rfl, rfl, id, fun _ => id⟩

section Congr

variable {g : Node → Node} (h : ∀ c ∈ n.shape.children, BindsNoMore mayGoOn c (g c))

include h

theorem continues_congr (hno : mayGoOn = false)
    (hn : (n.withShape (n.shape.map g)).continuesChain) : n.continuesChain := by
  obtain ⟨span, shape⟩ := n
  cases shape
  case call isOptional parenthesised callee arguments =>
    have hcallee := (h callee List.mem_cons_self).continues hno
    simp only [withShape, Shape.map, continuesChain, Bool.and_eq_true, Bool.or_eq_true] at hn ⊢
    exact hn.imp_right (.imp_right hcallee)
  case index isOptional parenthesised object subscript =>
    have hobject := (h object List.mem_cons_self).continues hno
    simp only [withShape, Shape.map, continuesChain, Bool.and_eq_true, Bool.or_eq_true] at hn ⊢
    exact hn.imp_right (.imp_right hobject)
  case member isOptional parenthesised object name =>
    have hobject := (h object List.mem_cons_self).continues hno
    simp only [withShape, Shape.map, continuesChain, Bool.and_eq_true, Bool.or_eq_true] at hn ⊢
    exact hn.imp_right (.imp_right hobject)
  all_goals cases hn

theorem access?_congr : ∀ a ∈ (n.withShape (n.shape.map g)).access?,
    ∃ b ∈ n.access?, a.Stays mayGoOn b := by
  intro a ha
  obtain ⟨span, shape⟩ := n
  cases shape
  case call isOptional parenthesised callee arguments =>
    have hcallee := h callee List.mem_cons_self
    cases ha
    exact ⟨_, rfl, rfl, rfl, hcallee.binds, hcallee.continues⟩
  case index isOptional parenthesised object subscript =>
    cases ha
    exact ⟨_, rfl, rfl, rfl, id, (h object List.mem_cons_self).continues⟩
  case member isOptional parenthesised object name =>
    cases ha
    exact ⟨_, rfl, rfl, rfl, id, (h object List.mem_cons_self).continues⟩
  all_goals cases ha

theorem congr : BindsNoMore mayGoOn n (n.withShape (n.shape.map g)) where
  binds hn := by
    obtain ⟨span, shape⟩ := n
    cases shape <;> exact hn
  continues := continues_congr h
  accesses a ha := by
    rw [accesses_eq] at ha ⊢
    simp only [List.mem_append, Option.mem_toList, withShape, Shape.children_map, List.flatMap_map,
      List.mem_flatMap] at ha ⊢
    -- An access is the node itself or stands further down.
    obtain ha | ⟨c, hc, ha⟩ := ha
    · obtain ⟨b, hb, hstays⟩ := access?_congr h a ha
      exact ⟨b, .inl hb, hstays⟩
    · obtain ⟨b, hb, hstays⟩ := (h c hc).accesses a ha
      exact ⟨b, .inr ⟨c, hc, hb⟩, hstays⟩

end Congr

end BindsNoMore

theorem kept_bindsNoMore : Kept (BindsNoMore mayGoOn) where
  refl := .refl
  trans := .trans
  congr _ _ := .congr

/-! ## Expressions -/

theorem accesses_constant (value : Constant) (n : Node) :
    (n.withShape (value.shape n)).accesses = [] := by
  cases value with
  | number value =>
    simp only [Constant.shape]
    split <;> rfl
  | string value => rfl
  | boolean value => rfl

theorem bindsNoMore_shortenYield (h : shortenYield context n = some n') :
    BindsNoMore mayGoOn n n' := by
  obtain ⟨span, operand, -, rfl, rfl⟩ := shortenYield_eq_some h
  exact .of_subset rfl (fun _ => rfl) (List.nil_subset _)

theorem bindsNoMore_shortenUndefined (h : shortenUndefined context n = some n') :
    BindsNoMore mayGoOn n n' := by
  obtain ⟨span, rfl, -⟩ := shortenUndefined_eq_some h
  exact .of_subset rfl (fun _ => rfl) (List.nil_subset _)

theorem bindsNoMore_foldConstants (h : foldConstants context n = some n') :
    BindsNoMore mayGoOn n n' := by
  obtain ⟨value, -, rfl, -⟩ := foldConstants_eq_some h
  have hshape : bindsWhenCalled (n.withShape (value.shape n)) = false ∧
      (n.withShape (value.shape n)).continuesChain = false := by
    cases value with
    | number value =>
      simp only [Constant.shape]
      split <;> exact ⟨rfl, rfl⟩
    | string value => exact ⟨rfl, rfl⟩
    | boolean value => exact ⟨rfl, rfl⟩
  refine .of_subset hshape.1 (fun _ => hshape.2) ?_
  rw [accesses_constant]
  exact List.nil_subset _

/-- A member that is named instead of looked up is bound as it was. -/
theorem bindsNoMore_shortenAccess (h : shortenAccess context n = some n') :
    BindsNoMore mayGoOn n n' := by
  obtain ⟨span, isOptional, parenthesised, object, span', name, rfl, rfl | ⟨value, rfl⟩⟩ :=
    shortenAccess_eq_some h
  all_goals
    refine ⟨fun _ => rfl, fun _ => id, fun a ha => ⟨a, ?_, rfl, rfl, id, fun _ => id⟩⟩
    simp only [accesses_eq ⟨span, _⟩, access?, Shape.children, List.flatMap_cons, List.flatMap_nil,
      List.append_nil] at ha ⊢
    simpa [accesses_eq ⟨span', _⟩, access?, Shape.children] using ha

theorem bindsNoMore_shortenKey (h : shortenKey context n = some n') :
    BindsNoMore mayGoOn n n' := by
  obtain ⟨span, raw, name, value, -, rfl, rfl⟩ := shortenKey_eq_some h
  refine .of_subset rfl (fun _ => rfl) ?_
  rw [accesses_mk rfl, accesses_mk rfl]
  exact List.Subset.refl _

theorem accesses_sequence (span : Source.Span) (elements : List Node) :
    accesses ⟨span, .sequence elements⟩ = elements.flatMap accesses := accesses_mk rfl

theorem accesses_statementKept (span span' : Source.Span) (elements : List Node) :
    accesses ⟨span, statementKept ⟨span', .sequence elements⟩ elements⟩ ⊆
      elements.flatMap accesses := by
  have hkept : (elements.filter (!isPure ·)).flatMap accesses ⊆ elements.flatMap accesses :=
    Node.flatMap_subset (List.filter_subset_self _) fun _ _ => List.Subset.refl _
  unfold statementKept
  split
  case h_1 => exact List.nil_subset _
  case h_2 only honly =>
    rw [honly] at hkept
    rwa [accesses_mk rfl]
  case h_3 =>
    rw [accesses_mk rfl]
    simpa [Shape.children, withShape, accesses_sequence] using hkept

/-- A sequence that goes may leave the end of a chain, but no member and not `eval`. -/
theorem bindsNoMore_dropPure (hmay : mayGoOn = true) (h : dropPure context n = some n') :
    BindsNoMore mayGoOn n n' := by
  obtain ⟨span, elements, kept, rfl, hkept, -, hgives⟩ | ⟨span, expression, rfl, hgives⟩ :=
    dropPure_eq_some h
  · have hkept : kept.flatMap accesses ⊆ elements.flatMap accesses :=
      Node.flatMap_subset hkept.subset fun _ _ => List.Subset.refl _
    obtain ⟨rfl, hbinds⟩ | rfl := hgives
    · refine .of_subset hbinds (fun hno => by simp [hmay] at hno) ?_
      rw [accesses_sequence]
      simpa using hkept
    · refine .of_subset rfl (fun _ => rfl) ?_
      rwa [accesses_sequence, accesses_sequence]
  · obtain rfl | ⟨span', elements, rfl, -, rfl⟩ := hgives
    · exact .of_subset rfl (fun _ => rfl) (List.nil_subset _)
    · refine .of_subset ?_ (fun _ => ?_) ?_
      · unfold statementKept
        split <;> rfl
      · unfold statementKept
        split <;> rfl
      · have hbefore : accesses ⟨span, .expressionStatement ⟨span', .sequence elements⟩⟩ =
            elements.flatMap accesses := by
          rw [accesses_mk rfl]
          exact (List.flatMap_singleton _ _).trans (accesses_sequence span' elements)
        rw [hbefore]
        exact accesses_statementKept span span' elements

/-! ## Statements -/

/-- A statement binds nothing. -/
theorem BindsNoMore.of_statement (hn' : n'.shape.isStatement) (h : n'.accesses ⊆ n.accesses) :
    BindsNoMore mayGoOn n n' := by
  obtain ⟨span, shape⟩ := n'
  cases shape <;> first | exact .of_subset rfl (fun _ => rfl) h | cases hn'

theorem bindsNoMore_dropDebugger (h : dropDebugger context n = some n') :
    BindsNoMore mayGoOn n n' := by
  obtain ⟨span, rfl, rfl⟩ := dropDebugger_eq_some h
  exact .of_statement rfl (List.nil_subset _)

theorem bindsNoMore_loopForever (h : loopForever context n = some n') :
    BindsNoMore mayGoOn n n' := by
  obtain ⟨span, condition, body, rfl, -, rfl⟩ | ⟨span, init, condition, post, body, rfl, -, rfl⟩ :=
    loopForever_eq_some h
  · refine .of_statement rfl ?_
    rw [accesses_mk rfl, accesses_mk rfl]
    simp [Shape.children, ForHead.children, ForInit.children]
  · refine .of_statement rfl ?_
    rw [accesses_mk rfl, accesses_mk rfl]
    refine Node.flatMap_subset ?_ fun _ _ => List.Subset.refl _
    simp [Shape.children, ForHead.children]

theorem accesses_block (span : Source.Span) (statement : Node) :
    accesses ⟨span, .block [statement]⟩ = statement.accesses := by
  rw [accesses_mk rfl]
  exact List.flatMap_singleton _ _

theorem bindsNoMore_unwrapBlocks (h : unwrapBlocks context n = some n') :
    BindsNoMore mayGoOn n n' := by
  obtain ⟨span, s, rfl, rfl, hs⟩ := unwrapBlocks_eq_some h
  have hstatement (f : Node × Node → Node) :
      (s.map f).isStatement ∧ access? ⟨span, s.map f⟩ = none := by
    have := hs.isStatement
    cases s <;> first | exact ⟨rfl, rfl⟩ | cases this
  refine .of_statement (hstatement _).1 ?_
  rw [accesses_mk (hstatement _).2, accesses_mk (hstatement _).2, Shape.children_map,
    Shape.children_map, List.flatMap_map, List.flatMap_map]
  refine Node.flatMap_subset (List.Subset.refl _) fun c hc => ?_
  obtain ⟨role, hplace⟩ := Shape.exists_mem_places hc
  obtain heq | ⟨-, spanB, hblock⟩ := hs.places _ hplace
  · rw [heq]
    exact List.Subset.refl _
  · rw [hblock, accesses_block]
    exact List.Subset.refl _

/-! ## Branches -/

theorem accesses_splitNegation (test : Node) : (splitNegation test).1.accesses = test.accesses := by
  obtain ⟨span, shape⟩ := test
  unfold splitNegation
  split
  case h_1 operand h =>
    cases h
    rw [accesses_mk rfl]
    exact (List.flatMap_singleton _ _).symm
  case h_2 => rfl

theorem accesses_guard (test value : Node) (runsIfTrue : Bool) :
    (Rewrite.guard test value runsIfTrue).accesses = test.accesses ++ value.accesses := by
  rw [Rewrite.guard, accesses_mk rfl, ← accesses_splitNegation test]
  simp [Shape.children]

theorem accesses_choice_subset (test consequent alternate : Node) :
    (choice test consequent alternate).accesses ⊆
      test.accesses ++ (consequent.accesses ++ alternate.accesses) := by
  rw [← accesses_splitNegation test]
  unfold choice
  generalize splitNegation test = split
  obtain ⟨test', negated⟩ := split
  -- A negation swaps the branches.
  cases negated <;> rw [accesses_mk rfl] <;> simp [Shape.children]

theorem accesses_returnOf (value : Node) : (returnOf value).accesses = value.accesses := by
  rw [returnOf, accesses_mk rfl]
  exact List.flatMap_singleton _ _

theorem accesses_of_singleExpression {value : Node} (h : singleExpression? n = some value) :
    n.accesses = value.accesses := by
  refine singleExpression_induction (fun span statement ih => ?_) h fun span => ?_
  · rw [accesses_block, ih]
  · rw [accesses_mk rfl]
    exact List.flatMap_singleton _ _

theorem accesses_of_singleReturn {value : Node} (h : singleReturn? n = some value) :
    n.accesses = value.accesses := by
  refine singleReturn_induction (fun span statement ih => ?_) h fun span => ?_
  · rw [accesses_block, ih]
  · rw [accesses_mk rfl]
    exact List.flatMap_singleton _ _

theorem accesses_if (span : Source.Span) (test consequent : Node) (alternate : Option Node) :
    accesses ⟨span, .ifStatement test consequent alternate⟩ =
      test.accesses ++ (consequent.accesses ++ alternate.toList.flatMap accesses) := by
  rw [accesses_mk rfl]
  simp [Shape.children]

theorem accesses_ifExpression {test consequent value : Node} {alternate : Option Node}
    (h : ifExpression? test consequent alternate = some value) :
    value.accesses ⊆
      test.accesses ++ (consequent.accesses ++ alternate.toList.flatMap accesses) := by
  obtain ⟨rfl, -, rfl⟩ | ⟨expression, rfl, hexpression, rfl⟩ |
    ⟨other, expression, rfl, -, hexpression, rfl⟩ |
    ⟨other, first, second, rfl, hfirst, hsecond, rfl⟩ := ifExpression?_eq_some h
  · exact List.subset_append_left _ _
  · rw [accesses_guard, accesses_of_singleExpression hexpression]
    simp
  · rw [accesses_guard, ← accesses_of_singleExpression hexpression]
    simp
  · rw [accesses_of_singleExpression hfirst, Option.toList_some, List.flatMap_singleton,
      accesses_of_singleExpression hsecond]
    exact accesses_choice_subset _ _ _

theorem bindsNoMore_ifToExpression (h : ifToExpression context n = some n') :
    BindsNoMore mayGoOn n n' := by
  obtain ⟨span, test, consequent, alternate, rfl, ⟨other, rfl, -, rfl⟩ | ⟨value, hvalue, rfl⟩⟩ :=
    ifToExpression_eq_some h
  · refine .of_statement rfl ?_
    rw [accesses_if, accesses_if]
    simp
  · refine .of_statement rfl ?_
    rw [accesses_mk rfl, accesses_if]
    simpa [Shape.children] using accesses_ifExpression hvalue

/-! ## Statements in a row -/

/-- A row with accesses that another one has. -/
def RowAccesses (row row' : List Node) : Prop := row'.flatMap accesses ⊆ row.flatMap accesses

theorem rowKept_rowAccesses : RowKept RowAccesses where
  refl _ := List.Subset.refl _
  trans h h' := List.Subset.trans h' h
  cons n row row' h := by
    simp only [RowAccesses, List.flatMap_cons] at h ⊢
    exact List.append_subset.2 ⟨List.subset_append_left _ _,
      List.Subset.trans h (List.subset_append_right _ _)⟩

theorem bindsNoMore_onStatements {rule : List Node → Option (List Node)}
    (h : ∀ row row', rule row = some row' → RowAccesses row row') :
    Rule.Keeps (fun _ => onStatements rule) (BindsNoMore mayGoOn) := by
  refine keeps_onStatements h fun n row row' hn hrow => ?_
  obtain ⟨span, shape⟩ := n
  obtain hshape | hshape | ⟨test, hshape⟩ := statements?_eq_some hn <;> cases hshape
  case inl | inr.inl =>
    refine .of_subset rfl (fun _ => rfl) ?_
    simpa [withStatements, withShape, accesses_eq ⟨_, _⟩, access?, Shape.children, RowAccesses]
      using hrow
  case inr.inr =>
    refine .of_subset rfl (fun _ => rfl) ?_
    have hcase (body : List Node) : accesses ⟨span, .switchCase test body⟩ =
        test.toList.flatMap accesses ++ body.flatMap accesses := by
      rw [accesses_mk rfl]
      exact List.flatMap_append
    simp only [withStatements, withShape, hcase]
    exact List.append_subset.2 ⟨List.subset_append_left _ _,
      List.Subset.trans hrow (List.subset_append_right _ _)⟩

/-- A statement that two others are joined to has accesses of theirs. -/
theorem rowAccesses_joined {a b joined : Node} (h : joined.accesses ⊆ a.accesses ++ b.accesses)
    (rest : List Node) : RowAccesses (a :: b :: rest) (joined :: rest) := by
  simp only [RowAccesses, List.flatMap_cons, ← List.append_assoc]
  exact List.append_subset.2 ⟨List.Subset.trans h (List.subset_append_left _ _),
    List.subset_append_right _ _⟩

theorem rowAccesses_flattened (n : Node) (rest : List Node) :
    RowAccesses (n :: rest) ((flattened? n).getD [n] ++ rest) := by
  cases h : flattened? n with
  | none => exact rowKept_rowAccesses.refl _
  | some row =>
    obtain ⟨span, shape⟩ := n
    obtain ⟨rfl, rfl⟩ | rfl := flattened?_eq_some h
    · simp [RowAccesses]
    · simp [RowAccesses, accesses_eq ⟨_, _⟩, access?, Shape.children]

theorem bindsNoMore_flattenBlocks : Rule.Keeps flattenBlocks (BindsNoMore mayGoOn) := by
  refine bindsNoMore_onStatements fun row row' h => ?_
  obtain ⟨-, h⟩ := Option.ite_none_right_eq_some.1 h
  cases h
  exact rowKept_rowAccesses.flatten rowAccesses_flattened row

theorem accesses_joinedVariables {a b joined : Node} (h : joinedVariables? a b = some joined) :
    joined.accesses ⊆ a.accesses ++ b.accesses := by
  obtain ⟨span, span', kind, first, second, rfl, ⟨spanB, spanB', rfl⟩, rfl⟩ :=
    joinedVariables?_eq_some h
  simp [accesses_eq ⟨_, _⟩, access?, Shape.children]

theorem bindsNoMore_joinVariables : Rule.Keeps joinVariables (BindsNoMore mayGoOn) :=
  bindsNoMore_onStatements fun _ _ => rowKept_rowAccesses.onNeighbours fun _ _ _ h =>
    rowAccesses_joined (accesses_joinedVariables h)

theorem accesses_joinedReturn {a b joined : Node} (h : joinedReturn? a b = some joined) :
    joined.accesses ⊆ a.accesses ++ b.accesses := by
  obtain ⟨span, test, consequent, value, alternate, rfl, hvalue, ⟨spanB, rfl⟩, rfl⟩ :=
    joinedReturn?_eq_some h
  rw [accesses_returnOf, accesses_if, accesses_of_singleReturn hvalue]
  simpa [accesses_eq ⟨_, _⟩, access?, Shape.children] using
    accesses_choice_subset test value alternate

theorem bindsNoMore_returnChoice : Rule.Keeps returnChoice (BindsNoMore mayGoOn) := by
  intro context n n' h
  obtain ⟨span, test, consequent, alternate, first, second, rfl, hfirst, hsecond, rfl⟩ | h :=
    returnChoice_eq_some h
  · refine .of_statement rfl ?_
    rw [accesses_returnOf, accesses_if, accesses_of_singleReturn hfirst, Option.toList_some,
      List.flatMap_singleton, accesses_of_singleReturn hsecond]
    exact accesses_choice_subset _ _ _
  · exact bindsNoMore_onStatements (fun _ _ => rowKept_rowAccesses.joinReturn fun _ _ _ h =>
      rowAccesses_joined (accesses_joinedReturn h)) context n n' h

theorem flatMap_accesses_elements (n : Node) : n.elements.flatMap accesses = n.accesses := by
  obtain ⟨span, shape⟩ := n
  unfold Node.elements
  split
  case h_1 first rest hshape =>
    cases hshape
    exact (accesses_sequence span _).symm
  case h_2 => exact List.flatMap_singleton _ _

theorem accesses_sequenceOf (first second : Node) :
    (sequenceOf first second).accesses = first.accesses ++ second.accesses := by
  rw [sequenceOf, accesses_sequence, List.flatMap_append, flatMap_accesses_elements,
    flatMap_accesses_elements]

theorem accesses_evaluatingFirst {expression b joined : Node}
    (h : evaluatingFirst? expression b = some joined) :
    joined.accesses = expression.accesses ++ b.accesses := by
  obtain ⟨span, shape⟩ := b
  obtain ⟨span', shape'⟩ := joined
  obtain ⟨-, h⟩ := evaluatingFirst?_eq_some h
  cases h <;>
    simp [accesses_eq ⟨_, _⟩, access?, Shape.children, ForHead.children, ForInit.children,
      accesses_sequenceOf]

theorem accesses_joinedExpression {a b joined : Node} (h : joinedExpression? a b = some joined) :
    joined.accesses ⊆ a.accesses ++ b.accesses := by
  obtain ⟨span, expression, rfl, hb⟩ := joinedExpression?_eq_some h
  rw [accesses_evaluatingFirst hb]
  simp [accesses_eq ⟨_, _⟩, access?, Shape.children]

theorem bindsNoMore_joinExpressions : Rule.Keeps joinExpressions (BindsNoMore mayGoOn) :=
  bindsNoMore_onStatements fun _ _ => rowKept_rowAccesses.onNeighbours fun _ _ _ h =>
    rowAccesses_joined (accesses_joinedExpression h)

/-! ## Whole programs -/

/-- Each rule keeps what binds accesses, but for the one that decides tests beforehand. The rule on
sequences may open a chain. -/
theorem bindsNoMore_of_mem_rules {o : RewriteOptions} (hdeadCode : o.deadCode = false) :
    ∀ rule ∈ o.rules, rule.Keeps (BindsNoMore o.sideEffects) := by
  intro rule h
  have h := mem_rules h
  simp only [hdeadCode, Bool.false_eq_true, false_and, false_or] at h
  obtain ⟨-, rfl⟩ | ⟨-, rfl⟩ | ⟨-, rfl⟩ | ⟨-, rfl⟩ | ⟨heffects, rfl⟩ | ⟨-, rfl⟩ | ⟨-, rfl⟩ |
    ⟨-, rfl⟩ | ⟨-, rfl⟩ | ⟨-, rfl⟩ | ⟨-, rfl⟩ | ⟨-, rfl⟩ | ⟨-, rfl⟩ | ⟨-, rfl⟩ := h
  · exact fun _ _ _ => bindsNoMore_dropDebugger
  · exact fun _ _ _ => bindsNoMore_shortenYield
  · exact fun _ _ _ => bindsNoMore_shortenUndefined
  · exact fun _ _ _ => bindsNoMore_foldConstants
  · exact fun _ _ _ => bindsNoMore_dropPure heffects
  · exact fun _ _ _ => bindsNoMore_shortenAccess
  · exact fun _ _ _ => bindsNoMore_shortenKey
  · exact bindsNoMore_flattenBlocks
  · exact fun _ _ _ => bindsNoMore_unwrapBlocks
  · exact bindsNoMore_joinVariables
  · exact fun _ _ _ => bindsNoMore_loopForever
  · exact bindsNoMore_returnChoice
  · exact fun _ _ _ => bindsNoMore_ifToExpression
  · exact bindsNoMore_joinExpressions

end Rewrite

/-- Where no test is decided beforehand, each call and each access of a rewritten program stood at
its place before. No call becomes one of a member or of `eval`, and where no sequence goes either,
nothing goes on a chain that it did not go on before. -/
theorem Program.accesses_rewrite (o : RewriteOptions) (hdeadCode : o.deadCode = false)
    (p : Program) : ∀ a ∈ (p.rewrite o).root.accesses, ∃ b ∈ p.root.accesses,
      a.span = b.span ∧ a.isCall = b.isCall ∧ (a.binds → b.binds) ∧
        (o.sideEffects = false → a.goesOn → b.goesOn) := by
  intro a ha
  have hkeeps : BindsNoMore o.sideEffects p.root (p.rewrite o).root :=
    kept_bindsNoMore.passes (bindsNoMore_of_mem_rules hdeadCode) o.passLimit p.root
  obtain ⟨b, hb, hstays⟩ := hkeeps.accesses a ha
  exact ⟨b, hb, hstays.span, hstays.isCall, hstays.binds, hstays.goesOn⟩

/-- All rules but those that leave out code which never runs. -/
def RewriteOptions.reaching : RewriteOptions := { RewriteOptions.all with deadCode := false }

/-- A sequence in front of a call stays where it hides a member or `eval`, and goes where it hides
another call. -/
theorem accesses_rewrite_hidden_callee :
    ∃ p, Program.parse .global "(1,a.b)();(1,2,eval)(c);(1,d())()".toList = .ok p ∧
      (p.rewrite .reaching).print .compact = "(1,a.b)(),(1,eval)(c),d()()".toList ∧
      ∀ a ∈ (p.rewrite .reaching).root.accesses, ∃ b ∈ p.root.accesses,
        a.span = b.span ∧ a.isCall = b.isCall ∧ (a.binds → b.binds) ∧
          (RewriteOptions.reaching.sideEffects = false → a.goesOn → b.goesOn) := by
  have hrun : (Program.parse .global "(1,a.b)();(1,2,eval)(c);(1,d())()".toList).toOption.any
      (fun p => (p.rewrite .reaching).print .compact == "(1,a.b)(),(1,eval)(c),d()()".toList) =
        true := by decide +kernel
  obtain ⟨p, hparse, hprint⟩ := Program.exists_of_parse _ hrun
  exact ⟨p, hparse, beq_iff_eq.1 hprint, Program.accesses_rewrite .reaching rfl p⟩

/-- A test that is decided beforehand leaves a member in front of the call. -/
example :
    (Program.parse .global "(true?a.b:0)()".toList).toOption.map (fun p =>
      (p.rewrite { RewriteOptions.none with deadCode := true }).print .compact) =
    some "a.b()".toList := by decide +kernel

/-- A call at the end of a chain opens the chain when the sequence around it goes. -/
example :
    (Program.parse .global "(0,a?.b()).c".toList).toOption.map (fun p =>
      (p.rewrite { RewriteOptions.none with sideEffects := true }).print .compact) =
    some "a?.b().c".toList := by decide +kernel

end ScriptMin
