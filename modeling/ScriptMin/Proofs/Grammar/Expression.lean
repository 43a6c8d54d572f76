import ScriptMin.Grammar.Expression
import ScriptMin.Proofs.Grammar.Function
import ScriptMin.Proofs.Grammar.Target

/-!
# Expressions are well formed

Operands, and the operators that take them in. What has been read of an expression is an expression
all the time, so the operators after it find one on their left.
-/

namespace ScriptMin.Grammar

open Parse Node

variable {rules : Rules}

/-! ## Literals -/

theorem ensures_stringLiteral (t : Token) :
    (stringLiteral t).Ensures fun s => s.isExpression ∧ s.places = [] := by
  refine .bind_any fun _ => ?_
  split
  exact .pure ⟨rfl, rfl⟩

theorem ensures_simpleOperand (f : Frame) (t : Token) :
    (simpleOperand f t).Ensures (Fits .expression) := by
  unfold simpleOperand
  extract_lets node
  have hnode (shape : Shape Node) (h : shape.isExpression ∧ shape.places = []) :
      (node shape).Ensures (Fits .expression) :=
    .pure (fits_mk h.1 (h.2 ▸ filled_nil))
  split
  case h_1 => exact .ite (fun _ => hnode _ ⟨rfl, rfl⟩) fun _ => .bind_refuse
  case h_2 | h_3 | h_4 | h_5 | h_8 => exact hnode _ ⟨rfl, rfl⟩
  case h_6 => exact .bind_any fun _ => .bind_any fun _ => hnode _ ⟨rfl, rfl⟩
  case h_7 => exact .bind_any fun _ => hnode _ ⟨rfl, rfl⟩
  case h_9 => exact .bind (ensures_stringLiteral t) hnode
  case h_10 => exact .bind_unexpected

theorem fits_markParenthesised {n : Node} (h : n.Fits .expression) :
    (markParenthesised n).Fits .expression := by
  obtain ⟨haccepted, hplaces⟩ := fits_iff.1 h
  obtain ⟨span, shape⟩ := n
  unfold markParenthesised
  split
  case h_1 | h_2 | h_3 =>
    rename_i hshape
    cases hshape
    exact fits_mk rfl hplaces
  case h_4 => exact h

theorem fits_elements {n e : Node} (h : n.Fits .expression) (he : e ∈ n.elements) :
    e.Fits .expression := by
  obtain ⟨span, shape⟩ := n
  unfold Node.elements at he
  split at he
  case h_1 first rest hshape =>
    cases hshape
    have hplaces := wellFormed_iff.1 h.wellFormed
    simp only [Shape.places, filled_each] at hplaces
    exact hplaces e he
  case h_2 =>
    rw [List.mem_singleton.1 he]
    exact h

theorem filled_objectMemberContent {key : Key Node} {value : MemberValue Node}
    (hkey : Filled key.places) (hvalue : Filled value.places) :
    Filled (objectMemberContent key value).places := by
  unfold objectMemberContent
  split
  · exact filled_nil
  · simpa [ObjectMember.places] using ⟨hkey, hvalue⟩

variable (hr : rules.Sound)

include hr

theorem ensures_arguments (f : Frame) :
    (arguments rules f).Ensures fun read => ∀ n ∈ read, n.Fits .argument := by
  refine .bind (.iterate (I := fun read => ∀ n ∈ read, n.Fits .argument)
    (Q := fun reversed => ∀ n ∈ reversed, n.Fits .argument)
    (fun read hread => ?_) rules.bound nofun)
    fun reversed hreversed => .pure (by simpa using hreversed)
  refine .bind_any fun _ => .ite (fun _ => .pure hread) fun _ => .bind_any fun spread => ?_
  refine .bind (hr.single f _) fun value hvalue => ?_
  have hread (span : Source.Span) :=
    List.forall_mem_cons (a := ⟨span, .argument spread.isSome value⟩).2
      ⟨fits_mk rfl (by simpa [Shape.places] using hvalue), hread⟩
  exact .bind_any fun _ => .ite (fun _ => .pure (hread _)) fun _ => .pure (hread _)

theorem ensures_arrayLiteral (f : Frame) (first : Token) :
    (arrayLiteral rules f first).Ensures (Fits .expression) := by
  refine .bind (.iterate (I := fun read => ∀ e ∈ read, Filled (ArrayElement.places e))
    (Q := fun reversed => ∀ e ∈ reversed, Filled (ArrayElement.places e))
    (fun read hread => ?_) rules.bound nofun)
    fun reversed hreversed => .bind_any fun _ => .pure
      (fits_mk rfl (by simpa [Shape.places] using hreversed))
  refine .bind_any fun _ => .ite (fun _ => ?_) fun _ => ?_
  · exact .pure (List.forall_mem_cons.2 ⟨filled_nil, hread⟩)
  refine .bind_any fun _ => .ite (fun _ => .pure hread) fun _ => .bind_any fun isSpread => ?_
  refine .bind (hr.single f _) fun value hvalue => ?_
  have helement : Filled (if isSpread then ArrayElement.spread value else .item value).places := by
    cases isSpread <;> simpa [ArrayElement.places, ArrayElement.children] using hvalue
  have hread := List.forall_mem_cons (p := fun e => Filled (ArrayElement.places e)).2
    ⟨helement, hread⟩
  extract_lets
  exact .bind_any fun _ => .ite (fun _ => .pure hread) fun _ => .bind_any fun _ => .pure hread

theorem ensures_objectLiteral (f : Frame) (first : Token) :
    (objectLiteral rules f first).Ensures (Fits .expression) := by
  refine .bind (.iterate (I := fun read => ∀ m ∈ read, m.Fits .member)
    (Q := fun reversed => ∀ m ∈ reversed, m.Fits .member)
    (fun read hread => ?_) rules.bound nofun)
    fun reversed hreversed => .bind_any fun _ => .pure
      (fits_mk rfl (by simpa [Shape.places] using hreversed))
  refine .bind_any fun _ => .ite (fun _ => .pure hread) fun _ => .bind_any fun place => ?_
  refine .bind_any fun isSpread => ?_
  extract_lets rest
  have hrest (content : ObjectMember Node) (hcontent : Filled content.places) :
      (rest content).Ensures (Round.Holds (∀ m ∈ ·, m.Fits .member) (∀ m ∈ ·, m.Fits .member)) := by
    refine .bind_any fun span => ?_
    have hmember : Fits .member ⟨span, .objectMember content⟩ := fits_mk rfl hcontent
    have hread := List.forall_mem_cons.2 ⟨hmember, hread⟩
    extract_lets
    exact .bind_any fun _ => .ite (fun _ => .pure hread) fun _ => .bind_any fun _ => .pure hread
  refine .ite (fun _ => ?_) fun _ => .bind (ensures_member hr f _) ?_
  · refine .bind (hr.single f _) fun value hvalue => hrest (.spread value) ?_
    simpa [ObjectMember.places] using hvalue
  · rintro ⟨key, value⟩ ⟨hkey, hvalue⟩
    exact hrest _ (filled_objectMemberContent hkey hvalue)

theorem ensures_templateParts (f : Frame) (head : Token) :
    (templateParts rules f head).Ensures fun (parts, _) => ∀ p ∈ parts, Filled p.places := by
  refine .bind (.iterate (I := fun read => ∀ p ∈ read.1, Filled (TemplatePart.places p))
    (Q := fun reversed => ∀ p ∈ reversed.1, Filled (TemplatePart.places p)) ?_ rules.bound
    (by simp [TemplatePart.places, TemplatePart.children])) fun _ h => .pure (by simpa using h)
  rintro ⟨read, piece⟩ hread
  refine .ite (fun _ => .pure hread) fun _ => .bind (hr.whole f _) fun value hvalue => ?_
  refine .bind_any fun _ => .bind_any fun piece => .pure ?_
  refine List.forall_mem_cons.2 ⟨filled_nil, List.forall_mem_cons.2 ⟨?_, hread⟩⟩
  simpa [TemplatePart.places, TemplatePart.children] using hvalue

/-! ## Operands -/

theorem ensures_subscript (f : Frame) :
    (subscript rules f).Ensures fun (value, _) => value.Fits .expression :=
  .bind (hr.whole f _) fun _ hvalue => .bind_any fun _ => .pure hvalue

theorem ensures_importExpression (f : Frame) (first : Token) :
    (importExpression rules f first).Ensures (Fits .expression) := by
  refine .bind_any fun _ => .ite (fun _ => ?_) fun _ => .bind_any fun _ => ?_
  · exact .bind_any fun _ => .pure (fits_mk rfl filled_nil)
  · refine .bind (hr.single f _) fun specifier hspecifier => .bind_any fun _ => .pure ?_
    exact fits_mk rfl (by simpa [Shape.places] using hspecifier)

theorem ensures_constructorAccesses (f : Frame) {callee : Node} (h : callee.Fits .expression) :
    (constructorAccesses rules f callee).Ensures (Fits .expression) := by
  refine .iterate (I := Fits .expression) (fun callee hcallee => ?_) rules.bound h
  refine .bind_any fun t => ?_
  split
  case h_1 =>
    refine .bind_any fun _ => .bind_any fun name => .pure ?_
    exact fits_mk rfl (by simpa [Shape.places] using hcallee)
  case h_2 =>
    refine .bind_any fun _ => .bind (ensures_subscript hr f) ?_
    rintro ⟨value, close⟩ hvalue
    exact .pure (fits_mk rfl (by simpa [Shape.places] using ⟨hcallee, hvalue⟩))
  case h_3 =>
    refine .bind_any fun _ => .bind (ensures_templateParts hr f t) ?_
    rintro ⟨parts, span⟩ hparts
    exact .pure (fits_mk rfl (by simpa [Shape.places] using ⟨hcallee, hparts⟩))
  case h_4 => exact .pure hcallee

theorem ensures_yieldOperand (f : Frame) (e : Extent) (t : Token) :
    (yieldOperand rules f e t).Ensures fun o => o.node.Fits .expression := by
  refine .ite (fun _ => .unexpected) fun _ => .ite (fun _ => .refuse) fun _ => ?_
  refine .bind_any fun after => ?_
  extract_lets delegates operand
  have hoperand (u : Unit) : (operand u).Ensures fun o => o.node.Fits .expression := by
    refine .bind (hr.expression f _) fun value hvalue => .pure (fits_mk rfl ?_)
    simpa [Shape.places] using hvalue
  refine .ite (fun _ => .pure (fits_mk rfl filled_nil)) fun _ => ?_
  exact .ite (fun _ => .bind_any hoperand) fun _ => hoperand ()

theorem ensures_unaryOperand (f : Frame) (e : Extent) (t : Token) (operator : UnaryOperator) :
    (unaryOperand rules f e t operator).Ensures fun o => o.node.Fits .expression := by
  refine .bind (hr.expression f _) fun operand hoperand => ?_
  extract_lets rest
  have hrest (u : Unit) : (rest u).Ensures fun o => o.node.Fits .expression :=
    .pure (fits_mk rfl (by simpa [Shape.places] using hoperand))
  exact .ite (fun _ => .bind_any hrest) fun _ => hrest ()

theorem ensures_parenthesisedOperand (f : Frame) (e : Extent) :
    (parenthesisedOperand rules f e).Ensures fun o => o.node.Fits .expression := by
  refine .bind (ensures_parenthesisedArrow? hr f e _ _) fun arrow harrow => ?_
  cases arrow with
  | some operand => exact .pure (harrow operand rfl)
  | none =>
    refine .bind (hr.parenthesised f) fun group hgroup => .bind_any fun after => ?_
    extract_lets
    refine .ite (fun _ => .ite (fun _ => .refuse) fun _ => .unexpected) fun _ => .pure ?_
    exact fits_markParenthesised hgroup

theorem ensures_asyncOperand (f : Frame) (e : Extent) (place : Cursor) (t : Token) :
    (asyncOperand rules f e place t).Ensures fun o => o.node.Fits .expression := by
  have hname : Fits .expression ⟨t.span, .identifier t.text⟩ := fits_mk rfl filled_nil
  refine .bind_any fun after => .ite (fun _ => .pure hname) fun _ => ?_
  split
  case h_1 => exact .bind_any fun _ => .bind (ensures_functionExpression hr f) fun _ h => .pure h
  case h_2 =>
    refine .bind (ensures_parenthesisedArrow? hr f e _ _) fun arrow harrow => .pure ?_
    cases arrow with
    | some operand => exact harrow operand rfl
    | none => exact hname
  case h_3 =>
    refine .ite (fun _ => .bind_any fun name => ?_) fun _ => .pure hname
    exact ensures_singleParameterArrow hr f e _ _ name

theorem ensures_nameOperand (f : Frame) (e : Extent) (t : Token) :
    (nameOperand rules f e t).Ensures fun o => o.node.Fits .expression := by
  refine .bind_any fun _ => .ite (fun _ => ?_) fun _ => ?_
  · exact ensures_singleParameterArrow hr f e _ _ t
  · exact .bind_any fun _ => .pure (fits_mk rfl filled_nil)

theorem ensures_operand (f : Frame) (e : Extent) :
    (operand rules f e).Ensures fun o => o.node.Fits .expression := by
  refine .bind_any fun place => .bind_any fun t => ?_
  split
  case h_1 operator _ => exact ensures_unaryOperand hr f e t operator
  case h_2 =>
    split
    case h_1 => exact .bind (hr.construct f t) fun _ h => .pure h
    case h_2 => exact ensures_asyncOperand hr f e place t
    case h_3 => exact .bind_any fun _ => .bind (ensures_functionExpression hr f) fun _ h => .pure h
    case h_4 => exact .bind_any fun _ => .bind (ensures_classExpression hr f) fun _ h => .pure h
    case h_5 => exact .bind (ensures_importExpression hr f t) fun _ h => .pure h
    case h_6 => exact .bind (ensures_arrayLiteral hr f t) fun _ h => .pure h
    case h_7 => exact .bind (ensures_objectLiteral hr f t) fun _ h => .pure h
    case h_8 => exact .bind_any fun _ => ensures_parenthesisedOperand hr f e
    case h_9 =>
      refine .bind (ensures_templateParts hr f t) ?_
      rintro ⟨parts, span⟩ hparts
      exact .pure (fits_mk rfl (by simpa [Shape.places] using hparts))
    case h_10 =>
      refine .ite (fun _ => ensures_unaryOperand hr f e t _) fun _ => ?_
      refine .ite (fun _ => ensures_yieldOperand hr f e t) fun _ => ?_
      refine .ite (fun _ => ensures_nameOperand hr f e t) fun _ => ?_
      exact .bind (ensures_simpleOperand f t) fun _ h => .pure h

theorem ensures_construct (f : Frame) (first : Token) :
    (construct rules f first).Ensures (Fits .expression) := by
  refine .bind_any fun _ => .ite (fun _ => ?_) fun _ => .bind_any fun nested => ?_
  · exact .bind_any fun _ => .pure (fits_mk rfl filled_nil)
  extract_lets rest
  have hrest (inner : Node) (hinner : inner.Fits .expression) :
      (rest inner).Ensures (Fits .expression) := by
    refine .bind (ensures_constructorAccesses hr f hinner) fun callee hcallee => ?_
    refine .bind_any fun _ => .ite (fun _ => ?_) fun _ => ?_
    · refine .bind (ensures_arguments hr f) fun arguments harguments => .bind_any fun _ => .pure ?_
      exact fits_mk rfl (by simpa [Shape.places] using ⟨hcallee, harguments⟩)
    · exact .pure (fits_mk rfl (by simpa [Shape.places] using hcallee))
  cases nested with
  | some t => exact .bind (hr.construct f t) hrest
  | none => exact .bind (ensures_operand hr f _) fun o ho => hrest o.node ho

/-! ## Operators -/

theorem ensures_rightOf (f : Frame) (e : Extent) (p : Progress) (hp : p.left.Fits .expression)
    (operator : Operator) (t : Token) :
    (rightOf rules f e p operator t).Ensures fun p => p.left.Fits .expression := by
  unfold rightOf
  extract_lets right
  have hright : right.Ensures fun r => r.node.Fits .expression := hr.expression f _
  split
  case h_1 =>
    refine .bind (ensures_arguments hr f) fun arguments harguments => .bind_any fun _ => .pure ?_
    exact fits_mk rfl (by simpa [Shape.places] using ⟨hp, harguments⟩)
  case h_2 =>
    refine .bind (ensures_subscript hr f) ?_
    rintro ⟨value, close⟩ hvalue
    exact .pure (fits_mk rfl (by simpa [Shape.places] using ⟨hp, hvalue⟩))
  case h_3 =>
    exact .bind_any fun _ => .pure (fits_mk rfl (by simpa [Shape.places] using hp))
  case h_4 =>
    refine .bind (hr.single f _) fun consequent hconsequent => .bind_any fun _ => ?_
    refine .bind (hr.expression f _) fun alternate halternate => .pure (fits_mk rfl ?_)
    simpa [Shape.places] using ⟨hp, hconsequent, halternate⟩
  case h_5 =>
    refine .bind hright fun value hvalue => .pure (fits_mk rfl ?_)
    simpa [Shape.places, or_imp, forall_and] using ⟨fun _ => fits_elements hp, hvalue⟩
  case h_6 =>
    refine .bind (.check (Q := Fits .target) fun t ht => ?_) fun target htarget => ?_
    · exact fits_assignmentTarget hp.wellFormed ht
    · refine .bind hright fun value hvalue => .pure (fits_mk rfl ?_)
      simpa [Shape.places] using ⟨htarget, hvalue⟩
  case h_7 =>
    refine .bind hright fun value hvalue => .pure (fits_mk rfl ?_)
    simpa [Shape.places] using ⟨hp, hvalue⟩
  case h_8 => exact .unexpected

theorem ensures_operation (f : Frame) (e : Extent) {p : Progress} (hp : p.left.Fits .expression) :
    (operation rules f e p).Ensures
      (Round.Holds (fun p => p.left.Fits .expression) fun r => r.node.Fits .expression) := by
  refine .ite (fun _ => .pure hp) fun _ => .bind_any fun place => .bind_any fun t => ?_
  extract_lets leave closing update ends
  have hleave (q : Progress) (hq : q.left.Fits .expression) : (leave q).Ensures
      (Round.Holds (fun p => p.left.Fits .expression) fun r => r.node.Fits .expression) :=
    .bind_any fun _ => .pure hq
  have hclosing (precedence : Nat) (read : Parse Progress)
      (hread : read.Ensures fun p => p.left.Fits .expression) : (closing precedence read).Ensures
        (Round.Holds (fun p => p.left.Fits .expression) fun r => r.node.Fits .expression) :=
    .ite (fun _ => hleave p hp) fun _ => .ite (fun _ => .unexpected) fun _ =>
      .bind hread fun _ h => .pure h
  have hupdate (op : PostfixOperator) : (update op).Ensures
      (Round.Holds (fun p => p.left.Fits .expression) fun r => r.node.Fits .expression) :=
    hclosing _ _ (.bind_any fun _ => .pure (fits_mk rfl (by simpa [Shape.places] using hp)))
  have hrightOf (operator : Operator) :
      (rightOf rules f e { p with logical := logicalAtRoot operator } operator t).Ensures
        fun p => p.left.Fits .expression :=
    ensures_rightOf hr f e { p with logical := logicalAtRoot operator } hp operator t
  refine .ite (fun _ => hleave p hp) fun _ => ?_
  split
  case h_1 | h_2 => exact hupdate _
  case h_3 =>
    refine hclosing _ _ (.bind (ensures_templateParts hr f t) ?_)
    rintro ⟨parts, span⟩ hparts
    exact .pure (fits_mk rfl (by simpa [Shape.places] using ⟨hp, hparts⟩))
  case h_4 => exact .ite (fun _ => hleave _ hp) fun _ => .unexpected
  case h_5 =>
    refine .ite (fun _ => hleave p hp) fun _ => .ite (fun _ => ?_) fun _ => ?_
    · exact .ite (fun _ => hleave _ hp) fun _ => .unexpected
    · refine .ite (fun _ => .refuse) fun _ => ?_
      exact .bind (hrightOf _) fun _ h => .pure h

theorem ensures_expression (f : Frame) (e : Extent) :
    (expression rules f e).Ensures fun r => r.node.Fits .expression :=
  .bind (ensures_operand hr f e) fun _ ho =>
    .iterate (fun _ hp => ensures_operation hr f e hp) rules.bound ho

end ScriptMin.Grammar
