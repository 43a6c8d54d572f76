import ScriptMin.Grammar.Expression
import ScriptMin.Proofs.Strictness.Class
import ScriptMin.Proofs.Strictness.Target

/-!
# Expressions are read as their frames say

Operands, and the operators that take them in, all in the frame of the expression.
-/

namespace ScriptMin.Grammar

open Parse Node

variable {rules : Rules} {f : Frame} {strict : Bool}

/-! ## Literals -/

/-- A shape without children. -/
structure IsLeafShape (shape : Shape Node) : Prop where
  isUniform : shape.isUniform
  children : shape.children = []

theorem IsLeafShape.readAs {shape : Shape Node} (h : IsLeafShape shape) (span : Source.Span) :
    ReadAs strict ⟨span, shape⟩ :=
  .uniform h.isUniform (by simp [h.children])

theorem isLeafShape_stringLiteral (t : Token) : (stringLiteral t).Ensures IsLeafShape := by
  refine .bind_any fun _ => ?_
  split
  exact .pure ⟨rfl, rfl⟩

theorem readAs_simpleOperand (f : Frame) (t : Token) :
    (simpleOperand f t).Ensures (ReadAs strict) := by
  unfold simpleOperand
  extract_lets node
  have hnode (shape : Shape Node) (h : IsLeafShape shape) : (node shape).Ensures (ReadAs strict) :=
    .pure (h.readAs _)
  split
  case h_1 => exact .ite (fun _ => hnode _ ⟨rfl, rfl⟩) fun _ => .bind_refuse
  case h_2 | h_3 | h_4 | h_5 | h_8 => exact hnode _ ⟨rfl, rfl⟩
  case h_6 => exact .bind_any fun _ => .bind_any fun _ => hnode _ ⟨rfl, rfl⟩
  case h_7 => exact .bind_any fun _ => hnode _ ⟨rfl, rfl⟩
  case h_9 => exact .bind (isLeafShape_stringLiteral t) hnode
  case h_10 => exact .bind_unexpected

theorem readAs_markParenthesised {n : Node} (h : n.ReadAs strict) :
    (markParenthesised n).ReadAs strict := by
  obtain ⟨span, shape⟩ := n
  unfold markParenthesised
  split
  case h_1 | h_2 | h_3 =>
    rename_i hshape
    cases hshape
    exact .mk h.checked h.parts nofun
  case h_4 => exact h

theorem readAs_elements {n e : Node} (h : n.ReadAs strict) (he : e ∈ n.elements) :
    e.ReadAs strict := by
  obtain ⟨span, shape⟩ := n
  unfold Node.elements at he
  split at he
  case h_1 first rest hshape =>
    cases hshape
    exact h.child rfl he
  case h_2 =>
    rw [List.mem_singleton.1 he]
    exact h

theorem readAs_objectMember {m : Key Node × MemberValue Node} (h : MemberReadAs strict m)
    (span : Source.Span) : ReadAs strict ⟨span, .objectMember (objectMemberContent m.1 m.2)⟩ := by
  unfold objectMemberContent
  split
  · exact .uniform rfl nofun
  · exact .mk h.2.checked (List.forall_mem_append.2 ⟨readAs_each.2 h.1, h.2.parts⟩) nofun

variable (hr : rules.Track)

include hr

theorem readAs_arguments (f : Frame) :
    (arguments rules f).Ensures fun read => ∀ n ∈ read, n.ReadAs f.strict := by
  refine .bind (.iterate (I := fun read => ∀ n ∈ read, n.ReadAs f.strict)
    (Q := fun reversed => ∀ n ∈ reversed, n.ReadAs f.strict)
    (fun read hread => ?_) rules.bound nofun)
    fun reversed hreversed => .pure (by simpa using hreversed)
  refine .bind_any fun _ => .ite (fun _ => .pure hread) fun _ => .bind_any fun spread => ?_
  refine .bind (hr.single f _) fun value hvalue => ?_
  have hargument (span : Source.Span) : ReadAs f.strict ⟨span, .argument spread.isSome value⟩ :=
    .uniform rfl (List.forall_mem_singleton.2 hvalue)
  have hread (span : Source.Span) := List.forall_mem_cons.2 ⟨hargument span, hread⟩
  exact .bind_any fun _ => .ite (fun _ => .pure (hread _)) fun _ => .pure (hread _)

theorem readAs_arrayLiteral (f : Frame) (first : Token) :
    (arrayLiteral rules f first).Ensures (ReadAs f.strict) := by
  refine .bind (.iterate
    (I := fun read => ∀ e ∈ read, ∀ c ∈ ArrayElement.children e, c.ReadAs f.strict)
    (Q := fun reversed => ∀ e ∈ reversed, ∀ c ∈ ArrayElement.children e, c.ReadAs f.strict)
    (fun read hread => ?_) rules.bound nofun)
    fun reversed hreversed => .bind_any fun _ => .pure (.uniform rfl ?_)
  · refine .bind_any fun _ => .ite (fun _ => ?_) fun _ => ?_
    · exact .pure (List.forall_mem_cons.2 ⟨nofun, hread⟩)
    refine .bind_any fun _ => .ite (fun _ => .pure hread) fun _ => .bind_any fun isSpread => ?_
    refine .bind (hr.single f _) fun value hvalue => ?_
    have helement : ∀ c ∈ (if isSpread then ArrayElement.spread value else .item value).children,
        c.ReadAs f.strict := by
      cases isSpread <;> exact List.forall_mem_singleton.2 hvalue
    have hread := List.forall_mem_cons
      (p := fun e => ∀ c ∈ ArrayElement.children e, ReadAs f.strict c).2 ⟨helement, hread⟩
    extract_lets
    exact .bind_any fun _ => .ite (fun _ => .pure hread) fun _ => .bind_any fun _ => .pure hread
  · exact List.forall_mem_flatMap.2 fun e he => hreversed e (List.mem_reverse.1 he)

theorem readAs_objectLiteral (f : Frame) (first : Token) :
    (objectLiteral rules f first).Ensures (ReadAs f.strict) := by
  refine .bind (.iterate (I := fun read => ∀ m ∈ read, m.ReadAs f.strict)
    (Q := fun reversed => ∀ m ∈ reversed, m.ReadAs f.strict)
    (fun read hread => ?_) rules.bound nofun)
    fun reversed hreversed => .bind_any fun _ => .pure
      (.uniform rfl (by simpa [Shape.children] using hreversed))
  refine .bind_any fun _ => .ite (fun _ => .pure hread) fun _ => .bind_any fun place => ?_
  refine .bind_any fun isSpread => ?_
  extract_lets rest
  have hrest (content : ObjectMember Node)
      (hcontent : ∀ span, ReadAs f.strict ⟨span, .objectMember content⟩) :
      (rest content).Ensures
        (Round.Holds (∀ m ∈ ·, m.ReadAs f.strict) (∀ m ∈ ·, m.ReadAs f.strict)) := by
    refine .bind_any fun span => ?_
    have hread := List.forall_mem_cons.2 ⟨hcontent span, hread⟩
    extract_lets
    exact .bind_any fun _ => .ite (fun _ => .pure hread) fun _ => .bind_any fun _ => .pure hread
  refine .ite (fun _ => ?_) fun _ => ?_
  · refine .bind (hr.single f _) fun value hvalue => hrest (.spread value) fun _ => ?_
    exact .uniform rfl (List.forall_mem_singleton.2 hvalue)
  · exact .bind (readAs_member hr f .object) fun m hm => hrest _ (readAs_objectMember hm)

theorem readAs_templateParts (f : Frame) (head : Token) :
    (templateParts rules f head).Ensures fun (parts, _) =>
      ∀ p ∈ parts, ∀ c ∈ TemplatePart.children p, c.ReadAs f.strict := by
  refine .bind (.iterate
    (I := fun read => ∀ p ∈ read.1, ∀ c ∈ TemplatePart.children p, c.ReadAs f.strict)
    (Q := fun reversed => ∀ p ∈ reversed.1, ∀ c ∈ TemplatePart.children p, c.ReadAs f.strict)
    ?_ rules.bound (List.forall_mem_singleton.2 (List.forall_mem_nil _)))
    fun _ h => .pure (by simpa using h)
  rintro ⟨read, piece⟩ hread
  refine .ite (fun _ => .pure hread) fun _ => .bind (hr.whole f _) fun value hvalue => ?_
  refine .bind_any fun _ => .bind_any fun piece => .pure ?_
  refine List.forall_mem_cons.2 ⟨List.forall_mem_nil _, List.forall_mem_cons.2 ⟨?_, hread⟩⟩
  exact List.forall_mem_singleton.2 hvalue

/-! ## Operands -/

theorem readAs_subscript (f : Frame) :
    (subscript rules f).Ensures fun (value, _) => value.ReadAs f.strict :=
  .bind (hr.whole f _) fun _ hvalue => .bind_any fun _ => .pure hvalue

theorem readAs_importExpression (f : Frame) (first : Token) :
    (importExpression rules f first).Ensures (ReadAs f.strict) := by
  refine .bind_any fun _ => .ite (fun _ => ?_) fun _ => .bind_any fun _ => ?_
  · exact .bind_any fun _ => .pure (.uniform rfl nofun)
  · refine .bind (hr.single f _) fun specifier hspecifier => .bind_any fun _ => .pure ?_
    exact .uniform rfl (List.forall_mem_singleton.2 hspecifier)

theorem readAs_constructorAccesses (f : Frame) {callee : Node} (hcallee : callee.ReadAs f.strict) :
    (constructorAccesses rules f callee).Ensures (ReadAs f.strict) := by
  refine .iterate (I := ReadAs f.strict) (fun callee hcallee => ?_) rules.bound hcallee
  refine .bind_any fun t => ?_
  split
  case h_1 =>
    refine .bind_any fun _ => .bind_any fun name => .pure ?_
    exact .uniform rfl (List.forall_mem_singleton.2 hcallee)
  case h_2 =>
    refine .bind_any fun _ => .bind (readAs_subscript hr f) ?_
    rintro ⟨value, close⟩ hvalue
    refine .pure (.uniform rfl ?_)
    simpa [Shape.children] using ⟨hcallee, hvalue⟩
  case h_3 =>
    refine .bind_any fun _ => .bind (readAs_templateParts hr f t) ?_
    rintro ⟨parts, span⟩ hparts
    refine .pure (.uniform rfl (List.forall_mem_append.2 ⟨?_, ?_⟩))
    · exact List.forall_mem_singleton.2 hcallee
    · exact List.forall_mem_flatMap.2 hparts
  case h_4 => exact .pure hcallee

theorem readAs_yieldOperand (f : Frame) (e : Extent) (t : Token) :
    (yieldOperand rules f e t).Ensures fun o => o.node.ReadAs f.strict := by
  refine .ite (fun _ => .unexpected) fun _ => .ite (fun _ => .refuse) fun _ => ?_
  refine .bind_any fun after => ?_
  extract_lets delegates operand
  have hoperand (u : Unit) : (operand u).Ensures fun o => o.node.ReadAs f.strict :=
    .bind (hr.value f _) fun value hvalue => .pure
      (.uniform rfl (List.forall_mem_singleton.2 hvalue))
  refine .ite (fun _ => .pure (.uniform rfl nofun)) fun _ => ?_
  exact .ite (fun _ => .bind_any hoperand) fun _ => hoperand ()

theorem readAs_unaryOperand (f : Frame) (e : Extent) (t : Token) (operator : UnaryOperator) :
    (unaryOperand rules f e t operator).Ensures fun o => o.node.ReadAs f.strict := by
  refine .bind (hr.value f _) fun operand hoperand => ?_
  extract_lets rest
  have hrest (u : Unit) : (rest u).Ensures fun o => o.node.ReadAs f.strict :=
    .pure (.uniform rfl (List.forall_mem_singleton.2 hoperand))
  exact .ite (fun _ => .bind_any hrest) fun _ => hrest ()

theorem readAs_parenthesisedOperand (f : Frame) (e : Extent) :
    (parenthesisedOperand rules f e).Ensures fun o => o.node.ReadAs f.strict := by
  refine .bind (readAs_parenthesisedArrow? hr f e _ _) fun arrow harrow => ?_
  cases arrow with
  | some operand => exact .pure (harrow operand rfl)
  | none =>
    refine .bind (hr.parenthesised f) fun group hgroup => .bind_any fun after => ?_
    extract_lets
    refine .ite (fun _ => .ite (fun _ => .refuse) fun _ => .unexpected) fun _ => .pure ?_
    exact readAs_markParenthesised hgroup

theorem readAs_asyncOperand (f : Frame) (e : Extent) (place : Cursor) (t : Token) :
    (asyncOperand rules f e place t).Ensures fun o => o.node.ReadAs f.strict := by
  have hname : ReadAs f.strict ⟨t.span, .identifier t.text⟩ :=
    .uniform rfl nofun
  refine .bind_any fun after => .ite (fun _ => .pure hname) fun _ => ?_
  split
  case h_1 => exact .bind_any fun _ => .bind (readAs_functionExpression hr f) fun _ h => .pure h
  case h_2 =>
    refine .bind (readAs_parenthesisedArrow? hr f e _ _) fun arrow harrow => .pure ?_
    cases arrow with
    | some operand => exact harrow operand rfl
    | none => exact hname
  case h_3 =>
    refine .ite (fun _ => .bind_any fun name => ?_) fun _ => .pure hname
    exact readAs_singleParameterArrow hr f e _ _ name

theorem readAs_nameOperand (f : Frame) (e : Extent) (t : Token) :
    (nameOperand rules f e t).Ensures fun o => o.node.ReadAs f.strict := by
  refine .bind_any fun _ => .ite (fun _ => ?_) fun _ => ?_
  · exact readAs_singleParameterArrow hr f e _ _ t
  · exact .bind_any fun _ => .pure (.uniform rfl nofun)

theorem readAs_operand (f : Frame) (e : Extent) :
    (operand rules f e).Ensures fun o => o.node.ReadAs f.strict := by
  refine .bind_any fun place => .bind_any fun t => ?_
  split
  case h_1 operator _ => exact readAs_unaryOperand hr f e t operator
  case h_2 =>
    split
    case h_1 => exact .bind (hr.construct f t) fun _ h => .pure h
    case h_2 => exact readAs_asyncOperand hr f e place t
    case h_3 => exact .bind_any fun _ => .bind (readAs_functionExpression hr f) fun _ h => .pure h
    case h_4 =>
      exact .bind_any fun _ => .bind (readAs_classExpression hr f) fun _ h => .pure h
    case h_5 => exact .bind (readAs_importExpression hr f t) fun _ h => .pure h
    case h_6 => exact .bind (readAs_arrayLiteral hr f t) fun _ h => .pure h
    case h_7 => exact .bind (readAs_objectLiteral hr f t) fun _ h => .pure h
    case h_8 => exact .bind_any fun _ => readAs_parenthesisedOperand hr f e
    case h_9 =>
      refine .bind (readAs_templateParts hr f t) ?_
      rintro ⟨parts, span⟩ hparts
      exact .pure (.uniform rfl (List.forall_mem_flatMap.2 hparts))
    case h_10 =>
      refine .ite (fun _ => readAs_unaryOperand hr f e t .await) fun _ => ?_
      refine .ite (fun _ => readAs_yieldOperand hr f e t) fun _ => ?_
      refine .ite (fun _ => readAs_nameOperand hr f e t) fun _ => ?_
      exact .bind (readAs_simpleOperand f t) fun _ h => .pure h

theorem readAs_construct (f : Frame) (first : Token) :
    (construct rules f first).Ensures (ReadAs f.strict) := by
  refine .bind_any fun _ => .ite (fun _ => ?_) fun _ => .bind_any fun nested => ?_
  · exact .bind_any fun _ => .pure (.uniform rfl nofun)
  extract_lets rest
  have hrest (inner : Node) (hinner : inner.ReadAs f.strict) :
      (rest inner).Ensures (ReadAs f.strict) := by
    refine .bind (readAs_constructorAccesses hr f hinner) fun callee hcallee => ?_
    refine .bind_any fun _ => .ite (fun _ => ?_) fun _ => ?_
    · refine .bind (readAs_arguments hr f) fun arguments harguments => .bind_any fun _ => .pure ?_
      exact .uniform rfl (List.forall_mem_cons.2 ⟨hcallee, harguments⟩)
    · exact .pure (.uniform rfl (List.forall_mem_singleton.2 hcallee))
  cases nested with
  | some t => exact .bind (hr.construct f t) hrest
  | none => exact .bind (readAs_operand hr f _) fun o ho => hrest o.node ho

/-! ## Operators -/

theorem readAs_rightOf (f : Frame) (e : Extent) (p : Progress) (hp : p.left.ReadAs f.strict)
    (operator : Operator) (t : Token) :
    (rightOf rules f e p operator t).Ensures fun p => p.left.ReadAs f.strict := by
  unfold rightOf
  extract_lets right
  have hright : right.Ensures fun r => r.node.ReadAs f.strict := hr.value f _
  split
  case h_1 =>
    refine .bind (readAs_arguments hr f) fun arguments harguments => .bind_any fun _ => .pure ?_
    exact .uniform rfl (List.forall_mem_cons.2 ⟨hp, harguments⟩)
  case h_2 =>
    refine .bind (readAs_subscript hr f) ?_
    rintro ⟨value, close⟩ hvalue
    refine .pure (.uniform rfl ?_)
    simpa [Shape.children] using ⟨hp, hvalue⟩
  case h_3 =>
    refine .bind_any fun _ => .pure (.uniform rfl ?_)
    exact List.forall_mem_singleton.2 hp
  case h_4 =>
    refine .bind (hr.single f _) fun consequent hconsequent => .bind_any fun _ => ?_
    refine .bind (hr.value f _) fun alternate halternate => .pure ?_
    refine .uniform rfl ?_
    simpa [Shape.children] using ⟨hp, hconsequent, halternate⟩
  case h_5 =>
    refine .bind hright fun value hvalue => .pure (.uniform rfl ?_)
    refine List.forall_mem_append.2 ⟨fun e he => readAs_elements hp he, ?_⟩
    exact List.forall_mem_singleton.2 hvalue
  case h_6 =>
    refine .bind (.check (Q := ReadAs f.strict) fun t ht => ?_) fun target htarget => ?_
    · exact readAs_assignmentTarget hp ht
    · refine .bind hright fun value hvalue => .pure (.uniform rfl ?_)
      simpa [Shape.children] using ⟨htarget, hvalue⟩
  case h_7 =>
    refine .bind hright fun value hvalue => .pure (.uniform rfl ?_)
    simpa [Shape.children] using ⟨hp, hvalue⟩
  case h_8 => exact .unexpected

theorem readAs_operation (f : Frame) (e : Extent) {p : Progress} (hp : p.left.ReadAs f.strict) :
    (operation rules f e p).Ensures
      (Round.Holds (fun p => p.left.ReadAs f.strict) fun r => r.node.ReadAs f.strict) := by
  refine .ite (fun _ => .pure hp) fun _ => .bind_any fun place => .bind_any fun t => ?_
  extract_lets leave closing update ends
  have hleave (q : Progress) (hq : q.left.ReadAs f.strict) : (leave q).Ensures
      (Round.Holds (fun p => p.left.ReadAs f.strict) fun r => r.node.ReadAs f.strict) :=
    .bind_any fun _ => .pure hq
  have hclosing (precedence : Nat) (read : Parse Progress)
      (hread : read.Ensures fun p => p.left.ReadAs f.strict) : (closing precedence read).Ensures
        (Round.Holds (fun p => p.left.ReadAs f.strict) fun r => r.node.ReadAs f.strict) :=
    .ite (fun _ => hleave p hp) fun _ => .ite (fun _ => .unexpected) fun _ =>
      .bind hread fun _ h => .pure h
  have hupdate (op : PostfixOperator) : (update op).Ensures
      (Round.Holds (fun p => p.left.ReadAs f.strict) fun r => r.node.ReadAs f.strict) :=
    hclosing _ _ (.bind_any fun _ => .pure
      (.uniform rfl (List.forall_mem_singleton.2 hp)))
  have hrightOf (operator : Operator) :
      (rightOf rules f e { p with logical := logicalAtRoot operator } operator t).Ensures
        fun p => p.left.ReadAs f.strict :=
    readAs_rightOf hr f e { p with logical := logicalAtRoot operator } hp operator t
  refine .ite (fun _ => hleave p hp) fun _ => ?_
  split
  case h_1 | h_2 => exact hupdate _
  case h_3 =>
    refine hclosing _ _ (.bind (readAs_templateParts hr f t) ?_)
    rintro ⟨parts, span⟩ hparts
    refine .pure (.uniform rfl (List.forall_mem_append.2 ⟨?_, ?_⟩))
    · exact List.forall_mem_singleton.2 hp
    · exact List.forall_mem_flatMap.2 hparts
  case h_4 => exact .ite (fun _ => hleave _ hp) fun _ => .unexpected
  case h_5 =>
    refine .ite (fun _ => hleave p hp) fun _ => .ite (fun _ => ?_) fun _ => ?_
    · exact .ite (fun _ => hleave _ hp) fun _ => .unexpected
    · refine .ite (fun _ => .refuse) fun _ => ?_
      exact .bind (hrightOf _) fun _ h => .pure h

theorem readAs_expression (f : Frame) (e : Extent) :
    (expression rules f e).Ensures fun r => r.node.ReadAs f.strict :=
  .bind (readAs_operand hr f e) fun _ ho =>
    .iterate (fun _ hp => readAs_operation hr f e hp) rules.bound ho

end ScriptMin.Grammar
