import ScriptMin.Grammar.Expression
import ScriptMin.Proofs.Setting.Function
import ScriptMin.Proofs.Setting.Target

/-!
# Expressions are legal where they stand

Operands, and the operators that take them in. `yield`, `await`, `super` and `new.target` are read
only where the frame grants them, so the setting has what they need.
-/

namespace ScriptMin.Grammar

open Parse Node

variable {rules : Rules} {f : Frame} {s : Setting}

/-! ## Literals -/

/-- A shape without children that is allowed anywhere. -/
structure IsLeaf (s : Setting) (shape : Shape Node) : Prop where
  isPlain : shape.isPlain
  allows : s.Allows shape
  children : shape.children = []

theorem IsLeaf.legal {shape : Shape Node} (h : IsLeaf s shape) (span : Source.Span) :
    Legal s ⟨span, shape⟩ :=
  legal_plain h.isPlain h.allows (by simp [h.children])

theorem stands_stringLiteral (t : Token) : (stringLiteral t).Ensures (IsLeaf s) := by
  refine .bind_any fun _ => ?_
  split
  exact .pure ⟨rfl, ⟨trivial, trivial⟩, rfl⟩

theorem stands_simpleOperand (h : Admits s f) (t : Token) :
    (simpleOperand f t).Ensures (Legal s) := by
  unfold simpleOperand
  extract_lets node
  have hnode (shape : Shape Node) (h : IsLeaf s shape) : (node shape).Ensures (Legal s) :=
    .pure (h.legal _)
  split
  case h_1 =>
    refine .ite (fun hsuper => ?_) fun _ => .bind_refuse
    exact hnode _ ⟨rfl, ⟨trivial, h.allowsSuper hsuper⟩, rfl⟩
  case h_2 | h_3 | h_4 | h_5 | h_8 => exact hnode _ ⟨rfl, ⟨trivial, trivial⟩, rfl⟩
  case h_6 => exact .bind_any fun _ => .bind_any fun _ => hnode _ ⟨rfl, ⟨trivial, trivial⟩, rfl⟩
  case h_7 => exact .bind_any fun _ => hnode _ ⟨rfl, ⟨trivial, trivial⟩, rfl⟩
  case h_9 => exact .bind (stands_stringLiteral t) hnode
  case h_10 => exact .bind_unexpected

theorem legal_markParenthesised {n : Node} (h : n.Legal s) : (markParenthesised n).Legal s := by
  obtain ⟨span, shape⟩ := n
  unfold markParenthesised
  split
  case h_1 | h_2 | h_3 =>
    rename_i hshape
    cases hshape
    exact legal_mk h.allows h.around
  case h_4 => exact h

theorem legal_elements {n e : Node} (h : n.Legal s.inner) (he : e ∈ n.elements) :
    e.Legal s.inner := by
  obtain ⟨span, shape⟩ := n
  unfold Node.elements at he
  split at he
  case h_1 first rest hshape =>
    cases hshape
    exact h.child rfl he
  case h_2 =>
    rw [List.mem_singleton.1 he]
    exact h

theorem settled_objectMemberContent {key : Key Node} {value : MemberValue Node}
    (hkey : ∀ c ∈ key.children, c.Legal s) (hvalue : Settled (value.around s)) :
    Settled ((objectMemberContent key value).around s) := by
  unfold objectMemberContent
  split
  · exact settled_nil
  · exact settled_append.2 ⟨settled_each.2 hkey, hvalue⟩

variable (hr : rules.Stands) (h : Admits s f)

include hr h

theorem stands_arguments :
    (arguments rules f).Ensures fun read => ∀ n ∈ read, n.Legal s.inner := by
  refine .bind (.iterate (I := fun read => ∀ n ∈ read, n.Legal s.inner)
    (Q := fun reversed => ∀ n ∈ reversed, n.Legal s.inner)
    (fun read hread => ?_) rules.bound nofun)
    fun reversed hreversed => .pure (by simpa using hreversed)
  refine .bind_any fun _ => .ite (fun _ => .pure hread) fun _ => .bind_any fun spread => ?_
  refine .bind (hr.single h _) fun value hvalue => ?_
  have hargument (span : Source.Span) : Legal s.inner ⟨span, .argument spread.isSome value⟩ :=
    legal_plain rfl ⟨trivial, trivial⟩ (List.forall_mem_singleton.2 hvalue)
  have hread (span : Source.Span) := List.forall_mem_cons.2 ⟨hargument span, hread⟩
  exact .bind_any fun _ => .ite (fun _ => .pure (hread _)) fun _ => .pure (hread _)

theorem stands_arrayLiteral (first : Token) :
    (arrayLiteral rules f first).Ensures (Legal s.inner) := by
  refine .bind (.iterate
    (I := fun read => ∀ e ∈ read, ∀ c ∈ ArrayElement.children e, c.Legal s.inner)
    (Q := fun reversed => ∀ e ∈ reversed, ∀ c ∈ ArrayElement.children e, c.Legal s.inner)
    (fun read hread => ?_) rules.bound nofun)
    fun reversed hreversed => .bind_any fun _ => .pure
      (legal_plain rfl ⟨trivial, trivial⟩ ?_)
  · refine .bind_any fun _ => .ite (fun _ => ?_) fun _ => ?_
    · exact .pure (List.forall_mem_cons.2 ⟨nofun, hread⟩)
    refine .bind_any fun _ => .ite (fun _ => .pure hread) fun _ => .bind_any fun isSpread => ?_
    refine .bind (hr.single h _) fun value hvalue => ?_
    have helement : ∀ c ∈ (if isSpread then ArrayElement.spread value else .item value).children,
        c.Legal s.inner := by
      cases isSpread <;> exact List.forall_mem_singleton.2 hvalue
    have hread := List.forall_mem_cons
      (p := fun e => ∀ c ∈ ArrayElement.children e, Legal s.inner c).2 ⟨helement, hread⟩
    extract_lets
    exact .bind_any fun _ => .ite (fun _ => .pure hread) fun _ => .bind_any fun _ => .pure hread
  · exact List.forall_mem_flatMap.2 fun e he => hreversed e (List.mem_reverse.1 he)

theorem stands_objectLiteral (first : Token) :
    (objectLiteral rules f first).Ensures (Legal s.inner) := by
  refine .bind (.iterate (I := fun read => ∀ m ∈ read, m.Legal s.inner)
    (Q := fun reversed => ∀ m ∈ reversed, m.Legal s.inner)
    (fun read hread => ?_) rules.bound nofun)
    fun reversed hreversed => .bind_any fun _ => .pure
      (legal_plain rfl ⟨trivial, trivial⟩ (by simpa [Shape.children] using hreversed))
  refine .bind_any fun _ => .ite (fun _ => .pure hread) fun _ => .bind_any fun place => ?_
  refine .bind_any fun isSpread => ?_
  extract_lets rest
  have hrest (content : ObjectMember Node) (hcontent : Settled (content.around s.inner)) :
      (rest content).Ensures
        (Round.Holds (∀ m ∈ ·, m.Legal s.inner) (∀ m ∈ ·, m.Legal s.inner)) := by
    refine .bind_any fun span => ?_
    have hmember : Legal s.inner ⟨span, .objectMember content⟩ :=
      legal_mk ⟨trivial, trivial⟩ hcontent
    have hread := List.forall_mem_cons.2 ⟨hmember, hread⟩
    extract_lets
    exact .bind_any fun _ => .ite (fun _ => .pure hread) fun _ => .bind_any fun _ => .pure hread
  refine .ite (fun _ => ?_) fun _ => .bind (stands_member hr h .object) ?_
  · refine .bind (hr.single h _) fun value hvalue => hrest (.spread value) ?_
    exact settled_cons.2 ⟨hvalue, settled_nil⟩
  · rintro ⟨key, value⟩ ⟨hkey, hvalue⟩
    exact hrest _ (settled_objectMemberContent hkey hvalue)

theorem stands_templateParts (head : Token) :
    (templateParts rules f head).Ensures fun (parts, _) =>
      ∀ p ∈ parts, ∀ c ∈ TemplatePart.children p, c.Legal s.inner := by
  refine .bind (.iterate
    (I := fun read => ∀ p ∈ read.1, ∀ c ∈ TemplatePart.children p, c.Legal s.inner)
    (Q := fun reversed => ∀ p ∈ reversed.1, ∀ c ∈ TemplatePart.children p, c.Legal s.inner)
    ?_ rules.bound (List.forall_mem_singleton.2 (List.forall_mem_nil _)))
    fun _ h => .pure (by simpa using h)
  rintro ⟨read, piece⟩ hread
  refine .ite (fun _ => .pure hread) fun _ => .bind (hr.whole h _) fun value hvalue => ?_
  refine .bind_any fun _ => .bind_any fun piece => .pure ?_
  refine List.forall_mem_cons.2 ⟨List.forall_mem_nil _, List.forall_mem_cons.2 ⟨?_, hread⟩⟩
  exact List.forall_mem_singleton.2 hvalue

/-! ## Operands -/

theorem stands_subscript : (subscript rules f).Ensures fun (value, _) => value.Legal s.inner :=
  .bind (hr.whole h _) fun _ hvalue => .bind_any fun _ => .pure hvalue

theorem stands_importExpression (first : Token) :
    (importExpression rules f first).Ensures (Legal s.inner) := by
  refine .bind_any fun _ => .ite (fun _ => ?_) fun _ => .bind_any fun _ => ?_
  · exact .bind_any fun _ => .pure (legal_plain rfl ⟨trivial, trivial⟩ nofun)
  · refine .bind (hr.single h _) fun specifier hspecifier => .bind_any fun _ => .pure ?_
    exact legal_plain rfl ⟨trivial, trivial⟩ (List.forall_mem_singleton.2 hspecifier)

theorem stands_constructorAccesses {callee : Node} (hcallee : callee.Legal s.inner) :
    (constructorAccesses rules f callee).Ensures (Legal s.inner) := by
  refine .iterate (I := Legal s.inner) (fun callee hcallee => ?_) rules.bound hcallee
  refine .bind_any fun t => ?_
  split
  case h_1 =>
    refine .bind_any fun _ => .bind_any fun name => .pure ?_
    exact legal_plain rfl ⟨trivial, trivial⟩ (List.forall_mem_singleton.2 hcallee)
  case h_2 =>
    refine .bind_any fun _ => .bind (stands_subscript hr h) ?_
    rintro ⟨value, close⟩ hvalue
    refine .pure (legal_plain rfl ⟨trivial, trivial⟩ ?_)
    simpa [Shape.children] using ⟨hcallee, hvalue⟩
  case h_3 =>
    refine .bind_any fun _ => .bind (stands_templateParts hr h t) ?_
    rintro ⟨parts, span⟩ hparts
    refine .pure (legal_plain rfl ⟨trivial, trivial⟩ (List.forall_mem_append.2 ⟨?_, ?_⟩))
    · exact List.forall_mem_singleton.2 hcallee
    · exact List.forall_mem_flatMap.2 hparts
  case h_4 => exact .pure hcallee

/-- A `yield` is read in a generator, and not among its parameters. -/
theorem stands_yieldOperand (hgenerator : f.generator) (e : Extent) (t : Token) :
    (yieldOperand rules f e t).Ensures fun o => o.node.Legal s.inner := by
  refine .ite (fun _ => .unexpected) fun _ => .ite (fun _ => .refuse) fun hparameters => ?_
  have hallows (delegates : Bool) (operand : Option Node) :
      s.inner.Allows (.yieldExpression delegates operand) :=
    ⟨trivial, h.generator hgenerator (by simpa using hparameters)⟩
  refine .bind_any fun after => ?_
  extract_lets delegates operand
  have hoperand (u : Unit) : (operand u).Ensures fun o => o.node.Legal s.inner := by
    refine .bind (hr.expression _ h) fun value hvalue => .pure (legal_plain rfl (hallows _ _) ?_)
    exact List.forall_mem_singleton.2 hvalue
  refine .ite (fun _ => .pure (legal_plain rfl (hallows _ _) nofun)) fun _ => ?_
  exact .ite (fun _ => .bind_any hoperand) fun _ => hoperand ()

theorem stands_unaryOperand (e : Extent) (t : Token) {operator : UnaryOperator}
    (hallows : ∀ operand : Node, s.inner.Allows (.unary operator operand)) :
    (unaryOperand rules f e t operator).Ensures fun o => o.node.Legal s.inner := by
  refine .bind (hr.expression _ h) fun operand hoperand => ?_
  extract_lets rest
  have hrest (u : Unit) : (rest u).Ensures fun o => o.node.Legal s.inner :=
    .pure (legal_plain rfl (hallows _) (List.forall_mem_singleton.2 hoperand))
  exact .ite (fun _ => .bind_any hrest) fun _ => hrest ()

theorem stands_parenthesisedOperand (e : Extent) :
    (parenthesisedOperand rules f e).Ensures fun o => o.node.Legal s.inner := by
  refine .bind (stands_parenthesisedArrow? hr h.inner e _ _) fun arrow harrow => ?_
  cases arrow with
  | some operand => exact .pure (harrow operand rfl)
  | none =>
    refine .bind (hr.parenthesised h) fun group hgroup => .bind_any fun after => ?_
    extract_lets
    refine .ite (fun _ => .ite (fun _ => .refuse) fun _ => .unexpected) fun _ => .pure ?_
    exact legal_markParenthesised hgroup

theorem stands_asyncOperand (e : Extent) (place : Cursor) (t : Token) :
    (asyncOperand rules f e place t).Ensures fun o => o.node.Legal s.inner := by
  have hname : Legal s.inner ⟨t.span, .identifier t.text⟩ :=
    legal_plain rfl ⟨trivial, trivial⟩ nofun
  refine .bind_any fun after => .ite (fun _ => .pure hname) fun _ => ?_
  split
  case h_1 => exact .bind_any fun _ => .bind (stands_functionExpression hr f) fun _ h => .pure h
  case h_2 =>
    refine .bind (stands_parenthesisedArrow? hr h.inner e _ _) fun arrow harrow => .pure ?_
    cases arrow with
    | some operand => exact harrow operand rfl
    | none => exact hname
  case h_3 =>
    refine .ite (fun _ => .bind_any fun name => ?_) fun _ => .pure hname
    exact stands_singleParameterArrow hr h.inner e _ _ name

theorem stands_nameOperand (e : Extent) (t : Token) :
    (nameOperand rules f e t).Ensures fun o => o.node.Legal s.inner := by
  refine .bind_any fun _ => .ite (fun _ => ?_) fun _ => ?_
  · exact stands_singleParameterArrow hr h.inner e _ _ t
  · exact .bind_any fun _ => .pure (legal_plain rfl ⟨trivial, trivial⟩ nofun)

omit hr h in
/-- The operators that are tokens of their own are allowed anywhere. -/
theorem allows_unaryOperator? {kind : Kind} {operator : UnaryOperator}
    (h : kind.unaryOperator? = some operator) (operand : Node) :
    s.Allows (.unary operator operand) := by
  unfold Kind.unaryOperator? at h
  split at h <;> cases h <;> exact ⟨trivial, trivial⟩

theorem stands_operand (e : Extent) :
    (operand rules f e).Ensures fun o => o.node.Legal s.inner := by
  refine .bind_any fun place => .bind_any fun t => ?_
  split
  case h_1 operator hoperator =>
    exact stands_unaryOperand hr h e t (allows_unaryOperator? hoperator)
  case h_2 =>
    split
    case h_1 => exact .bind (hr.construct t h) fun _ h => .pure h
    case h_2 => exact stands_asyncOperand hr h e place t
    case h_3 => exact .bind_any fun _ => .bind (stands_functionExpression hr f) fun _ h => .pure h
    case h_4 =>
      exact .bind_any fun _ => .bind (stands_classExpression hr h.inner) fun _ h => .pure h
    case h_5 => exact .bind (stands_importExpression hr h t) fun _ h => .pure h
    case h_6 => exact .bind (stands_arrayLiteral hr h t) fun _ h => .pure h
    case h_7 => exact .bind (stands_objectLiteral hr h t) fun _ h => .pure h
    case h_8 => exact .bind_any fun _ => stands_parenthesisedOperand hr h e
    case h_9 =>
      refine .bind (stands_templateParts hr h t) ?_
      rintro ⟨parts, span⟩ hparts
      exact .pure (legal_plain rfl ⟨trivial, trivial⟩ (List.forall_mem_flatMap.2 hparts))
    case h_10 =>
      refine .ite (fun hawait => ?_) fun _ => .ite (fun hyield => ?_) fun _ => ?_
      · have hasync : f.isAsync := (Bool.and_eq_true_iff.1 hawait).2
        exact stands_unaryOperand hr h e t fun _ => ⟨trivial, h.isAsync hasync⟩
      · exact stands_yieldOperand hr h (Bool.and_eq_true_iff.1 hyield).2 e t
      · refine .ite (fun _ => stands_nameOperand hr h e t) fun _ => ?_
        exact .bind (stands_simpleOperand h.inner t) fun _ h => .pure h

theorem stands_construct (first : Token) : (construct rules f first).Ensures (Legal s.inner) := by
  refine .bind_any fun _ => .ite (fun _ => ?_) fun _ => .bind_any fun nested => ?_
  · have hname : (metaName f.inFunction "target").Ensures fun _ => f.inFunction := by
      refine .bind_any fun t => .ite (fun hname => .pure ?_) fun _ => .unexpected
      exact (Bool.and_eq_true_iff.1 hname).2
    exact .bind hname fun _ hfunction => .pure
      (legal_plain rfl ⟨trivial, h.inFunction hfunction⟩ nofun)
  extract_lets rest
  have hrest (inner : Node) (hinner : inner.Legal s.inner) :
      (rest inner).Ensures (Legal s.inner) := by
    refine .bind (stands_constructorAccesses hr h hinner) fun callee hcallee => ?_
    refine .bind_any fun _ => .ite (fun _ => ?_) fun _ => ?_
    · refine .bind (stands_arguments hr h) fun arguments harguments => .bind_any fun _ => .pure ?_
      exact legal_plain rfl ⟨trivial, trivial⟩ (List.forall_mem_cons.2 ⟨hcallee, harguments⟩)
    · exact .pure (legal_plain rfl ⟨trivial, trivial⟩ (List.forall_mem_singleton.2 hcallee))
  cases nested with
  | some t => exact .bind (hr.construct t h) hrest
  | none => exact .bind (stands_operand hr h _) fun o ho => hrest o.node ho

/-! ## Operators -/

theorem stands_rightOf (e : Extent) (p : Progress) (hp : p.left.Legal s.inner)
    (operator : Operator) (t : Token) :
    (rightOf rules f e p operator t).Ensures fun p => p.left.Legal s.inner := by
  unfold rightOf
  extract_lets right
  have hright : right.Ensures fun r => r.node.Legal s.inner := hr.expression _ h
  split
  case h_1 =>
    refine .bind (stands_arguments hr h) fun arguments harguments => .bind_any fun _ => .pure ?_
    exact legal_plain rfl ⟨trivial, trivial⟩ (List.forall_mem_cons.2 ⟨hp, harguments⟩)
  case h_2 =>
    refine .bind (stands_subscript hr h) ?_
    rintro ⟨value, close⟩ hvalue
    refine .pure (legal_plain rfl ⟨trivial, trivial⟩ ?_)
    simpa [Shape.children] using ⟨hp, hvalue⟩
  case h_3 =>
    refine .bind_any fun _ => .pure (legal_plain rfl ⟨trivial, trivial⟩ ?_)
    exact List.forall_mem_singleton.2 hp
  case h_4 =>
    refine .bind (hr.single h _) fun consequent hconsequent => .bind_any fun _ => ?_
    refine .bind (hr.expression _ h) fun alternate halternate => .pure ?_
    refine legal_plain rfl ⟨trivial, trivial⟩ ?_
    simpa [Shape.children] using ⟨hp, hconsequent, halternate⟩
  case h_5 =>
    refine .bind hright fun value hvalue => .pure (legal_plain rfl ⟨trivial, trivial⟩ ?_)
    refine List.forall_mem_append.2 ⟨fun e he => legal_elements hp he, ?_⟩
    exact List.forall_mem_singleton.2 hvalue
  case h_6 =>
    refine .bind (.check (Q := Legal s.inner) fun t ht => ?_) fun target htarget => ?_
    · exact legal_assignmentTarget hp ht
    · refine .bind hright fun value hvalue => .pure (legal_plain rfl ⟨trivial, trivial⟩ ?_)
      simpa [Shape.children] using ⟨htarget, hvalue⟩
  case h_7 =>
    refine .bind hright fun value hvalue => .pure (legal_plain rfl ⟨trivial, trivial⟩ ?_)
    simpa [Shape.children] using ⟨hp, hvalue⟩
  case h_8 => exact .unexpected

theorem stands_operation (e : Extent) {p : Progress} (hp : p.left.Legal s.inner) :
    (operation rules f e p).Ensures
      (Round.Holds (fun p => p.left.Legal s.inner) fun r => r.node.Legal s.inner) := by
  refine .ite (fun _ => .pure hp) fun _ => .bind_any fun place => .bind_any fun t => ?_
  extract_lets leave closing update ends
  have hleave (q : Progress) (hq : q.left.Legal s.inner) : (leave q).Ensures
      (Round.Holds (fun p => p.left.Legal s.inner) fun r => r.node.Legal s.inner) :=
    .bind_any fun _ => .pure hq
  have hclosing (precedence : Nat) (read : Parse Progress)
      (hread : read.Ensures fun p => p.left.Legal s.inner) : (closing precedence read).Ensures
        (Round.Holds (fun p => p.left.Legal s.inner) fun r => r.node.Legal s.inner) :=
    .ite (fun _ => hleave p hp) fun _ => .ite (fun _ => .unexpected) fun _ =>
      .bind hread fun _ h => .pure h
  have hupdate (op : PostfixOperator) : (update op).Ensures
      (Round.Holds (fun p => p.left.Legal s.inner) fun r => r.node.Legal s.inner) :=
    hclosing _ _ (.bind_any fun _ => .pure
      (legal_plain rfl ⟨trivial, trivial⟩ (List.forall_mem_singleton.2 hp)))
  have hrightOf (operator : Operator) :
      (rightOf rules f e { p with logical := logicalAtRoot operator } operator t).Ensures
        fun p => p.left.Legal s.inner :=
    stands_rightOf hr h e { p with logical := logicalAtRoot operator } hp operator t
  refine .ite (fun _ => hleave p hp) fun _ => ?_
  split
  case h_1 | h_2 => exact hupdate _
  case h_3 =>
    refine hclosing _ _ (.bind (stands_templateParts hr h t) ?_)
    rintro ⟨parts, span⟩ hparts
    refine .pure (legal_plain rfl ⟨trivial, trivial⟩ (List.forall_mem_append.2 ⟨?_, ?_⟩))
    · exact List.forall_mem_singleton.2 hp
    · exact List.forall_mem_flatMap.2 hparts
  case h_4 => exact .ite (fun _ => hleave _ hp) fun _ => .unexpected
  case h_5 =>
    refine .ite (fun _ => hleave p hp) fun _ => .ite (fun _ => ?_) fun _ => ?_
    · exact .ite (fun _ => hleave _ hp) fun _ => .unexpected
    · refine .ite (fun _ => .refuse) fun _ => ?_
      exact .bind (hrightOf _) fun _ h => .pure h

theorem stands_expression (e : Extent) :
    (expression rules f e).Ensures fun r => r.node.Legal s.inner :=
  .bind (stands_operand hr h e) fun _ ho =>
    .iterate (fun _ hp => stands_operation hr h e hp) rules.bound ho

end ScriptMin.Grammar
