import ScriptMin.Grammar.Expression
import ScriptMin.Proofs.Elsewhere.Function

/-!
# Expressions elsewhere

Operands, the operators around them and whole expressions are the same wherever their text stands.
-/

namespace ScriptMin.Grammar

open Parse Node

variable {rules rules' : Rules} (hr : rules.Agree rules')

/-- The same operand, read in the same way. -/
structure Operand.Alike (a b : Operand) : Prop where
  node : a.node.Alike b.node
  isLoose : a.isLoose = b.isLoose
  inserted : a.inserted = b.inserted

theorem Operand.Alike.plain {n m : Node} (h : n.Alike m) : (plain n).Alike (plain m) :=
  ⟨h, rfl, rfl⟩

theorem Operand.Alike.ofReading {r s : Reading} (h : r.Alike s) {n m : Node} (hnode : n.Alike m) :
    (ofReading r n).Alike (ofReading s m) :=
  ⟨hnode, rfl, h.inserted⟩

/-! ## Arrow functions -/

theorem agrees_arrow : arrow.Agrees arrow Token.Alike :=
  (Agrees.expectPunctuator _).bind_token fun _ s =>
    .ite (fun _ => .refuse rfl) fun _ => .pure (.at s)

theorem agrees_checkArrow (e : Extent) {t u : Token} (h : t.Alike u) :
    (checkArrow e t).Agrees (checkArrow e u) fun _ _ => True :=
  .ite (fun _ => .unexpected h) fun _ => .pure trivial

include hr

theorem agrees_arrowBody (f : Frame) (e : Extent) :
    (arrowBody rules f e).Agrees (arrowBody rules' f e) fun a b =>
      a.1.Alike b.1 ∧ a.2 = b.2 := by
  refine (Agrees.atPunctuator _).bind_eq fun _ => .ite (fun _ => ?_) fun _ => ?_
  · exact (agrees_functionBody hr f).bind fun _ _ h => .pure ⟨⟨h.1, rfl⟩, h.2⟩
  · exact (hr.expression f _).bind fun _ _ h => .pure ⟨h, rfl⟩

theorem agrees_arrowFunction (f : Frame) (e : Extent) (isAsync : Bool) (start start' : Source.Span)
    {parameters parameters' : Node} (h : parameters.Alike parameters') :
    (arrowFunction rules f e isAsync start parameters).Agrees
      (arrowFunction rules' f e isAsync start' parameters') Operand.Alike := by
  refine (agrees_arrowBody hr _ _).bind ?_
  rintro ⟨body, strict⟩ ⟨body', _⟩ ⟨hbody, rfl⟩
  refine (Agrees.check (checksAlike_parameters _ _ _ h)).bind_any fun _ _ =>
    .pure ⟨Node.Alike.mk ?_, rfl, hbody.inserted⟩
  simp only [Shape.map, h, hbody.node]

theorem agrees_singleParameterArrow (f : Frame) (e : Extent) (isAsync : Bool)
    (start start' : Source.Span) {name name' : Token} (h : name.Alike name') :
    (singleParameterArrow rules f e isAsync start name).Agrees
      (singleParameterArrow rules' f e isAsync start' name') Operand.Alike := by
  obtain ⟨s⟩ := h
  refine agrees_arrow.bind fun _ _ harrow => (agrees_checkArrow e harrow).bind_any fun _ _ => ?_
  refine (Agrees.check (checksAlike_binding _ _ (by rfl))).bind_any fun _ _ => ?_
  exact agrees_arrowFunction hr f e isAsync _ _ (Node.Alike.mk rfl)

theorem agrees_parenthesisedArrow? (f : Frame) (e : Extent) (isAsync : Bool)
    (start start' : Option Source.Span) :
    (parenthesisedArrow? rules f e isAsync start).Agrees
      (parenthesisedArrow? rules' f e isAsync start') (Option.Rel Operand.Alike) := by
  refine (Agrees.attempt _ (R := fun a b => a.1.Alike b.1 ∧ a.2.Alike b.2) ?_).bind
    fun _ _ hhead => ?_
  · exact (agrees_signature hr _).bind fun _ _ hparameters => agrees_arrow.bind fun _ _ harrow =>
      .pure ⟨hparameters, harrow⟩
  · cases hhead with
    | none => exact .pure .none
    | some h =>
      refine (agrees_checkArrow e h.2).bind_any fun _ _ => ?_
      exact (agrees_arrowFunction hr f e isAsync _ _ h.1).bind fun _ _ h => .pure (.some h)

/-! ## Arguments and literals -/

theorem agrees_arguments (f : Frame) :
    (arguments rules f).Agrees (arguments rules' f) ListsAlike := by
  refine (Agrees.iterate (I := ListsAlike) (R := ListsAlike) (fun read read' hread => ?_) _ _
    (by rfl)).bind fun _ _ h => .pure h.reverse
  refine (Agrees.atPunctuator _).bind_eq fun _ => .ite (fun _ => .pure (.done hread)) fun _ => ?_
  refine (Agrees.takeIf _).bind fun spread spread' hspread => ?_
  refine (hr.single f _).bind fun value value' hvalue => ?_
  have hspread : spread.isSome = spread'.isSome := by cases hspread <;> rfl
  extract_lets span read span' read'
  have hread : ListsAlike read read' :=
    hread.cons (Node.Alike.mk (by simp only [Shape.map, hspread, hvalue]))
  exact (Agrees.tookPunctuator _).bind_eq fun _ =>
    .ite (fun _ => .pure (.again hread)) fun _ => .pure (.done hread)

theorem agrees_arrayLiteral (f : Frame) (first first' : Token) :
    (arrayLiteral rules f first).Agrees (arrayLiteral rules' f first') Node.Alike := by
  let Alike (es es' : List (ArrayElement Node)) : Prop := es.map (·.map bare) = es'.map (·.map bare)
  refine (Agrees.iterate (I := Alike) (R := Alike) (fun read read' hread => ?_) _ _ (by rfl)).bind
    fun _ _ h => (Agrees.expectPunctuator _).bind_any fun _ _ => .pure (Node.Alike.mk ?_)
  · refine (Agrees.tookPunctuator _).bind_eq fun _ => .ite (fun _ => ?_) fun _ => ?_
    · exact .pure (.again (List.cons_eq_cons.2 ⟨rfl, hread⟩))
    refine (Agrees.atPunctuator _).bind_eq fun _ => .ite (fun _ => .pure (.done hread)) fun _ => ?_
    refine (Agrees.tookPunctuator _).bind_eq fun isSpread => (hr.single f _).bind fun _ _ h => ?_
    extract_lets read read'
    have hread : Alike read read' := by
      refine List.cons_eq_cons.2 ⟨?_, hread⟩
      cases isSpread
      · exact congrArg ArrayElement.item h
      · exact congrArg ArrayElement.spread h
    refine (Agrees.atPunctuator _).bind_eq fun _ => .ite (fun _ => .pure (.done hread)) fun _ => ?_
    exact (Agrees.expectPunctuator _).bind_any fun _ _ => .pure (.again hread)
  · simpa [Shape.map] using h

omit hr in
theorem objectMemberContent_map (key : Key Node) (value : MemberValue Node) :
    (objectMemberContent key value).map bare =
      objectMemberContent (key.map bare) (value.map bare) := by
  cases key with
  | direct name =>
    cases value with
    | property initializer => cases initializer <;> rfl
    | _ => rfl
  | computed => rfl

theorem agrees_objectLiteral (f : Frame) (first first' : Token) :
    (objectLiteral rules f first).Agrees (objectLiteral rules' f first') Node.Alike := by
  refine (Agrees.iterate (I := ListsAlike) (R := ListsAlike) (fun read read' hread => ?_) _ _
    (by rfl)).bind fun _ _ h => (Agrees.expectPunctuator _).bind_any fun _ _ =>
      .pure (Node.Alike.mk (congrArg Shape.objectLiteral h.reverse))
  refine (Agrees.atPunctuator _).bind_eq fun _ => .ite (fun _ => .pure (.done hread)) fun _ => ?_
  refine Agrees.mark.bind_any fun _ _ => (Agrees.tookPunctuator _).bind_eq fun _ => ?_
  extract_lets rest rest'
  have hrest (content content' : ObjectMember Node) (h : content.map bare = content'.map bare) :
      (rest content).Agrees (rest' content') (Round.Alike ListsAlike ListsAlike) := by
    refine (Agrees.spanFrom _ _).bind_any fun _ _ => ?_
    extract_lets read read'
    have hread : ListsAlike read read' := hread.cons (Node.Alike.mk (congrArg Shape.objectMember h))
    refine (Agrees.atPunctuator _).bind_eq fun _ => .ite (fun _ => .pure (.done hread)) fun _ => ?_
    exact (Agrees.expectPunctuator _).bind_any fun _ _ => .pure (.again hread)
  refine .ite (fun _ => ?_) fun _ => (agrees_member hr f _).bind ?_
  · exact (hr.single f _).bind fun _ _ h =>
      .bind_pure (hrest (.spread _) (.spread _) (congrArg ObjectMember.spread h))
  · rintro ⟨key, value⟩ ⟨key', value'⟩ ⟨hkey, hvalue⟩
    refine .bind_pure (hrest _ _ ?_)
    rw [objectMemberContent_map, objectMemberContent_map, hkey, hvalue]

/-- Pieces of a template in a row. -/
abbrev PiecesAlike (ps qs : List (TemplatePart Node)) : Prop :=
  ps.map (·.map bare) = qs.map (·.map bare)

theorem agrees_templateParts (f : Frame) {head head' : Token} (hhead : head.Alike head') :
    (templateParts rules f head).Agrees (templateParts rules' f head') fun a b =>
      PiecesAlike a.1 b.1 := by
  let Alike (a b : List (TemplatePart Node) × Token) : Prop := PiecesAlike a.1 b.1 ∧ a.2.Alike b.2
  refine (Agrees.iterate (I := Alike) (R := Alike) ?_ _ _ ?_).bind fun a b h => .pure ?_
  · rintro ⟨read, piece⟩ ⟨read', _⟩ ⟨hread, ⟨s⟩⟩
    refine .ite (fun _ => .pure (.done ⟨hread, .at s⟩)) fun _ => ?_
    refine (hr.whole f _).bind fun value value' hvalue => ?_
    refine (Agrees.expectPunctuator _).bind_any fun _ _ => ?_
    refine Agrees.templateTail.bind_token fun piece s => .pure (.again ⟨?_, .at s⟩)
    exact List.cons_eq_cons.2 ⟨rfl, List.cons_eq_cons.2 ⟨congrArg TemplatePart.substitution hvalue,
      hread⟩⟩
  · obtain ⟨s⟩ := hhead
    exact ⟨rfl, .at s⟩
  · simpa [PiecesAlike] using h.1

omit hr in
theorem agrees_stringLiteral {t u : Token} (h : t.Alike u) :
    (stringLiteral t).Agrees (stringLiteral u) fun a b => a.map bare = b.map bare := by
  obtain ⟨s⟩ := h
  exact (Agrees.require _ _).bind_eq fun _ => .pure rfl

omit hr in
theorem agrees_simpleOperand (f : Frame) {t u : Token} (h : t.Alike u) :
    (simpleOperand f t).Agrees (simpleOperand f u) Node.Alike := by
  obtain ⟨s⟩ := h
  unfold simpleOperand
  extract_lets rest rest'
  have hrest (shape shape' : Shape Node) (h : shape.map bare = shape'.map bare) :
      (rest shape).Agrees (rest' shape') Node.Alike := .pure (Node.Alike.mk h)
  dsimp only
  split
  case h_1 => exact .ite (fun _ => .bind_pure (hrest _ _ rfl)) fun _ => .bind_refuse rfl
  case h_2 | h_3 | h_4 | h_5 => exact .bind_pure (hrest _ _ rfl)
  case h_6 =>
    refine (Agrees.check (checksAlike_number f (.at s))).bind_any fun _ _ => ?_
    exact (Agrees.require _ _).bind_eq fun _ => .bind_pure (hrest _ _ rfl)
  case h_7 => exact (Agrees.require _ _).bind_eq fun _ => .bind_pure (hrest _ _ rfl)
  case h_8 => exact .bind_pure (hrest _ _ rfl)
  case h_9 => exact (agrees_stringLiteral (.at s)).bind hrest
  case h_10 => exact .bind_unexpected (.at s)

/-! ## Accesses, `new` and `import` -/

omit hr in
theorem agrees_metaName (isAllowed : Bool) (name : String) :
    (metaName isAllowed name).Agrees (metaName isAllowed name) Token.Alike :=
  Agrees.next.bind_token fun _ s => .ite (fun _ => .pure (.at s)) fun _ => .unexpected (.at s)

theorem agrees_subscript (f : Frame) :
    (subscript rules f).Agrees (subscript rules' f) fun a b => a.1.Alike b.1 :=
  (hr.whole f _).bind fun _ _ h => (Agrees.expectPunctuator _).bind_any fun _ _ => .pure h

theorem agrees_importExpression (f : Frame) (first first' : Token) :
    (importExpression rules f first).Agrees (importExpression rules' f first') Node.Alike := by
  refine (Agrees.tookPunctuator _).bind_eq fun _ => .ite (fun _ => ?_) fun _ => ?_
  · exact (agrees_metaName _ _).bind_any fun _ _ => .pure (Node.Alike.mk rfl)
  · refine (Agrees.expectPunctuator _).bind_any fun _ _ => (hr.single f _).bind fun _ _ h => ?_
    exact (Agrees.expectPunctuator _).bind_any fun _ _ =>
      .pure (Node.Alike.mk (congrArg Shape.importCall h))

theorem agrees_constructorAccesses (f : Frame) {callee callee' : Node}
    (hcallee : callee.Alike callee') :
    (constructorAccesses rules f callee).Agrees (constructorAccesses rules' f callee')
      Node.Alike := by
  refine Agrees.iterate (I := Node.Alike) (fun callee callee' hcallee => ?_) _ _ hcallee
  refine Agrees.peek.bind_token fun t s => ?_
  dsimp only
  split
  case h_1 =>
    refine Agrees.skip.bind_any fun _ _ => (Agrees.expectIn _).bind_token fun name s => ?_
    exact .pure (.again (Node.Alike.mk (by simp only [Shape.map, hcallee])))
  case h_2 =>
    refine Agrees.skip.bind_any fun _ _ => (agrees_subscript hr f).bind fun _ _ h => ?_
    exact .pure (.again (Node.Alike.mk (by simp only [Shape.map, hcallee, h])))
  case h_3 =>
    refine Agrees.skip.bind_any fun _ _ => (agrees_templateParts hr f (.at s)).bind fun _ _ h => ?_
    exact .pure (.again (Node.Alike.mk (by simp only [Shape.map, hcallee, h])))
  case h_4 => exact .pure (.done hcallee)

theorem agrees_yieldOperand (f : Frame) (e : Extent) {t u : Token} (h : t.Alike u) :
    (yieldOperand rules f e t).Agrees (yieldOperand rules' f e u) Operand.Alike := by
  obtain ⟨s⟩ := h
  refine .ite (fun _ => .unexpected (.at s)) fun _ => .ite (fun _ => .refuse rfl) fun _ => ?_
  refine (Agrees.peekIn _).bind_token fun after s => ?_
  extract_lets delegates operand delegates' operand'
  refine .ite (fun _ => .pure ⟨Node.Alike.mk rfl, rfl, rfl⟩) fun _ => ?_
  have hoperand (u u' : Unit) : (operand u).Agrees (operand' u') Operand.Alike := by
    refine (hr.expression f _).bind fun _ _ h => .pure ⟨Node.Alike.mk ?_, rfl, h.inserted⟩
    exact congrArg (Shape.yieldExpression delegates ∘ some) h.node
  exact .ite (fun _ => Agrees.skip.bind_any hoperand) fun _ => hoperand () ()

/-! ## All operands -/

theorem agrees_unaryOperand (f : Frame) (e : Extent) (t t' : Token) (operator : UnaryOperator) :
    (unaryOperand rules f e t operator).Agrees (unaryOperand rules' f e t' operator)
      Operand.Alike := by
  refine (hr.expression f _).bind fun operand operand' hoperand => ?_
  extract_lets rest rest'
  have hrest (u u' : Unit) : (rest u).Agrees (rest' u') Operand.Alike :=
    .pure (.ofReading hoperand (Node.Alike.mk (congrArg (Shape.unary operator) hoperand.node)))
  exact .ite (fun _ => (Agrees.check (checksAlike_update hoperand.node)).bind_any hrest) fun _ =>
    hrest () ()

omit hr in
theorem markParenthesised_bare (n : Node) :
    (markParenthesised n).bare = markParenthesised n.bare := by
  obtain ⟨span, shape⟩ := n
  cases shape
  case call | index | member =>
    rw [bare_eq ⟨span, _⟩]
    exact bare_eq _
  all_goals rfl

omit hr in
theorem markParenthesised_alike {n m : Node} (h : n.Alike m) :
    (markParenthesised n).Alike (markParenthesised m) := by
  rw [Node.Alike, markParenthesised_bare, markParenthesised_bare, h]

theorem agrees_parenthesisedOperand (f : Frame) (e : Extent) :
    (parenthesisedOperand rules f e).Agrees (parenthesisedOperand rules' f e) Operand.Alike := by
  refine (agrees_parenthesisedArrow? hr f e false none none).bind fun _ _ harrow => ?_
  cases harrow with
  | some h => exact .pure h
  | none =>
    refine (hr.parenthesised f).bind fun group group' hgroup => ?_
    have hgroup := markParenthesised_alike hgroup
    refine Agrees.peek.bind_token fun after s => .ite (fun _ => ?_) fun _ => .pure (.plain hgroup)
    rw [hgroup.any fun n => by rw [shape_bare]; cases n.shape <;> rfl]
    exact .ite (fun _ => .refuse rfl) fun _ => .unexpected (.at s)

theorem agrees_asyncOperand (f : Frame) (e : Extent) {place place' : Cursor}
    (hplace : place.Alike place') {t u : Token} (h : t.Alike u) :
    (asyncOperand rules f e place t).Agrees (asyncOperand rules' f e place' u) Operand.Alike := by
  obtain ⟨s⟩ := h
  have hname : (Operand.plain ⟨t.span, .identifier t.text⟩).Alike
      (.plain ⟨s, .identifier t.text⟩) := .plain (Node.Alike.mk rfl)
  refine Agrees.peek.bind_token fun after s' => .ite (fun _ => .pure hname) fun _ => ?_
  dsimp only
  split
  case h_1 =>
    exact (Agrees.rewind hplace).bind_any fun _ _ =>
      (agrees_functionExpression hr f).bind fun _ _ h => .pure (.plain h)
  case h_2 =>
    refine (agrees_parenthesisedArrow? hr f e true _ _).bind fun _ _ harrow => .pure ?_
    cases harrow with
    | none => exact hname
    | some h => exact h
  case h_3 =>
    refine .ite (fun _ => Agrees.next.bind fun _ _ h => ?_) fun _ => .pure hname
    exact agrees_singleParameterArrow hr f e true _ _ h

theorem agrees_nameOperand (f : Frame) (e : Extent) {t u : Token} (h : t.Alike u) :
    (nameOperand rules f e t).Agrees (nameOperand rules' f e u) Operand.Alike := by
  refine (Agrees.atPunctuator _).bind_eq fun _ => .ite (fun _ => ?_) fun _ => ?_
  · exact agrees_singleParameterArrow hr f e false _ _ h
  · obtain ⟨s⟩ := h
    exact (Agrees.check (checksAlike_reference f (by rfl))).bind_any fun _ _ =>
      .pure (.plain (Node.Alike.mk rfl))

theorem agrees_operand (f : Frame) (e : Extent) :
    (operand rules f e).Agrees (operand rules' f e) Operand.Alike := by
  refine Agrees.mark.bind fun place place' hplace => (Agrees.nextIn _).bind_token fun t s => ?_
  have hplain {p q : Parse Node} (h : p.Agrees q Node.Alike) :
      (do return .plain (← p) : Parse Operand).Agrees (do return .plain (← q)) Operand.Alike :=
    h.bind fun _ _ h => .pure (.plain h)
  dsimp only
  split
  case h_1 => exact agrees_unaryOperand hr f e _ _ _
  case h_2 =>
    split
    case h_1 => exact hplain (hr.construct f _ _)
    case h_2 => exact agrees_asyncOperand hr f e hplace (.at s)
    case h_3 =>
      exact (Agrees.rewind hplace).bind_any fun _ _ => hplain (agrees_functionExpression hr f)
    case h_4 =>
      exact (Agrees.rewind hplace).bind_any fun _ _ => hplain (agrees_classExpression hr f)
    case h_5 => exact hplain (agrees_importExpression hr f _ _)
    case h_6 => exact hplain (agrees_arrayLiteral hr f _ _)
    case h_7 => exact hplain (agrees_objectLiteral hr f _ _)
    case h_8 =>
      exact (Agrees.rewind hplace).bind_any fun _ _ => agrees_parenthesisedOperand hr f e
    case h_9 =>
      exact (agrees_templateParts hr f (.at s)).bind fun _ _ h =>
        .pure (.plain (Node.Alike.mk (congrArg Shape.templateLiteral h)))
    case h_10 =>
      refine .ite (fun _ => agrees_unaryOperand hr f e _ _ _) fun _ => ?_
      refine .ite (fun _ => agrees_yieldOperand hr f e (.at s)) fun _ => ?_
      refine .ite (fun _ => agrees_nameOperand hr f e (.at s)) fun _ => ?_
      exact hplain (agrees_simpleOperand f (.at s))

theorem agrees_construct (f : Frame) (t u : Token) :
    (construct rules f t).Agrees (construct rules' f u) Node.Alike := by
  refine (Agrees.tookPunctuator _).bind_eq fun _ => .ite (fun _ => ?_) fun _ => ?_
  · exact (agrees_metaName _ _).bind_any fun _ _ => .pure (Node.Alike.mk rfl)
  extract_lets rest rest'
  have hrest (inner inner' : Node) (h : inner.Alike inner') :
      (rest inner).Agrees (rest' inner') Node.Alike := by
    refine (agrees_constructorAccesses hr f h).bind fun callee callee' hcallee => ?_
    refine (Agrees.tookPunctuator _).bind_eq fun _ => .ite (fun _ => ?_) fun _ => ?_
    · refine (agrees_arguments hr f).bind fun _ _ harguments => ?_
      exact (Agrees.expectPunctuator _).bind_any fun _ _ =>
        .pure (Node.Alike.mk (by simp only [Shape.map, hcallee, harguments]))
    · exact .pure (Node.Alike.mk (by simp only [Shape.map, hcallee]))
  refine (Agrees.takeIf _).bind fun _ _ hnew => ?_
  cases hnew with
  | some => exact (hr.construct f _ _).bind hrest
  | none => exact (agrees_operand hr f _).bind fun _ _ h => .bind_pure (hrest _ _ h.node)

/-! ## Operators -/

/-- As much of the same expression. -/
structure Progress.Alike (a b : Progress) : Prop where
  left : a.left.Alike b.left
  isLoose : a.isLoose = b.isLoose
  inserted : a.inserted = b.inserted
  logical : a.logical = b.logical

omit hr in
theorem Progress.Alike.reading {p q : Progress} (h : p.Alike q) : p.reading.Alike q.reading :=
  ⟨h.left, h.inserted⟩

omit hr in
theorem Progress.Alike.closed {p q : Progress} (h : p.Alike q) (stop stop' : Source.Span)
    {shape shape' : Shape Node} (hshape : shape.map bare = shape'.map bare) :
    (p.closed stop shape).Alike (q.closed stop' shape') :=
  ⟨Node.Alike.mk hshape, rfl, h.inserted, h.logical⟩

omit hr in
theorem Progress.Alike.taking {p q : Progress} (h : p.Alike q) {right right' : Reading}
    (hright : right.Alike right') {shape shape' : Shape Node}
    (hshape : shape.map bare = shape'.map bare) :
    (p.taking right shape).Alike (q.taking right' shape') :=
  ⟨Node.Alike.mk hshape, rfl, hright.inserted, h.logical⟩

theorem agrees_rightOf (f : Frame) (e : Extent) {p q : Progress} (h : p.Alike q)
    (operator : Operator) {t u : Token} (ht : t.Alike u) :
    (rightOf rules f e p operator t).Agrees (rightOf rules' f e q operator u)
      Progress.Alike := by
  have hright := hr.expression f (e.atLeast (rightMinimum operator))
  cases operator
  case call isOptional =>
    refine (agrees_arguments hr f).bind fun _ _ harguments => ?_
    exact (Agrees.expectPunctuator _).bind_any fun _ _ =>
      .pure (h.closed _ _ (by simp only [Shape.map, h.left, harguments]))
  case index isOptional =>
    exact (agrees_subscript hr f).bind fun _ _ hvalue =>
      .pure (h.closed _ _ (by simp only [Shape.map, h.left, hvalue]))
  case member isOptional =>
    exact (Agrees.expectIn _).bind_token fun name s =>
      .pure (h.closed _ _ (by simp only [Shape.map, h.left]))
  case conditional =>
    refine (hr.single f _).bind fun _ _ hconsequent => ?_
    refine (Agrees.expectPunctuator _).bind_any fun _ _ => ?_
    exact (hr.expression f _).bind fun _ _ halternate =>
      .pure (h.taking halternate (by simp only [Shape.map, h.left, hconsequent, halternate.node]))
  case comma =>
    refine hright.bind fun _ _ hright => .pure (h.taking hright ?_)
    simp only [Shape.map, List.map_append, h.left.elements, List.map_cons, hright.node,
      List.map_nil]
  case assignment op =>
    refine (Agrees.check (assignmentTarget_alike op h.left)).bind fun _ _ htarget => ?_
    exact hright.bind fun _ _ hright =>
      .pure (h.taking hright (by simp only [Shape.map, htarget, hright.node]))
  case binary op =>
    exact hright.bind fun _ _ hright =>
      .pure (h.taking hright (by simp only [Shape.map, h.left, hright.node]))
  all_goals exact .unexpected ht

theorem agrees_operation (f : Frame) (e : Extent) {p q : Progress} (h : p.Alike q) :
    (operation rules f e p).Agrees (operation rules' f e q)
      (Round.Alike Progress.Alike Reading.Alike) := by
  obtain ⟨left, isLoose, inserted, logical⟩ := p
  obtain ⟨left', _, _, _⟩ := q
  obtain ⟨hleft, rfl, rfl, rfl⟩ := h
  refine .ite (fun _ => .pure (.done ⟨hleft, rfl⟩)) fun _ => ?_
  refine Agrees.mark.bind fun place place' hplace => Agrees.next.bind_token fun t s => ?_
  extract_lets leave closing update ends leave' closing' update' ends'
  have hleave {p q : Progress} (h : p.Alike q) : (leave p).Agrees (leave' q)
      (Round.Alike Progress.Alike Reading.Alike) :=
    (Agrees.rewind hplace).bind_any fun _ _ => .pure (.done h.reading)
  have hprogress (inserted : Bool) (logical : Option BinaryOperator) :
      Progress.Alike ⟨left, isLoose, inserted, logical⟩ ⟨left', isLoose, inserted, logical⟩ :=
    ⟨hleft, rfl, rfl, rfl⟩
  have hclosing (precedence : Nat) {read read' : Parse Progress}
      (hread : read.Agrees read' Progress.Alike) :
      (closing precedence read).Agrees (closing' precedence read')
        (Round.Alike Progress.Alike Reading.Alike) := by
    refine .ite (fun _ => hleave (hprogress _ _)) fun _ => ?_
    exact .ite (fun _ => .unexpected (.at s)) fun _ => hread.bind fun _ _ h => .pure (.again h)
  have hupdate (op : PostfixOperator) : (update op).Agrees (update' op)
      (Round.Alike Progress.Alike Reading.Alike) := by
    refine hclosing _ ((Agrees.check (checksAlike_update hleft)).bind_any fun _ _ => .pure ?_)
    exact (hprogress _ _).closed _ _ (congrArg (Shape.postfixed op) hleft)
  refine .ite (fun _ => hleave (hprogress _ _)) fun _ => ?_
  dsimp only
  split
  case h_1 | h_2 => exact hupdate _
  case h_3 =>
    refine hclosing _ ((agrees_templateParts hr f (.at s)).bind fun _ _ hparts => .pure ?_)
    exact (hprogress _ _).closed _ _ (by simp only [Shape.map, hleft, hparts])
  case h_4 => exact .ite (fun _ => hleave (hprogress _ _)) fun _ => .unexpected (.at s)
  case h_5 operator newline =>
    refine .ite (fun _ => hleave (hprogress _ _)) fun _ => .ite (fun _ => ?_) fun _ => ?_
    · exact .ite (fun _ => hleave (hprogress _ _)) fun _ => .unexpected (.at s)
    · refine .ite (fun _ => .refuse rfl) fun _ => ?_
      exact (agrees_rightOf hr f e (hprogress _ _) _ (.at s)).bind fun _ _ h => .pure (.again h)

theorem agrees_expression (f : Frame) (e : Extent) :
    (expression rules f e).Agrees (expression rules' f e) Reading.Alike :=
  (agrees_operand hr f e).bind fun _ _ h =>
    .iterate (I := Progress.Alike) (fun _ _ hprogress => agrees_operation hr f e hprogress) _ _
      ⟨h.node, h.isLoose, h.inserted, rfl⟩

end ScriptMin.Grammar
